import Mathlib.Algebra.Order.Ring.Int
import Mathlib.Data.List.Defs
import Mathlib.Logic.Function.Basic

namespace WWindowSystem

structure ColorTable where
  win : Option Nat
  colors : Nat
  red : Nat → Nat
  green : Nat → Nat
  blue : Nat → Nat
  used : Nat → BitVec 8

/-- The color state of the server. Tables live at addresses; `glob_colortable` is table 0. The
counters are an `ulong` each: what the server sees of `colorRefs i` is its residue. -/
structure Colors where
  colorCount : Nat
  glob_sharedcolors : Nat
  colorRefs : Nat → Int
  tables : Nat → ColorTable
  nextTable : Nat
  ulongBits : Nat := 32

def Colors.refs (C : Colors) (i : Nat) : Int := C.colorRefs i % 2 ^ C.ulongBits

def SETBIT (ptr : Nat → BitVec 8) (bit : Nat) : Nat → BitVec 8 :=
  Function.update ptr (bit >>> 3) (ptr (bit >>> 3) ||| 0x80#8 >>> (bit &&& 7))

def CLRBIT (ptr : Nat → BitVec 8) (bit : Nat) : Nat → BitVec 8 :=
  Function.update ptr (bit >>> 3) (ptr (bit >>> 3) &&& ~~~(0x80#8 >>> (bit &&& 7)))

def TSTBIT (ptr : Nat → BitVec 8) (bit : Nat) : Bool :=
  ptr (bit >>> 3) &&& 0x80#8 >>> (bit &&& 7) != 0#8

def FGCOL_INDEX : Nat := 1
def BGCOL_INDEX : Nat := 0

def ColorTable.setColor (t : ColorTable) (index red green blue : Nat) : ColorTable :=
  { t with
    red := Function.update t.red index (red % 256)
    green := Function.update t.green index (green % 256)
    blue := Function.update t.blue index (blue % 256) }

def Colors.setTable (C : Colors) (tab : Nat) (f : ColorTable → ColorTable) : Colors :=
  { C with tables := Function.update C.tables tab (f (C.tables tab)) }

def colorInit (planes : Nat) : Option Colors :=
  let colorCount := 1 <<< planes
  if colorCount < 2 ∨ colorCount > 256 then none
  else
    let blank : ColorTable :=
      { win := none, colors := 0, red := fun _ => 0, green := fun _ => 0, blue := fun _ => 0
        used := fun _ => 0 }
    let t := (blank.setColor FGCOL_INDEX 0 0 0).setColor BGCOL_INDEX 0xff 0xff 0xff
    let t := { t with used := SETBIT (SETBIT t.used FGCOL_INDEX) BGCOL_INDEX, colors := 2 }
    some
      { colorCount
        glob_sharedcolors := 2
        colorRefs := fun i => if i = FGCOL_INDEX ∨ i = BGCOL_INDEX then 0xf0000000 else 0
        tables := Function.update (fun _ => blank) 0 t
        nextTable := 1 }

def colorInitShared (C : Colors) (rgb : Int) : Colors :=
  if C.glob_sharedcolors ≥ C.colorCount then C
  else
    let i := C.glob_sharedcolors
    let C := C.setTable 0 fun t =>
      let t := t.setColor i ((rgb >>> (16 : Nat)) % 256).toNat ((rgb >>> (8 : Nat)) % 256).toNat (rgb % 256).toNat
      { t with used := SETBIT t.used i, colors := t.colors + 1 }
    { C with
      colorRefs := Function.update C.colorRefs i (C.colorRefs i + 0xf000)
      glob_sharedcolors := i + 1 }

def startColors (planes : Nat) (specs : List Int) (bitmapPlanes : Nat) : Option Colors :=
  (colorInit planes).map fun C =>
    let C := specs.foldl colorInitShared C
    { C with
      glob_sharedcolors :=
        if C.glob_sharedcolors > 1 <<< bitmapPlanes then 1 <<< bitmapPlanes else C.glob_sharedcolors }

def countByte (add : Int) (byte : BitVec 8) (refs : Nat → Int) (count : Nat) : Nat → Int :=
  if byte = 0x00#8 then refs
  else if byte = 0xff#8 then
    (List.range 8).foldl (fun r i => Function.update r (count + i) (r (count + i) + add)) refs
  else
    (List.range 8).foldl (fun r i =>
      if 0x80#8 >>> i &&& byte ≠ 0#8 then Function.update r (count + i) (r (count + i) + add)
      else r) refs

def changeCounts (C : Colors) (tab : Nat) (add : Int) : Colors :=
  let top := (C.tables tab).colors
  { C with colorRefs := (List.range ((top + 7) / 8)).foldl (fun r i =>
      countByte add ((C.tables tab).used i) r (8 * i)) C.colorRefs }

def makePrivateTable (C : Colors) (win tab : Nat) : Colors × Nat :=
  let old := C.tables tab
  let new : ColorTable :=
    { win := some win
      colors := old.colors
      red := fun i => if i < old.colors then old.red i else 0
      green := fun i => if i < old.colors then old.green i else 0
      blue := fun i => if i < old.colors then old.blue i else 0
      used := old.used }
  ({ C with tables := Function.update C.tables C.nextTable new, nextTable := C.nextTable + 1 },
    C.nextTable)

def ownTable (C : Colors) (win tab : Nat) : Colors × Nat :=
  if (C.tables tab).win = some win then (C, tab) else makePrivateTable C win tab

def leastUsed (used : Nat → BitVec 8) (refs : Nat → Int) (colorCount : Nat) : Option Nat :=
  ((List.range colorCount).reverse.foldl (fun r i =>
    if !TSTBIT used i && decide (refs i < r.2) then (some i, refs i) else r)
    ((none : Option Nat), (0xffffffff : Int))).1

def colorAllocColor (C : Colors) (win tab red green blue : Nat) : Int × Colors × Nat :=
  match leastUsed (C.tables tab).used C.refs C.colorCount with
  | none => (-1, C, tab)
  | some index =>
    let own := ownTable C win tab
    let C := own.1.setTable own.2 fun t =>
      let t := t.setColor index red green blue
      { t with used := SETBIT t.used index, colors := if index ≥ t.colors then index + 1 else t.colors }
    (index, { C with colorRefs := Function.update C.colorRefs index (C.colorRefs index + 1) }, own.2)

def freeDown (used : Nat → BitVec 8) (shared : Nat) : Nat → (Nat → BitVec 8) × Int
  | 0 => (used, 0)
  | index + 1 =>
    if index ≥ shared then
      if TSTBIT used index then
        let r := freeDown (CLRBIT used index) shared index
        (r.1, r.2 + 1)
      else freeDown used shared index
    else (used, 0)

def newTop (used : Nat → BitVec 8) : Nat → Nat
  | 0 => 0
  | index + 1 => if index > 0 ∧ !TSTBIT used index then newTop used index else index + 1

def colorFreeColor (C : Colors) (win tab : Nat) (index : Int) : Int × Colors × Nat :=
  if index < 0 then
    if (C.tables tab).colors ≤ C.glob_sharedcolors then (0, C, tab)
    else
      let own := ownTable C win tab
      let t := own.1.tables own.2
      let r := freeDown t.used C.glob_sharedcolors t.colors
      (r.2, own.1.setTable own.2 fun t => { t with used := r.1, colors := C.glob_sharedcolors }, own.2)
  else if index ≥ C.colorCount ∨ !TSTBIT (C.tables tab).used index.toNat then (-1, C, tab)
  else
    let own := ownTable C win tab
    let i := index.toNat
    let C := own.1.setTable own.2 fun t =>
      let used := CLRBIT t.used i
      { t with used, colors := if i + 1 = t.colors then newTop used i else t.colors }
    (1, { C with colorRefs := Function.update C.colorRefs i (C.colorRefs i - 1) }, own.2)

def colorGetColor (C : Colors) (tab : Nat) (index : Int) : Option (Nat × Nat × Nat) :=
  if index < 0 ∨ index ≥ C.colorCount then none
  else if !TSTBIT (C.tables tab).used index.toNat then none
  else
    let t := C.tables tab
    some (t.red index.toNat, t.green index.toNat, t.blue index.toNat)

def colorChangeColor (C : Colors) (win tab : Nat) (index : Int) (red green blue : Nat) :
    Int × Colors × Nat :=
  if index < 0 ∨ index ≥ C.colorCount then (-1, C, tab)
  else if win = 0 ∧ index < C.glob_sharedcolors then (-1, C, tab)
  else if !TSTBIT (C.tables tab).used index.toNat then (-1, C, tab)
  else
    let own := ownTable C win tab
    (0, own.1.setTable own.2 fun t => t.setColor index.toNat red green blue, own.2)

def colorCopyVirtualTable (C : Colors) (parent parentTab : Nat) : Colors × Nat :=
  let tab := if parent = 0 then 0 else parentTab
  (changeCounts C tab 1, tab)

def colorFreeTable (C : Colors) (tab : Nat) : Colors := changeCounts C tab (-1)

end WWindowSystem
