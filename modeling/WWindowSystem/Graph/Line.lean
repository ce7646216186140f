import Mathlib.Logic.Function.Basic
import WWindowSystem.Graph.Bitblk
import WWindowSystem.Library.Loops
import WWindowSystem.Library.Words

namespace WWindowSystem.Graph

structure Segment where
  xa : Int
  ya : Int
  xe : Int
  ye : Int
  deriving DecidableEq

def LINE_NEEDS_CLIPPING (s : Segment) : Option Rec → Bool
  | none => false
  | some cl => decide (cl.x0 > s.xa ∨ cl.x1 < s.xe ∨ ulong (s.ya - cl.y0) ≥ ulong cl.h ∨ ulong (s.ye - cl.y0) ≥ ulong cl.h)

def quot (a b : Int) : Option Int := if b = 0 then none else some (a.tdiv b)

def clampX (cl : Rec) (x : Int) : Int := if x < cl.x0 then cl.x0 else if x > cl.x1 then cl.x1 else x

def columnAt (o : Segment) (x y row : Int) : Option Int :=
  let dx := o.xe - o.xa
  let dy := o.ye - o.ya
  quot (2 * (x * dy + dx * (row - y)) + dy) (2 * dy)

def rowAt (o : Segment) (x y column : Int) : Option Int :=
  let dx := o.xe - o.xa
  let dy := o.ye - o.ya
  quot (2 * (y * dx + dy * (column - x)) + dx) (2 * dx)

/-- The steps of `CLIP_LINE` for the line `o`: `none` is a division by zero, `some none` a line outside. -/
def clipLeft (cl : Rec) (o s : Segment) : Option (Option Segment) :=
  if cl.x0 ≤ s.xa then some (some s)
  else if cl.x0 ≤ s.xe then (rowAt o o.xa o.ya cl.x0).map fun y => some { s with xa := cl.x0, ya := y }
  else some none

def clipRight (cl : Rec) (o s : Segment) : Option (Option Segment) :=
  if s.xe ≤ cl.x1 then some (some s)
  else if s.xa ≤ cl.x1 then (rowAt o o.xe o.ye cl.x1).map fun y => some { s with xe := cl.x1, ye := y }
  else some none

def cutStart (cl : Rec) (o s : Segment) (row : Int) : Option (Option Segment) :=
  (columnAt o o.xa o.ya row).map fun x => some { s with xa := clampX cl x, ya := row }

def cutEnd (cl : Rec) (o s : Segment) (row : Int) : Option (Option Segment) :=
  (columnAt o o.xe o.ye row).map fun x => some { s with xe := clampX cl x, ye := row }

def clipTop (cl : Rec) (o s : Segment) : Option (Option Segment) :=
  if cl.y0 ≤ s.ya then if cl.y0 ≤ s.ye then some (some s) else cutEnd cl o s cl.y0
  else if cl.y0 ≤ s.ye then cutStart cl o s cl.y0
  else some none

def clipBottom (cl : Rec) (o s : Segment) : Option (Option Segment) :=
  if s.ya ≤ cl.y1 then if s.ye ≤ cl.y1 then some (some s) else cutEnd cl o s cl.y1
  else if s.ye ≤ cl.y1 then cutStart cl o s cl.y1
  else some none

def nextEdge (f : Segment → Option (Option Segment)) : Option (Option Segment) → Option (Option Segment)
  | some (some s) => f s
  | r => r

def CLIP_LINE (o : Segment) : Option Rec → Option (Option Segment)
  | none => some (some o)
  | some cl => nextEdge (clipBottom cl o) (nextEdge (clipTop cl o) (nextEdge (clipRight cl o) (clipLeft cl o o)))

def clipped_line_delta (dx dy x_offs : Int) : Option Int :=
  if x_offs = 0 then some dx
  else if 2 * dx = 0 then none
  else
    let delta := toint ((dx - 2 * |toint x_offs| * dy).tmod (2 * dx))
    some (if delta < 0 then toint (delta + 2 * dx) else delta)

inductive DrawMode where
  | M_CLEAR | M_DRAW | M_INVERS | M_TRANSP | other
  deriving DecidableEq

structure WGC where
  drawmode : DrawMode
  fgCol : BitVec 8
  bgCol : BitVec 8
  pattern : Nat → BitVec 16

def WGC.solid (gc : WGC) (old : BitVec 8) : BitVec 8 :=
  match gc.drawmode with
  | .M_CLEAR => gc.bgCol
  | .M_DRAW | .M_TRANSP => gc.fgCol
  | .M_INVERS => old ^^^ (gc.fgCol ^^^ gc.bgCol)
  | .other => old

def WGC.ink (gc : WGC) (bit : Bool) (old : BitVec 8) : BitVec 8 :=
  if bit then gc.solid old else if gc.drawmode = .M_DRAW then gc.bgCol else old

structure Pen where
  x0 : Int
  y0 : Int
  ptr : Int
  delta : Int
  mem : Memory

abbrev Paint := Int → Int → Int → Memory → Memory

def steepTurn (paint : Paint) (bpl yi dx dy ye : Int) (s : Pen) : Pen ⊕ Memory :=
  if s.y0 = ye then .inr s.mem
  else
    let y0 := s.y0 + yi
    let ptr := s.ptr + bpl
    let delta := s.delta - dx
    let ptr' := if delta ≤ 0 then ptr + 1 else ptr
    let delta' := if delta ≤ 0 then delta + dy else delta
    .inl ⟨s.x0, y0, ptr', delta', paint s.x0 y0 ptr' s.mem⟩

def flatTurn (paint : Paint) (bpl dx dy xe : Int) (s : Pen) : Pen ⊕ Memory :=
  if s.x0 = xe then .inr s.mem
  else
    let x0 := s.x0 + 1
    let ptr := s.ptr + 1
    let delta := s.delta - dy
    let ptr' := if delta ≤ 0 then ptr + bpl else ptr
    let delta' := if delta ≤ 0 then delta + dx else delta
    .inl ⟨x0, s.y0, ptr', delta', paint x0 s.y0 ptr' s.mem⟩

def ordered (x0 y0 xe ye : Int) : Segment := if xe < x0 then ⟨xe, ye, x0, y0⟩ else ⟨x0, y0, xe, ye⟩

/-- What `direct8_line` and `direct8_dline` do once the ends are in order: the loops of the draw modes
differ in what they do to a pixel, and an unknown mode has none. `none` for a division by zero or after
`n` turns. -/
def lineFrom (gc : WGC) (first paint : Paint) (n : Nat) (FirstPoint : Bool) (glob_clip0 : Option Rec) (bm : BITMAP)
    (o : Segment) (mem : Memory) : Option Memory :=
  let dx := o.xe - o.xa
  let yi : Int := if o.ye - o.ya < 0 then -1 else 1
  let bpl := if o.ye - o.ya < 0 then -bm.upl else bm.upl
  let dy := |o.ye - o.ya|
  match if LINE_NEEDS_CLIPPING o glob_clip0 then CLIP_LINE o glob_clip0 else some (some o) with
  | none => none
  | some none => some mem
  | some (some s) =>
    let ptr := bm.data + s.ya * bm.upl + s.xa
    let mem := if FirstPoint then first s.xa s.ya ptr mem else mem
    if gc.drawmode = .other then some mem
    else if dx < dy then
      (clipped_line_delta dy dx (s.ya - o.ya)).bind fun delta =>
        runLoop (steepTurn paint bpl yi (dx + dx) (dy + dy) s.ye) n ⟨s.xa, s.ya, ptr, delta, mem⟩
    else
      (clipped_line_delta dx dy (s.xa - o.xa)).bind fun delta =>
        runLoop (flatTurn paint bpl (dx + dx) (dy + dy) s.xe) n ⟨s.xa, s.ya, ptr, delta, mem⟩

def direct8_line (n : Nat) (FirstPoint : Bool) (glob_clip0 : Option Rec) (gc0 : WGC) (bm : BITMAP) (x0 y0 xe ye : Int)
    (mem : Memory) : Option Memory :=
  lineFrom gc0
    (fun _ _ ptr mem => Function.update mem ptr (if gc0.drawmode = .other then gc0.fgCol else gc0.solid (mem ptr)))
    (fun _ _ ptr mem => Function.update mem ptr (gc0.solid (mem ptr))) n FirstPoint glob_clip0 bm
    (ordered x0 y0 xe ye) mem

def WGC.bit (gc : WGC) (x y : Int) : Bool :=
  gc.pattern (y % 16).toNat &&& 0x8000#16 >>> (x % 16).toNat != 0#16

def direct8_dline (n : Nat) (FirstPoint : Bool) (glob_clip0 : Option Rec) (gc0 : WGC) (bm : BITMAP) (x0 y0 xe ye : Int)
    (mem : Memory) : Option Memory :=
  let paint : Paint := fun x0 y0 ptr mem => Function.update mem ptr (gc0.ink (gc0.bit x0 y0) (mem ptr))
  lineFrom gc0 paint paint n FirstPoint glob_clip0 bm (ordered x0 y0 xe ye) mem

end WWindowSystem.Graph
