import WWindowSystem.Server.Removal

namespace WWindowSystem

open Forest

inductive BlockType where
  | none | get | put
  deriving DecidableEq

structure Bitmap where
  width : Int := 0
  height : Int := 0
  unitsize : Int := 0
  upl : Int := 0
  data : Option (Nat → Nat) := none

def Bitmap.size (bm : Bitmap) : Int := bm.height * bm.unitsize * bm.upl

/-- The fields of a client for a block transfer; `bptr` counts from the start of the data. -/
structure Block where
  btype : BlockType := .none
  bx0 : Int := 0
  by0 : Int := 0
  bsize : Int := 0
  bptr : Int := 0
  bbm : Bitmap := {}
  bwin : Option Nat := none

/-- `direct8_createbm`; `mem` says whether there is memory. A negative size is a huge `size_t`,
for which there never is. -/
def createbm (width height : Int) (mem : Bool) : Bitmap × Bool :=
  let bm : Bitmap := { width, height, unitsize := 1, upl := short ((width + 3) / 4 * 4) }
  if mem && decide (0 ≤ bm.size) then ({ bm with data := some fun _ => 0 }, true) else (bm, false)

def Bitmap.pixels (bm : Bitmap) : Pixmap := fun p =>
  bm.data.elim 0 fun data => data (p.2 * bm.upl + p.1).toNat

def bitblkClip (bm : Pixmap) (x0 y0 width height : Int) (clip0 : Rec) (bm1 : Pixmap) (x1 y1 : Int)
    (clip1 : Rec) : Pixmap := fun p =>
  if rect_cont_point clip0 (p.1 - x1 + x0) (p.2 - y1 + y0) && rect_cont_point clip1 p.1 p.2 then
    bitblk bm x0 y0 width height bm1 x1 y1 p
  else bm1 p

/-- Bytes from `bptr` on; no byte is copied when `count` is negative, where the source would run
through all memory. -/
def memcpy (data : Nat → Nat) (bptr : Int) (rawdata : Nat → Nat) (count : Int) : Nat → Nat := fun i =>
  if bptr ≤ i ∧ i < bptr + count then rawdata (i - bptr).toNat else data i

def putblock (s : Server) (b : Block) : Server :=
  match b.bwin.bind s.windowLookup with
  | none => s
  | some f =>
    let win := f.win
    let width := b.bbm.width
    let height := b.bbm.height
    let clip := rect_create 0 0 width height
    let x1 := short (b.bx0 + win.area.work.x0)
    let y1 := short (b.by0 + win.area.work.y0)
    if win.is_open && !win.is_hidden then
      ({ s with
        screen := bitblkClip b.bbm.pixels 0 0 width height clip s.screen (win.pos.x0 + x1)
          (win.pos.y0 + y1) win.work }.setFocus { f with win := { win with is_dirty := true } }).1
    else
      (s.setFocus { f with
        win := { win with
          bitmap := bitblkClip b.bbm.pixels 0 0 width height clip win.bitmap x1 y1 win.area.work
          dirty := if win.is_open then rectUpdateDirty win.dirty x1 y1 width height
            else win.dirty } }).1

def client_putblockreq (s : Server) (b : Block) (width height : Int) (handle : Nat) (x0 y0 : Int)
    (mem : Bool) : Int × Block :=
  let b := { b with bwin := (s.windowLookup handle).map fun f => f.win.id }
  match s.windowLookup handle with
  | none => (-1, b)
  | some f =>
    if f.win.flags.has W_CONTAINER then (-2, b)
    else if b.btype ≠ .none ∨ width < 1 ∨ height < 1 then (-3, b)
    else
      let r := createbm width height mem
      let b := { b with bbm := r.1 }
      if !r.2 then (-4, { b with btype := .none })
      else (r.1.size, { b with btype := .put, bsize := r.1.size, bx0 := x0, by0 := y0, bptr := 0 })

def Block.count (b : Block) (space : Int) : Int := if b.bsize > space then space else b.bsize

def Block.finished (b : Block) : Block :=
  { b with bbm := { b.bbm with data := none }, btype := .none }

def Block.advance (b : Block) (count : Int) : Block :=
  { b with bptr := b.bptr + count, bsize := b.bsize - count }

def client_putblockdata (s : Server) (b : Block) (rawdata : Nat → Nat) (space : Int) :
    Server × Block :=
  if b.btype ≠ .put then (s, b)
  else
    let count := b.count space
    let data := b.bbm.data.map fun data => memcpy data b.bptr rawdata count
    let b := { b with bbm := { b.bbm with data } }.advance count
    if b.bsize < 1 then (putblock s b, b.finished) else (s, b)

def glob_rootarea (s : Server) : Rec :=
  match s.tree with
  | .nil => {}
  | .node w _ _ => w.area.work

def getblock (s : Server) (bm : Bitmap) (f : Focus) (x0 y0 width height : Int) : Bitmap :=
  let win := f.win
  let clip := rect_create 0 0 width height
  let x0 := short (x0 + win.area.work.x0)
  let y0 := short (y0 + win.area.work.y0)
  let pixels :=
    if win.is_open && !win.is_hidden then
      bitblkClip s.screen (win.pos.x0 + x0) (win.pos.y0 + y0) width height (glob_rootarea s)
        bm.pixels 0 0 clip
    else bitblkClip win.bitmap x0 y0 width height win.area.work bm.pixels 0 0 clip
  { bm with data := bm.data.map fun _ i => pixels (i % bm.upl, i / bm.upl) }

def client_getblockreq (s : Server) (b : Block) (handle : Nat) (x0 y0 width height : Int)
    (mem : Bool) : Int × Block :=
  if b.btype ≠ .none ∨ width < 0 ∨ height < 0 ∨ x0 < 0 ∨ y0 < 0 then (-1, b)
  else match s.windowLookup handle with
  | none => (-2, b)
  | some f =>
    if f.win.flags.has W_CONTAINER then (-3, b)
    else if x0 + width > f.win.area.work.w ∨ y0 + height > f.win.area.work.h then (-4, b)
    else
      let r := createbm width height mem
      let b := { b with bbm := r.1 }
      if !r.2 then (-5, b)
      else (r.1.size, { b with
        bbm := getblock s r.1 f x0 y0 width height, btype := .get, bsize := r.1.size, bptr := 0 })

def client_getblockdata (b : Block) (space : Int) : Int × Block :=
  if b.btype ≠ .get then (0, b)
  else
    let count := b.count space
    let b := b.advance count
    (count, if b.bsize < 1 then b.finished else b)

structure Session where
  server : Server
  block : Nat → Block

inductive BlockEvent where
  | request (r : Request)
  | putblkreq (cid : Nat) (width height : Int) (handle : Nat) (x0 y0 : Int) (mem : Bool)
  | getblkreq (cid handle : Nat) (x0 y0 width height : Int) (mem : Bool)
  | rawdata (cid : Nat) (len : Int) (data : Nat → Nat)
  | getblkdata (cid : Nat)

def PAKET_DATA : Int := 4000

def PAKET_HEAD : Int := 4

def Session.setBlock (t : Session) (cid : Nat) (b : Block) : Session :=
  { t with block := Function.update t.block cid b }

def BlockEvent.process (t : Session) : BlockEvent → Int × Session
  | .request _ => (0, t)
  | .putblkreq cid width height handle x0 y0 mem =>
    let r := client_putblockreq t.server (t.block cid) width height handle x0 y0 mem
    (r.1, t.setBlock cid r.2)
  | .getblkreq cid handle x0 y0 width height mem =>
    let r := client_getblockreq t.server (t.block cid) handle x0 y0 width height mem
    (r.1, t.setBlock cid r.2)
  | .rawdata cid len data =>
    let r := client_putblockdata t.server (t.block cid) data (short (len - PAKET_HEAD))
    (0, { t.setBlock cid r.2 with server := r.1 })
  | .getblkdata cid =>
    let r := client_getblockdata (t.block cid) PAKET_DATA
    (r.1, t.setBlock cid r.2)

def BlockEvent.sender : BlockEvent → Option Nat
  | .request _ => none
  | .putblkreq cid _ _ _ _ _ _ | .getblkreq cid _ _ _ _ _ _ | .rawdata cid _ _ | .getblkdata cid =>
    some cid

def Session.request (D : Driver) (mouse : Point) (t : Session) (r : Request) : Int × Session :=
  let q := r.run D mouse t.server
  (q.1, { server := q.2
          block := fun c => if c ∈ t.server.connected then t.block c else {} })

def BlockEvent.run (D : Driver) (mouse : Point) (t : Session) (e : BlockEvent) : Int × Session :=
  match e with
  | .request r => t.request D mouse r
  | e => if e.sender.all fun cid => decide (cid ∈ t.server.connected) then e.process t else (0, t)

def Session.serve (D : Driver) (t : Session) (e : BlockEvent × Point) : Session := (e.1.run D e.2 t).2

def session_init (d : Display) (screen : Pixmap) (colors : Colors) : Session :=
  { server := window_init d screen colors, block := fun _ => {} }

end WWindowSystem
