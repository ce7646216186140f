import WWindowSystem.Server.ColorRequests
import WWindowSystem.Server.States

namespace WWindowSystem

open Forest

def client_create (D : Driver) (s : Server) (cptr : Client) (width height : Int) (flags : Flags) :
    Int × Server :=
  createBelow D s cptr width height flags (if flags.has W_TOP then 1 else 0)

def client_create2 (D : Driver) (s : Server) (cptr : Client) (width height : Int) (flags : Flags)
    (handle : Nat) : Int × Server :=
  if handle < 2 then (0, s) else createBelow D s cptr width height flags handle

def client_move (D : Driver) (s : Server) (relative : Bool) (handle : Nat) (x0 y0 : Int)
    (mouse : Point) : Int × Server :=
  match s.windowLookup handle with
  | none => (-9999, s)
  | some f =>
    if !f.win.is_open then (-1, s)
    else if !f.win.flags.has W_MOVE then (-1, s)
    else match (ancestors f.ctx).head? with
    -- The root window has no parent, but it is not `W_MOVE` either.
    | none => (-1, s)
    | some parent =>
      let x0 := if relative then short (x0 + parent.work.x0) else x0
      let y0 := if relative then short (y0 + parent.work.y0) else y0
      let r := window_move D s f x0 y0
      (r.1, w_changeActiveWindow D r.2.1 mouse.1 mouse.2)

def w_topDown (D : Driver) (s : Server) (handle : Nat) : Server :=
  match s.windowLookup handle with
  | none => s
  | some f =>
    match f.ctx with
    | .prev _ _ :: _ => (window_to_top D s f).2.1
    | _ => (window_to_bottom D s f).2.1

def killClientWindow (D : Driver) (mouse : Point) (cid : Nat) (s : Server) (id : Nat) : Server :=
  match s.windowLookup id with
  | none => s
  | some f => if f.win.cptr = some cid then (client_delete D s id mouse).2 else s

def windowKillClient (D : Driver) (mouse : Point) (s : Server) (cid : Nat) : Server :=
  match s.tree with
  | .nil => s
  | .node _ cs _ => ((postorder cs).map Window.id).foldl (killClientWindow D mouse cid) s

def killClient (D : Driver) (mouse : Point) (s : Server) (cid : Nat) : Server :=
  let s := windowKillClient D mouse s cid
  { s with clients := s.clients.filter fun c => c.id ≠ cid }

def createClient (s : Server) (cid raddr uid : Nat) : Server :=
  if cid ∈ s.clients.map Client.id then s
  else { s with clients := { id := cid, raddr, uid } :: s.clients }

inductive Request where
  | connect (cid raddr uid : Nat)
  | disconnect (cid : Nat)
  | create (cid : Nat) (width height : Int) (flags : Flags)
  | create2 (cid : Nat) (width height : Int) (flags : Flags) (handle : Nat)
  | open (handle : Nat) (x0 y0 : Int) (placed : Option Point)
  | close (handle : Nat)
  | move (relative : Bool) (handle : Nat) (x0 y0 : Int)
  | topDown (handle : Nat)
  | resize (handle : Nat) (width height : Int) (placed : Option Point)
  | delete (handle : Nat)

def byClient (s : Server) (cid : Nat) (op : Client → Int × Server) : Int × Server :=
  match s.clients.find? fun c => c.id = cid with
  | none => (0, s)
  | some cptr => op cptr

def Request.run (D : Driver) (mouse : Point) (s : Server) : Request → Int × Server
  | .connect cid raddr uid => (0, createClient s cid raddr uid)
  | .disconnect cid => (0, killClient D mouse s cid)
  | .create cid width height flags =>
    byClient s cid fun cptr => client_create D s cptr width height flags
  | .create2 cid width height flags handle =>
    byClient s cid fun cptr => client_create2 D s cptr width height flags handle
  | .open handle x0 y0 placed => client_open D s handle x0 y0 placed mouse
  | .close handle => client_close D s handle mouse
  | .move relative handle x0 y0 => client_move D s relative handle x0 y0 mouse
  | .topDown handle => (0, w_topDown D s handle)
  | .resize handle width height placed => client_resize D s handle width height placed mouse
  | .delete handle => client_delete D s handle mouse

def serve (D : Driver) (s : Server) (r : Request × Point) : Server := (r.1.run D r.2 s).2

def Served (D : Driver) (s : Server) : Prop :=
  ∃ (d : Display) (screen : Pixmap) (colors : Colors) (l : List (Request × Point)),
    s = l.foldl (serve D) (window_init d screen colors)

end WWindowSystem

namespace WWindowSystem

def M_INVERS : BitVec 16 := 2
def F_NORMAL : BitVec 16 := 0x0000
def F_STYLEMASK : BitVec 16 := 0x001f
def MAX_GRAYSCALES : BitVec 16 := 0x40
def GRAY_PATTERN : BitVec 16 := 0xfe
def W_PATTERN : BitVec 16 := 0xfd
def W_USERPATTERN : BitVec 16 := 0xfc

abbrev Pattern := List (BitVec 16)

def BackGround : Pattern :=
  [0xeeee, 0xbbbb, 0xdddd, 0x7777, 0xeeee, 0xbbbb, 0xdddd, 0x7777,
   0xeeee, 0xbbbb, 0xdddd, 0x7777, 0xeeee, 0xbbbb, 0xdddd, 0x7777]

def DefaultPattern : Pattern :=
  [0xaaaa, 0x5555, 0xaaaa, 0x5555, 0xaaaa, 0x5555, 0xaaaa, 0x5555,
   0xaaaa, 0x5555, 0xaaaa, 0x5555, 0xaaaa, 0x5555, 0xaaaa, 0x5555]

structure GCONTEXT where
  drawmode : BitVec 16
  linewidth : Int
  textstyle : BitVec 16
  fgCol : Int
  bgCol : Int
  patbuf : Pattern

def set_defaultgc : GCONTEXT where
  drawmode := M_INVERS
  linewidth := 1
  textstyle := F_NORMAL
  fgCol := FGCOL_INDEX
  bgCol := BGCOL_INDEX
  patbuf := DefaultPattern

def DM64 : List (BitVec 16) :=
  [ 0, 32,  8, 40,  2, 34, 10, 42,
   48, 16, 56, 24, 50, 18, 58, 26,
   12, 44,  4, 36, 14, 46,  6, 38,
   60, 28, 52, 20, 62, 30, 54, 22,
    3, 35, 11, 43,  1, 33,  9, 41,
   51, 19, 59, 27, 49, 17, 57, 25,
   15, 47,  7, 39, 13, 45,  5, 37,
   63, 31, 55, 23, 61, 29, 53, 21]

def grayLine (id : BitVec 16) (row : Nat) : BitVec 16 :=
  (List.range 8).foldl (fun patt j =>
    if id ≤ DM64.getD (8 * row + j) 0 then patt ||| 0x0101 <<< j else patt) 0

def rollPattern (roll : BitVec 16 → BitVec 16) : BitVec 16 → Pattern → BitVec 16 × Pattern
  | id, [] => (id, [])
  | id, patt :: patbuf =>
    let r := rollPattern roll (roll id) patbuf
    (r.1, (patt ||| id) :: r.2)

def patternOf (id : BitVec 16) : Pattern :=
  if id ≤ MAX_GRAYSCALES then
    let lines := (List.range 8).map (grayLine id)
    lines ++ lines
  else if id ≥ 0xff then
    let patbuf := List.replicate 16 0
    let r := if id &&& 0x8100 ≠ 0 then
        rollPattern (fun id => (id &&& 1) <<< 15 ||| id >>> 1) id patbuf
      else (id, patbuf)
    if r.1 &&& 0x300 ≠ 0 then
      (rollPattern (fun id => (id &&& 0x8000) >>> 15 ||| id <<< 1) r.1 r.2).2
    else r.2
  else if id = W_PATTERN then BackGround
  else DefaultPattern

def changeGc (s : Server) (gc : Nat → GCONTEXT) (handle : Nat)
    (change : Window → GCONTEXT → GCONTEXT) : Nat → GCONTEXT :=
  match s.windowLookup handle with
  | none => gc
  | some f => Function.update gc f.win.id (change f.win (gc f.win.id))

def client_setmode (s : Server) (gc : Nat → GCONTEXT) (handle : Nat) (mode : BitVec 16) :
    Nat → GCONTEXT :=
  changeGc s gc handle fun _ g => { g with drawmode := mode }

def client_setlinewidth (s : Server) (gc : Nat → GCONTEXT) (handle : Nat) (width : Int) :
    Nat → GCONTEXT :=
  changeGc s gc handle fun _ g => { g with linewidth := width }

def client_settextstyle (s : Server) (gc : Nat → GCONTEXT) (handle : Nat) (flags : BitVec 16) :
    Nat → GCONTEXT :=
  changeGc s gc handle fun _ g => { g with textstyle := flags &&& F_STYLEMASK }

def client_setpatterndata (s : Server) (gc : Nat → GCONTEXT) (handle : Nat) (data : Pattern) :
    Nat → GCONTEXT :=
  changeGc s gc handle fun _ g => { g with patbuf := data }

def client_setpattern (s : Server) (gc : Nat → GCONTEXT) (handle : Nat) (id : BitVec 16) :
    Nat → GCONTEXT :=
  changeGc s gc handle fun _ g => { g with patbuf := patternOf id }

def ColorUsed (C : Colors) (win : Window) (index : Int) : Prop :=
  ¬ (index < 0 ∨ index ≥ C.colorCount) ∧ TSTBIT (C.tables win.colTab).used index.toNat = true

instance (C : Colors) (win : Window) (index : Int) : Decidable (ColorUsed C win index) :=
  inferInstanceAs (Decidable (_ ∧ _))

def colorSetFGColor (C : Colors) (index : Int) (win : Window) (g : GCONTEXT) : GCONTEXT :=
  if ColorUsed C win index then { g with fgCol := index } else g

def colorSetBGColor (C : Colors) (index : Int) (win : Window) (g : GCONTEXT) : GCONTEXT :=
  if ColorUsed C win index then { g with bgCol := index } else g

def clientSetColor (setColor : Colors → Int → Window → GCONTEXT → GCONTEXT) (s : Server)
    (gc : Nat → GCONTEXT) (handle : Nat) (color : Int) : Nat → GCONTEXT :=
  changeGc s gc handle (setColor s.colors color)

variable {s : Server} {gc : Nat → GCONTEXT}

theorem changeGc_self {handle : Nat} {f : Focus}
    (hf : s.windowLookup handle = some f) (change : Window → GCONTEXT → GCONTEXT) :
    changeGc s gc handle change handle = change f.win (gc handle) := by
  obtain ⟨-, hid⟩ := Server.windowLookup_zip hf
  simp only [changeGc, hf, hid, Function.update_self]

theorem changeGc_other {handle h : Nat} (hne : h ≠ handle)
    (change : Window → GCONTEXT → GCONTEXT) : changeGc s gc handle change h = gc h := by
  unfold changeGc
  cases hf : s.windowLookup handle with
  | none => rfl
  | some f =>
    obtain ⟨-, rfl⟩ := Server.windowLookup_zip hf
    exact Function.update_of_ne hne _ _

theorem lookup_of_id (hn : s.ids.Nodup) {h : Nat} (hm : h ∈ s.ids) : ∃ f, s.windowLookup h = some f := by
  obtain ⟨w, hw, rfl⟩ := List.mem_map.mp hm
  obtain ⟨f, hf, -⟩ := lookup_of_mem hn hw
  exact ⟨f, hf⟩

end WWindowSystem
