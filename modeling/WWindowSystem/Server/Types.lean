import WWindowSystem.Library.Forest
import WWindowSystem.Server.Color
import WWindowSystem.Server.Rect

namespace WWindowSystem

abbrev Flags := BitVec 16

def W_MOVE : Flags := 0x0001
def W_TOP : Flags := 0x0002
def W_TITLE : Flags := 0x0004
def W_NOBORDER : Flags := 0x0020
def W_NOMOUSE : Flags := 0x0040
def W_CLOSE : Flags := 0x0100
def W_ICON : Flags := 0x0200
def W_CONTAINER : Flags := 0x0400
def W_RESIZE : Flags := 0x0800
def W_FLAGMASK : Flags := 0x3fff

def Flags.has (flags mask : Flags) : Bool := flags &&& mask != 0#16

def BORDERWIDTH : Int := 4
def UNDEF : Int := -32768

abbrev Pixmap := Point → Nat

/-- The `save` and `redraw` functions of a window; the root window has none. -/
inductive Backing where
  | null | dummy | real
  deriving DecidableEq

structure Areas where
  work : Rec := {}
  close : Rec := {}
  icon : Rec := {}
  title : Rec := {}

/-- A window. Pointers to windows are window ids, `colTab` is the address of a color table and
`font` the slot that `gc.font` points to. -/
structure Window where
  id : Nat
  cptr : Option Nat := none
  flags : Flags := 0
  is_open : Bool := false
  is_hidden : Bool := false
  is_dirty : Bool := false
  has_frame : Bool := false
  has_title : Bool := false
  vis_recs : List Rec := []
  pos : Rec := {}
  work : Rec := {}
  area : Areas := {}
  backing : Backing := .real
  bitmap : Pixmap := fun _ => 0
  dirty : Rec := {}
  font : Option Nat := none
  colTab : Nat := 0

structure Client where
  id : Nat
  raddr : Nat := 0
  uid : Nat := 0
  font : List Nat := []
  openWindows : Int := 0
  totalWindows : Int := 0
  deriving DecidableEq

structure Font where
  name : String := ""
  numused : Int := 0

structure Server where
  tree : Forest Window
  screen : Pixmap
  colors : Colors
  winid : Nat := 0
  topWindow : Option Nat := none
  window_find_cache : Option Nat := none
  glob_activewindow : Nat := 0
  glob_activetopwin : Nat := 0
  glob_leftmousepressed : Option Nat := none
  glob_rightmousepressed : Option Nat := none
  mouse_disabled : Int := 0
  globOpenWindows : Int := 0
  globTotalWindows : Int := 0
  glob_uid : Nat := 0
  clients : List Client := []
  glob_font : Nat → Font := fun _ => {}

structure Driver where
  /-- What `dummy_window_redraw` paints, in screen coordinates. -/
  face : Window → Pixmap
  /-- The pixels that `windowDrawFrame` sets, window relative. -/
  frame : Window → Bool → List (Point × Nat)
  /-- The bitmap after `client_open` has drawn gadgets and title into it. -/
  gadgets : Window → Pixmap
  titleHeight : Nat

structure Focus where
  ctx : Context Window
  win : Window
  childs : Forest Window
  next : Forest Window

def Focus.zip (f : Focus) : Forest Window := Forest.zip f.ctx (.node f.win f.childs f.next)

theorem focus_perm (f : Focus) : f.zip.toList.Perm
      (f.win :: ((f.childs.toList ++ f.next.toList) ++ Forest.around f.ctx)) :=
  Forest.toList_zip _ _

def Server.windowLookup (s : Server) (id : Nat) : Option Focus :=
  (s.tree.locate (fun w => w.id = id) []).map fun r => ⟨r.1, r.2.1, r.2.2.1, r.2.2.2⟩

theorem Server.windowLookup_zip {s : Server} {id : Nat} {f : Focus}
    (h : s.windowLookup id = some f) : f.zip = s.tree ∧ f.win.id = id := by
  obtain ⟨⟨k, w, cs, ns⟩, hr, rfl⟩ := Option.map_eq_some_iff.mp h
  obtain ⟨hz, hp⟩ := Forest.locate_zip _ _ _ hr
  exact ⟨hz, by simpa using hp⟩

def Server.updateClient (s : Server) (cid : Nat) (f : Client → Client) : Server :=
  { s with clients := s.clients.map fun c => if c.id = cid then f c else c }

end WWindowSystem
