import WWindowSystem.Server.Window

namespace WWindowSystem

open Forest

def createBitmap (D : Driver) (win : Window) (wwidth wheight x y : Int) : Window :=
  let border : Int := if win.flags.has W_NOBORDER then 0 else BORDERWIDTH
  let theight : Int := if win.flags.has W_TITLE then D.titleHeight else 0
  let bar : Int := if win.flags.has W_TITLE then 4 + theight else 0
  let ewidth := wwidth + 2 * border
  let eheight := wheight + 2 * border + bar
  let area : Rec :=
    { x0 := border, y0 := border + bar, w := wwidth, h := wheight
      x1 := border + wwidth - 1, y1 := border + bar + wheight - 1 }
  let gadget (ax awidth : Int) : Rec :=
    { x0 := ax, y0 := BORDERWIDTH, w := awidth, h := theight
      x1 := ax + awidth - 1, y1 := BORDERWIDTH + theight - 1 }
  let ax : Int := if win.flags.has W_TITLE then BORDERWIDTH else 0
  let awidth : Int := if win.flags.has W_TITLE then wwidth else 0
  let close := if win.flags.has W_CLOSE then gadget ax (min theight awidth) else win.area.close
  let step : Int := if win.flags.has W_CLOSE then close.w + BORDERWIDTH else 0
  let ax := ax + step
  let awidth := awidth - step
  let icon := if win.flags.has W_ICON then gadget ax (min theight awidth) else win.area.icon
  let step : Int := if win.flags.has W_ICON then icon.w + BORDERWIDTH else 0
  let title := if win.flags.has W_TITLE then gadget (ax + step) (awidth - step) else win.area.title
  { win with
    pos := { x0 := x, y0 := y, w := ewidth, h := eheight, x1 := x + ewidth - 1, y1 := y + eheight - 1 }
    area := { work := area, close, icon, title }
    work := area.shift x y
    bitmap := fun _ => 0
    has_frame := false
    has_title := false }

def windowFlags (flags : Flags) : Flags :=
  let flags := flags &&& W_FLAGMASK
  let flags := if flags.has W_TITLE then flags ||| W_CLOSE else flags &&& ~~~(W_CLOSE ||| W_ICON)
  if flags.has W_NOBORDER then flags &&& ~~~(W_CLOSE ||| W_ICON ||| W_RESIZE ||| W_TITLE) else flags

def createWindow (D : Driver) (s : Server) (cptr : Client) (wwidth wheight : Int) (flags : Flags)
    (parent : Focus) : Option (Int × Server) :=
  if flags.has W_TOP && (cptr.raddr ≠ 0 || cptr.uid ≠ s.glob_uid) then some (0, s)
  else (window_create s parent (windowFlags flags)).map fun r =>
    match r.1 with
    | none => (0, r.2)
    | some f =>
      let s := r.2
      let win := createBitmap D f.win wwidth wheight 0 0
      let tab := colorCopyVirtualTable s.colors parent.win.id parent.win.colTab
      let win := { win with cptr := some cptr.id, colTab := tab.2 }
      let s := { s with colors := tab.1, tree := { f with win := win }.zip }
      let s := s.updateClient cptr.id fun c => { c with totalWindows := c.totalWindows + 1 }
      (win.id, { s with globTotalWindows := short (s.globTotalWindows + 1) })

def plotAll (l : List (Point × Nat)) (dx dy : Int) (bm : Pixmap) : Pixmap :=
  l.foldl (fun bm q => Function.update bm (q.1.1 + dx, q.1.2 + dy) q.2) bm

def drawActive (D : Driver) (dashed : Bool) (s : Server) (f : Focus) : Server :=
  let win := f.win
  if win.id = 0 ∨ !win.is_open ∨ win.flags.has W_NOBORDER then s
  else if win.flags.has W_CONTAINER then
    (s.setFocus { f with
      win := { win with dirty := rectUpdateDirty win.dirty 0 0 win.pos.w win.pos.h } }).1
  else if win.is_hidden then
    (s.setFocus { f with
      win := { win with
        bitmap := plotAll (D.frame win dashed) 0 0 win.bitmap
        dirty := rectUpdateDirty win.dirty 1 1 (win.pos.w - 2) (win.pos.h - 2) } }).1
  else
    ({ s with screen := plotAll (D.frame win dashed) win.pos.x0 win.pos.y0 s.screen }.setFocus
      { f with win := { win with is_dirty := true } }).1

def drawHandle (D : Driver) (dashed : Bool) (s : Server) (handle : Nat) : Server :=
  match s.windowLookup handle with
  | some g => drawActive D dashed s g
  | none => s

def toplevel (win : Window) : List Window → Window
  | [] => win
  | p :: rest => if win.id = 0 ∨ p.id = 0 ∨ win.flags.has W_TOP then win else toplevel p rest

def w_changeActiveWindow (D : Driver) (s : Server) (mx my : Int) : Server :=
  let r := window_find s mx my true
  match r.1.bind r.2.windowLookup with
  | none => r.2
  | some f =>
    let top := toplevel f.win (ancestors f.ctx)
    let s := { r.2 with glob_activewindow := f.win.id }
    if s.glob_activetopwin = top.id then s
    else
      let s := drawHandle D true s s.glob_activetopwin
      drawHandle D false { s with glob_activetopwin := top.id } top.id

def client_close (D : Driver) (s : Server) (handle : Nat) (mouse : Point) : Int × Server :=
  if handle < 2 then (-1, s)
  else match s.windowLookup handle with
  | none => (-9999, s)
  | some f =>
    if !f.win.is_open then (-1, s)
    else (0, w_changeActiveWindow D (window_close D s f).2.1 mouse.1 mouse.2)

def get_rectangle_done (s : Server) : Server :=
  { s with glob_leftmousepressed := none, glob_rightmousepressed := none }

theorem get_rectangle_frame (c : Prop) [Decidable c] (s : Server) :
    ∃ left right, (if c then get_rectangle_done s else s) =
      { s with glob_leftmousepressed := left, glob_rightmousepressed := right } := by
  split_ifs
  · exact ⟨_, _, rfl⟩
  · exact ⟨_, _, rfl⟩

theorem get_rectangle_tree (c : Prop) [Decidable c] (s : Server) :
    (if c then get_rectangle_done s else s).tree = s.tree := by
  split_ifs <;> rfl

def client_open (D : Driver) (s : Server) (handle : Nat) (x0 y0 : Int) (placed : Option Point)
    (mouse : Point) : Int × Server :=
  match s.windowLookup handle with
  | none => (-9999, s)
  | some f =>
    if f.win.is_open then (1, s)
    else
      let title := f.win.flags.has W_TITLE
      let win :=
        if f.win.flags.has W_CONTAINER then f.win
        else { f.win with
          bitmap := if !f.win.has_frame || !f.win.has_title && title then D.gadgets f.win
            else f.win.bitmap
          has_frame := true
          has_title := f.win.has_title || title }
      let s := s.setFocus { f with win }
      let target :=
        if x0 = UNDEF ∨ y0 = UNDEF then placed
        else (ancestors f.ctx).head?.map fun parent =>
          (short (x0 + parent.work.x0), short (y0 + parent.work.y0))
      match target with
      | none => (-1, s.1)
      | some p =>
        let u := if x0 = UNDEF ∨ y0 = UNDEF then get_rectangle_done s.1 else s.1
        let r := window_open D u s.2 p.1 p.2
        if r.1 < 0 then (-1, r.2.1)
        else (0, w_changeActiveWindow D (drawActive D true r.2.1 r.2.2) mouse.1 mouse.2)

def resizeBitmap (D : Driver) (win : Window) (width height : Int) : Window :=
  let new := createBitmap D win width height win.pos.x0 win.pos.y0
  if win.flags.has W_CONTAINER then new
  else { new with
    bitmap := bitblk win.bitmap win.area.work.x0 win.area.work.y0
      (min win.area.work.w new.area.work.w) (min win.area.work.h new.area.work.h)
      new.bitmap new.area.work.x0 new.area.work.y0 }

def resizeWindow (D : Driver) (s : Server) (handle : Nat) (width height : Int) : Server :=
  match s.windowLookup handle with
  | none => s
  | some f => (s.setFocus { f with win := resizeBitmap D f.win width height }).1

def client_resize (D : Driver) (s : Server) (handle : Nat) (width height : Int)
    (placed : Option Point) (mouse : Point) : Int × Server :=
  match s.windowLookup handle with
  | none => (-9999, s)
  | some f =>
    match (ancestors f.ctx).head? with
    -- The root window has no parent, the source would follow a null pointer.
    | none => (-1, s)
    | some parent =>
      let x0 := short (f.win.pos.x0 - parent.work.x0)
      let y0 := short (f.win.pos.y0 - parent.work.y0)
      let c := client_close D s f.win.id mouse
      let s := resizeWindow D c.2 handle width height
      if c.1 = 0 then (0, (client_open D s handle x0 y0 placed mouse).2) else (0, s)

def client_delete (D : Driver) (s : Server) (handle : Nat) (mouse : Point) : Int × Server :=
  if handle < 2 then (-1, s)
  else match s.windowLookup handle with
  | none => (-9999, s)
  | some f =>
    if f.win.cptr.isNone then (-1, s)
    else
      let s := if f.win.is_open then (client_close D s handle mouse).2 else s
      match s.windowLookup handle with
      | none => (0, s)
      | some f => (0, (window_delete D s f).2)

end WWindowSystem
