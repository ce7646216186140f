import WWindowSystem.Library.Words
import WWindowSystem.Server.Types

namespace WWindowSystem

open Forest

def clipToContext : Context Window → List Rec × Bool → List Rec × Bool
  | [], r => r
  | .prev wp _ :: k, r =>
    if wp.is_open then
      let q := rect_list_subtract r.1 wp.pos
      clipToContext k (q.1, r.2 || q.2)
    else clipToContext k r
  | .parent wp _ :: k, r =>
    if wp.is_open then
      let q := rect_list_clip r.1 wp.work
      clipToContext k (q.1, r.2 || q.2)
    else clipToContext k r

def subtractChilds (work : Rec) : Forest Window → List Rec × Bool → List Rec × Bool
  | .nil, r => r
  | .node wp _ ns, r =>
    if !wp.is_open then subtractChilds work ns r
    else match rect_intersect wp.pos work with
      | some clipped_child =>
        let q := rect_list_subtract r.1 clipped_child
        subtractChilds work ns (q.1, r.2 || q.2)
      | none => subtractChilds work ns r

def window_build_recs (k : Context Window) (w : Window) (cs : Forest Window) : Window :=
  if !w.is_open then w
  else if (ancestors k).any (fun wp => !wp.is_open) then { w with is_hidden := true, vis_recs := [] }
  else
    let rp := rect_create w.pos.x0 w.pos.y0 w.pos.w w.pos.h
    let r := subtractChilds w.work cs (clipToContext k ([rp], false))
    { w with is_hidden := r.2, vis_recs := r.1 }

def window_rebuild_recs (recs : List Rec) (k : Context Window) (w : Window) (cs : Forest Window) :
    Window × Bool :=
  if !w.is_open then (w, false)
  else if recs.any (fun rp => (rect_intersect w.pos rp).isSome) then (window_build_recs k w cs, false)
  else (w, true)

def bitblk (bm : Pixmap) (x0 y0 width height : Int) (bm1 : Pixmap) (x1 y1 : Int) : Pixmap := fun p =>
  if x1 ≤ p.1 ∧ p.1 < x1 + width ∧ y1 ≤ p.2 ∧ p.2 < y1 + height then
    bm (p.1 - x1 + x0, p.2 - y1 + y0)
  else bm1 p

def Window.save (w : Window) (screen : Pixmap) (rp : Rec) : Pixmap :=
  match w.backing with
  | .real => bitblk screen rp.x0 rp.y0 rp.w rp.h w.bitmap (rp.x0 - w.pos.x0) (rp.y0 - w.pos.y0)
  | _ => w.bitmap

def Window.redraw (D : Driver) (w : Window) (screen : Pixmap) (rp : Rec) : Pixmap :=
  match w.backing with
  | .real => bitblk w.bitmap (rp.x0 - w.pos.x0) (rp.y0 - w.pos.y0) rp.w rp.h screen rp.x0 rp.y0
  | .dummy => bitblk (D.face w) rp.x0 rp.y0 rp.w rp.h screen rp.x0 rp.y0
  | .null => screen

def window_save_contents (screen : Pixmap) (rect : Rec) (w : Window) : Window :=
  if !w.is_open || !w.is_dirty || w.is_hidden then { w with is_dirty := false }
  else if (rect_intersect w.pos rect).isSome then
    { w with
      bitmap := w.vis_recs.foldl (fun bm rp => { w with bitmap := bm }.save screen rp) w.bitmap
      is_dirty := false }
  else w

def redrawRect (D : Driver) (w : Window) (screen : Pixmap) (rect : Rec) : Pixmap :=
  w.vis_recs.foldl (fun scr rp =>
    match rect_intersect rp rect with
    | some isect => w.redraw D scr isect
    | none => scr) screen

def window_redraw_contents_rect (D : Driver) (rects : List Rec) (screen : Pixmap) (w : Window) :
    Pixmap × Window :=
  if !w.is_open then (screen, w)
  else
    let flush := !w.is_hidden && decide (w.dirty.w > 0 ∧ w.dirty.h > 0)
    let screen := if flush then redrawRect D w screen (w.dirty.shift w.pos.x0 w.pos.y0) else screen
    let w := if flush then { w with dirty := { w.dirty with w := 0, h := 0 } } else w
    (rects.foldl (redrawRect D w) screen, w)

def window_is_hidden (w : Window) : Context Window → Bool
  | [] => false
  | .prev wp _ :: k => (wp.is_open && (rect_intersect w.pos wp.pos).isSome) || window_is_hidden w k
  | .parent wp _ :: k => !wp.is_open || !rect_cont_rect wp.work w.pos || window_is_hidden w k

def window_move_one (dx dy : Int) (w : Window) : Window :=
  if w.is_open then { w with pos := w.pos.shift dx dy, work := w.work.shift dx dy } else w

def window_move_recs (dx dy : Int) (w : Window) : Window :=
  if w.is_open then { w with vis_recs := w.vis_recs.map fun rp => rp.shift dx dy } else w

def really_open (k : Context Window) (w : Window) : Bool :=
  w.is_open && (ancestors k).all fun wp => wp.is_open

def openOnes (k : Context Window) : Forest Window → List Window
  | .nil => []
  | .node w cs ns =>
    if really_open k w then w :: (openOnes (.parent w ns :: k) cs ++ openOnes (.prev w cs :: k) ns)
    else openOnes (.prev w cs :: k) ns

def client_do_open (s : Server) (win : Window) : Server :=
  let s := if win.flags.has W_NOMOUSE then { s with mouse_disabled := short (s.mouse_disabled + 1) } else s
  let s := match win.cptr with
    | some c => s.updateClient c fun c => { c with openWindows := c.openWindows + 1 }
    | none => s
  { s with globOpenWindows := short (s.globOpenWindows + 1) }

def client_do_close (s : Server) (win : Window) : Server :=
  let s := if win.flags.has W_NOMOUSE then { s with mouse_disabled := short (s.mouse_disabled - 1) } else s
  let s := if s.glob_leftmousepressed = some win.id then { s with glob_leftmousepressed := none } else s
  let s := if s.glob_rightmousepressed = some win.id then { s with glob_rightmousepressed := none } else s
  let s := match win.cptr with
    | some c => s.updateClient c fun c => { c with openWindows := c.openWindows - 1 }
    | none => s
  { s with globOpenWindows := short (s.globOpenWindows - 1) }

def visitTree (f : Context Window → Window → Forest Window → Window × Bool) (k : Context Window)
    (w : Window) (cs ns : Forest Window) : Window × Forest Window :=
  let r := f k w cs
  (r.1, if r.2 then cs else cs.visit f (.parent r.1 ns :: k))

def scanTree (f : Pixmap → Window → Pixmap × Window) (screen : Pixmap) (w : Window)
    (cs : Forest Window) : Pixmap × Window × Forest Window :=
  let r := f screen w
  let c := cs.scan f r.1
  (c.1, r.2, c.2)

def hasParent (k : Context Window) : Bool := !(ancestors k).isEmpty

def Server.setFocus (s : Server) (f : Focus) : Server × Focus := ({ s with tree := f.zip }, f)

def openAt (x y : Int) (win : Window) : Window :=
  { win with
    work := win.work.shift (x - win.pos.x0) (y - win.pos.y0)
    pos := { win.pos with x0 := x, y0 := y, x1 := x + win.pos.w - 1, y1 := y + win.pos.h - 1 }
    is_open := true }

def window_open (D : Driver) (s : Server) (f : Focus) (x y : Int) : Int × Server × Focus :=
  if f.win.is_open then (0, s, f)
  else if !hasParent f.ctx then (-1, s, f)
  else
    let dx := x - f.win.pos.x0
    let dy := y - f.win.pos.y0
    let w := openAt x y f.win
    let save := window_save_contents s.screen w.pos
    let rebuild := window_rebuild_recs [w.pos]
    let ns := f.next.map save
    let k := onParent (fun _ p _ => save p) f.ctx (.node w f.childs ns)
    let cs := f.childs.map (window_move_one dx dy)
    let t := visitTree rebuild k w cs ns
    let ns := ns.visit rebuild (.prev t.1 t.2 :: k)
    let k := onParent (fun k p cs => (rebuild k p cs).1) k (.node t.1 t.2 ns)
    let s := (openOnes k (.node t.1 t.2 .nil)).foldl client_do_open s
    let r := scanTree (window_redraw_contents_rect D [w.pos]) s.screen t.1 t.2
    (0, { s with screen := r.1 }.setFocus ⟨k, r.2.1, r.2.2, ns⟩)

def window_close_one (screen : Pixmap) (top_win : Nat) (k : Context Window) (w : Window)
    (_ : Forest Window) : Window :=
  if !really_open k w then w
  else
    let w := { window_save_contents screen w.pos w with vis_recs := [] }
    if w.id = top_win then { w with is_open := false } else { w with is_hidden := true }

def scanParent (f : Pixmap → Window → Pixmap × Window) (screen : Pixmap) :
    Context Window → Pixmap × Context Window
  | [] => (screen, [])
  | .prev w cs :: k => let r := scanParent f screen k; (r.1, .prev w cs :: r.2)
  | .parent w ns :: k => let r := f screen w; (r.1, .parent r.2 ns :: k)

def window_close (D : Driver) (s : Server) (f : Focus) : Int × Server × Focus :=
  if !f.win.is_open then (0, s, f)
  else if !hasParent f.ctx then (-1, s, f)
  else if (ancestors f.ctx).any (fun wp => !wp.is_open) then (0, s, f)
  else
    let cs := f.childs.post (window_close_one s.screen f.win.id) (.parent f.win f.next :: f.ctx)
    let w := window_close_one s.screen f.win.id f.ctx f.win cs
    let s := (openOnes f.ctx (.node f.win f.childs .nil)).reverse.foldl client_do_close s
    let rebuild := window_rebuild_recs [w.pos]
    let ns := f.next.visit rebuild (.prev w cs :: f.ctx)
    let k := onParent (fun k p cs => (rebuild k p cs).1) f.ctx (.node w cs ns)
    let redraw := window_redraw_contents_rect D [w.pos]
    let r := ns.scan redraw s.screen
    let p := scanParent redraw r.1 k
    (0, { s with screen := p.1 }.setFocus ⟨p.2, w, cs, r.2⟩)

def client_do_delete (s : Server) (win : Window) : Server :=
  let s := if win.id = s.glob_activewindow then { s with glob_activewindow := 0 } else s
  let s := if win.id = s.glob_activetopwin then { s with glob_activetopwin := 0 } else s
  let s := { s with colors := colorFreeTable s.colors win.colTab }
  let s := match win.cptr with
    | some c => s.updateClient c fun c => { c with totalWindows := c.totalWindows - 1 }
    | none => s
  { s with globTotalWindows := short (s.globTotalWindows - 1) }

def window_delete_one (s : Server) (w : Window) : Server :=
  let s := if s.window_find_cache = some w.id then { s with window_find_cache := none } else s
  let s := client_do_delete s w
  if w.flags.has W_TOP ∧ s.topWindow = some w.id then { s with topWindow := none } else s

def postorder : Forest Window → List Window
  | .nil => []
  | .node w cs ns => postorder cs ++ w :: postorder ns

def window_delete (D : Driver) (s : Server) (f : Focus) : Int × Server :=
  if !hasParent f.ctx then (-1, s)
  else
    let r := if f.win.is_open then (window_close D s f).2 else (s, f)
    let s := (postorder (.node r.2.win r.2.childs .nil)).foldl window_delete_one r.1
    (0, { s with tree := zip r.2.ctx r.2.next })

def window_move (D : Driver) (s : Server) (f : Focus) (x y : Int) : Int × Server × Focus :=
  if !f.win.is_open || !hasParent f.ctx then (-1, s, f)
  else if x = f.win.pos.x0 ∧ y = f.win.pos.y0 then (0, s, f)
  else
    let is_hidden := window_is_hidden f.win f.ctx
    let oldpos := f.win.pos
    let dx := x - oldpos.x0
    let dy := y - oldpos.y0
    let save := window_save_contents s.screen oldpos
    let newpos := oldpos.shift dx dy
    let saveNew := window_save_contents s.screen newpos
    let ns := f.next.map saveNew
    let k := onParent (fun _ p _ => saveNew p) f.ctx (.node f.win f.childs ns)
    let w := window_move_one dx dy (save f.win)
    let cs := (f.childs.map save).map (window_move_one dx dy)
    let is_hidden := is_hidden || window_is_hidden w k
    let rebuild := window_rebuild_recs [oldpos, w.pos]
    let t := if is_hidden then visitTree rebuild k w cs ns
      else (window_move_recs dx dy w, cs.map (window_move_recs dx dy))
    let ns := ns.visit rebuild (.prev t.1 t.2 :: k)
    let k := onParent (fun k p cs => (rebuild k p cs).1) k (.node t.1 t.2 ns)
    let r := if is_hidden then scanTree (window_redraw_contents_rect D [w.pos]) s.screen t.1 t.2
      else (bitblk s.screen oldpos.x0 oldpos.y0 oldpos.w oldpos.h s.screen w.pos.x0 w.pos.y0, t)
    let redraw := window_redraw_contents_rect D [oldpos]
    let n := ns.scan redraw r.1
    let p := scanParent redraw n.1 k
    (0, { s with screen := p.1 }.setFocus ⟨p.2, r.2.1, r.2.2, n.2⟩)

def detach : Context Window → Forest Window → Forest Window × Context Window
  | .prev w cs :: k, t => detach k (.node w cs t)
  | k, t => (t, k)

-- `window_restack (w, w->parent->childs, 1)`: `w` moves up over all its left siblings.
def window_to_top (D : Driver) (s : Server) (f : Focus) : Int × Server × Focus :=
  if !hasParent f.ctx then (-1, s, f)
  else match f.ctx with
  | .prev _ _ :: _ =>
    let d := detach f.ctx .nil
    let k := d.2
    if !f.win.is_open then (0, s.setFocus ⟨k, f.win, f.childs, d.1.append f.next⟩)
    else
      let save := window_save_contents s.screen f.win.pos
      let rebuild := window_rebuild_recs [f.win.pos]
      let w := save f.win
      let cs := f.childs.map save
      let mid := (d.1.map save).visit rebuild (.prev w cs :: k)
      let t := visitTree rebuild k w cs (mid.append f.next)
      let r := scanTree (window_redraw_contents_rect D [w.pos]) s.screen t.1 t.2
      (0, { s with screen := r.1 }.setFocus ⟨k, r.2.1, r.2.2, mid.append f.next⟩)
  | _ => (0, s, f)

-- `window_restack (w, last sibling, 0)`: `w` moves down below all its right siblings.
def window_to_bottom (D : Driver) (s : Server) (f : Focus) : Int × Server × Focus :=
  match f.next with
  | .nil => (0, s, f)
  | next =>
    if !hasParent f.ctx then (-1, s, f)
    else if !f.win.is_open then (0, s.setFocus ⟨past f.ctx next, f.win, f.childs, .nil⟩)
    else
      let save := window_save_contents s.screen f.win.pos
      let rebuild := window_rebuild_recs [f.win.pos]
      let w := save f.win
      let ns := next.visit rebuild f.ctx
      let t := visitTree rebuild (past f.ctx ns) w (f.childs.map save) .nil
      let n := ns.scan (window_redraw_contents_rect D [w.pos]) s.screen
      (0, { s with screen := n.1 }.setFocus ⟨past f.ctx n.2, t.1, t.2, .nil⟩)

def findBelow (x y : Int) (found : Option Window) : Forest Window → Option Window
  | .nil => found
  | .node wp cs ns =>
    if wp.is_open && rect_cont_point wp.pos x y then
      if !rect_cont_point wp.work x y then some wp else findBelow x y (some wp) cs
    else findBelow x y found ns

def rectToFront (x y : Int) (l : List Rec) : Option (List Rec) :=
  (l.find? fun rp => rect_cont_point rp x y).map fun rp =>
    rp :: l.eraseP fun rp => rect_cont_point rp x y

def findCached (s : Server) (x y : Int) : Option (Nat × Server) := do
  let id ← s.window_find_cache
  let f ← s.windowLookup id
  if !f.win.is_open then none
  else
    let recs ← rectToFront x y f.win.vis_recs
    some (id, { s with tree := { f with win := { f.win with vis_recs := recs } }.zip })

def window_find (s : Server) (x y : Int) (usecache : Bool) : Option Nat × Server :=
  match (if usecache then findCached s x y else none) with
  | some r => (some r.1, r.2)
  | none =>
    let found := (findBelow x y none s.tree).map Window.id
    (found, if usecache then { s with window_find_cache := found } else s)

def redrawIfDirty (D : Driver) (screen : Pixmap) (win : Window) : Pixmap × Window :=
  if win.dirty.w ≠ 0 then
    let r := window_redraw_contents_rect D [win.dirty.shift win.pos.x0 win.pos.y0] screen win
    (r.1, { r.2 with dirty := { r.2.dirty with w := 0 } })
  else (screen, win)

def windowRedrawAllIfDirty (D : Driver) (s : Server) : Server :=
  let r := s.tree.scan (redrawIfDirty D) s.screen
  { s with screen := r.1, tree := r.2 }

structure Display where
  width : Nat
  height : Nat
  width_pos : 0 < width
  height_pos : 0 < height

def Display.area (d : Display) : Rec :=
  { w := d.width, h := d.height, x1 := d.width - 1, y1 := d.height - 1 }

def glob_rootwindow (d : Display) : Window :=
  { id := 1, is_open := true, is_hidden := true, pos := d.area, work := d.area
    area := { work := d.area }, backing := .null }

def glob_backgroundwindow (d : Display) (screen : Pixmap) : Window :=
  { id := 0, is_open := true, vis_recs := [rect_create 0 0 d.width d.height], pos := d.area
    work := d.area, area := { work := d.area }
    bitmap := bitblk screen 0 0 d.width d.height (fun _ => 0) 0 0 }

def window_init (d : Display) (screen : Pixmap) (colors : Colors) : Server :=
  { tree := .node (glob_rootwindow d) (.node (glob_backgroundwindow d screen) .nil .nil) .nil
    screen, colors }

def newid (ids : List Nat) : Nat → Nat → Option Nat
  | 0, _ => none
  | fuel + 1, winid => if winid ∈ ids then newid ids fuel ((winid + 1) % 65536) else some winid

def window_newid (s : Server) : Option (Nat × Server) :=
  (newid (s.tree.toList.map Window.id) 65536 s.winid).map fun id =>
    (id, { s with winid := (id + 1) % 65536 })

def window_create (s : Server) (parent : Focus) (flags : Flags) : Option (Option Focus × Server) :=
  if flags.has W_TOP && s.topWindow.isSome then some (none, s)
  else (window_newid s).map fun r =>
    let w : Window :=
      { id := r.1, flags, backing := if flags.has W_CONTAINER then .dummy else .real }
    let f : Focus := ⟨.parent parent.win parent.next :: parent.ctx, w, .nil, parent.childs⟩
    let s := if flags.has W_TOP then { r.2 with topWindow := some r.1 } else r.2
    (some f, { s with tree := f.zip })

end WWindowSystem
