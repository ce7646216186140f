import WWindowSystem.Library.Paths
import WWindowSystem.Server.Root

namespace WWindowSystem

open Forest

structure WindowState where
  id : Nat
  cptr : Option Nat
  flags : Flags
  is_open : Bool
  pos : Rec
  work : Rec

def Window.state (w : Window) : WindowState := ⟨w.id, w.cptr, w.flags, w.is_open, w.pos, w.work⟩

def WindowState.move (dx dy : Int) (q : WindowState) : WindowState :=
  if q.is_open then { q with pos := q.pos.shift dx dy, work := q.work.shift dx dy } else q

def WindowState.openAt (x y : Int) (q : WindowState) : WindowState :=
  { q with
    work := q.work.shift (x - q.pos.x0) (y - q.pos.y0)
    pos := { q.pos with x0 := x, y0 := y, x1 := x + q.pos.w - 1, y1 := y + q.pos.h - 1 }
    is_open := true }

def WindowState.close (q : WindowState) : WindowState := { q with is_open := false }

theorem state_of_fixed {t u : Forest Window} (h : t.map Window.fixed = u.map Window.fixed) :
    t.map Window.state = u.map Window.state := by
  have := congrArg (Forest.map fun q : ((Bool × Rec × Rec) × Bool × List Rec) × Nat × Option Nat × Flags ×
    Backing × Option Nat × Nat => WindowState.mk q.2.1 q.2.2.1 q.2.2.2.1 q.1.1.1 q.1.1.2.1 q.1.1.2.2) h
  rw [map_map, map_map] at this
  exact this

variable (screen : Pixmap)

@[simp] theorem window_save_contents_state (rect : Rec) (w : Window) :
    (window_save_contents screen rect w).state = w.state := by
  unfold window_save_contents
  split_ifs <;> rfl

variable (D : Driver)

@[simp] theorem window_redraw_state (rects : List Rec) (screen : Pixmap) (w : Window) :
    (window_redraw_contents_rect D rects screen w).2.state = w.state := by
  unfold window_redraw_contents_rect
  split_ifs
  · rfl
  · dsimp only
    split_ifs <;> rfl

variable (recs : List Rec)

@[simp] theorem window_rebuild_recs_state (k : Context Window) (w : Window)
    (cs : Forest Window) : (window_rebuild_recs recs k w cs).1.state = w.state := by
  unfold window_rebuild_recs window_build_recs
  split_ifs <;> rfl

@[simp] theorem window_move_recs_state (dx dy : Int) (w : Window) : (window_move_recs dx dy w).state = w.state := by
  unfold window_move_recs
  split_ifs <;> rfl

@[simp] theorem window_move_one_state (dx dy : Int) (w : Window) :
    (window_move_one dx dy w).state = w.state.move dx dy := by
  unfold window_move_one WindowState.move
  by_cases h : w.is_open = true
  · rw [if_pos h, if_pos (show w.state.is_open = true from h)]
    rfl
  · rw [if_neg h, if_neg (show ¬ w.state.is_open = true from h)]

@[simp] theorem map_move_one_state (dx dy : Int) (t : Forest Window) :
    (t.map (window_move_one dx dy)).map Window.state = (t.map Window.state).map (WindowState.move dx dy) := by
  rw [map_map, map_map]
  exact map_congr (window_move_one_state dx dy) t

@[simp] theorem openAt_state (x y : Int) (w : Window) : (openAt x y w).state = w.state.openAt x y := rfl

@[simp] theorem map_save_state (rect : Rec) (t : Forest Window) :
    (t.map (window_save_contents screen rect)).map Window.state = t.map Window.state := by
  rw [map_map]
  exact map_congr (window_save_contents_state screen rect) t

@[simp] theorem map_move_recs_state (dx dy : Int) (t : Forest Window) :
    (t.map (window_move_recs dx dy)).map Window.state = t.map Window.state := by
  rw [map_map]
  exact map_congr (window_move_recs_state dx dy) t

@[simp] theorem visit_rebuild_state (k : Context Window) (t : Forest Window) :
    (t.visit (window_rebuild_recs recs) k).map Window.state = t.map Window.state :=
  map_visit (window_rebuild_recs_state recs) k t

@[simp] theorem scan_redraw_state (rects : List Rec) (screen : Pixmap) (t : Forest Window) :
    (t.scan (window_redraw_contents_rect D rects) screen).2.map Window.state = t.map Window.state :=
  map_scan (window_redraw_state D rects) screen t

@[simp] theorem onParent_save_state (rect : Rec) (k : Context Window) (t : Forest Window) :
    mapCtx Window.state (onParent (fun _ p _ => window_save_contents screen rect p) k t) = mapCtx Window.state k :=
  mapCtx_onParent (fun _ w _ => window_save_contents_state screen rect w) k t

@[simp] theorem onParent_rebuild_state (k : Context Window) (t : Forest Window) :
    mapCtx Window.state (onParent (fun k p cs => (window_rebuild_recs recs k p cs).1) k t) = mapCtx Window.state k :=
  mapCtx_onParent (window_rebuild_recs_state recs) k t

@[simp] theorem scanParent_redraw_state (rects : List Rec) (screen : Pixmap) (k : Context Window) :
    mapCtx Window.state (scanParent (window_redraw_contents_rect D rects) screen k).2 = mapCtx Window.state k := by
  induction k generalizing screen with
  | nil => rfl
  | cons c k ih => cases c <;> simp only [scanParent, mapCtx, ih, window_redraw_state]

@[simp] theorem visitTree_state (k : Context Window) (w : Window) (cs ns : Forest Window) :
    (visitTree (window_rebuild_recs recs) k w cs ns).1.state = w.state :=
  window_rebuild_recs_state recs k w cs

@[simp] theorem visitTree_childs_state (k : Context Window) (w : Window) (cs ns : Forest Window) :
    (visitTree (window_rebuild_recs recs) k w cs ns).2.map Window.state = cs.map Window.state := by
  unfold visitTree
  dsimp only
  split_ifs
  · rfl
  · exact visit_rebuild_state _ _ _

@[simp] theorem scanTree_state (rects : List Rec) (screen : Pixmap) (w : Window) (cs : Forest Window) :
    (scanTree (window_redraw_contents_rect D rects) screen w cs).2.1.state = w.state :=
  window_redraw_state D rects screen w

@[simp] theorem scanTree_childs_state (rects : List Rec) (screen : Pixmap) (w : Window)
    (cs : Forest Window) : (scanTree (window_redraw_contents_rect D rects) screen w cs).2.2.map Window.state =
      cs.map Window.state :=
  scan_redraw_state D rects _ cs

def Focus.openedAt (f : Focus) (x y : Int) : Forest WindowState :=
  Forest.zip (mapCtx Window.state f.ctx) (.node (f.win.state.openAt x y)
    ((f.childs.map Window.state).map (WindowState.move (x - f.win.pos.x0) (y - f.win.pos.y0)))
    (f.next.map Window.state))

def Focus.closed (f : Focus) : Forest WindowState :=
  Forest.zip (mapCtx Window.state f.ctx) (.node f.win.state.close (f.childs.map Window.state)
    (f.next.map Window.state))

def Focus.movedTo (f : Focus) (x y : Int) : Forest WindowState :=
  let move := WindowState.move (x - f.win.pos.x0) (y - f.win.pos.y0)
  Forest.zip (mapCtx Window.state f.ctx) (.node (move f.win.state) ((f.childs.map Window.state).map move)
    (f.next.map Window.state))

variable {f : Focus}

theorem window_open_state (s : Server) (x y : Int)
    (ho : f.win.is_open = false) (hk : hasParent f.ctx = true) :
    (window_open D s f x y).2.1.tree.map Window.state = f.openedAt x y := by
  unfold window_open
  simp only [ho, hk, Bool.false_eq_true, Bool.not_true, if_false]
  simp [Server.setFocus, Focus.zip, Focus.openedAt, map_zip, Forest.map]

theorem window_close_one_state {top_win : Nat} {w : Window} (h : w.id ≠ top_win)
    (k : Context Window) (cs : Forest Window) : (window_close_one screen top_win k w cs).state = w.state := by
  have hs := window_save_contents_state screen w.pos w
  have hid : (window_save_contents screen w.pos w).id = w.id := congrArg WindowState.id hs
  have hne : ¬ (window_save_contents screen w.pos w).id = top_win := by rwa [hid]
  unfold window_close_one
  dsimp only
  rw [if_neg hne]
  split_ifs
  · rfl
  · exact hs

variable {s : Server}

theorem childs_id (hn : s.ids.Nodup) (hf : f.zip = s.tree) :
    ∀ w ∈ f.childs.toList, w.id ≠ f.win.id := by
  have hp := (focus_perm f).map Window.id
  rw [hf] at hp
  have hd := hp.nodup_iff.mp hn
  rw [List.map_cons, List.nodup_cons] at hd
  intro w hw he
  apply hd.1
  rw [← he]
  apply List.mem_map_of_mem
  rw [List.append_assoc]
  exact List.mem_append_left _ hw

theorem window_close_state (hn : s.ids.Nodup)
    (hf : f.zip = s.tree) (ho : f.win.is_open = true) (hk : hasParent f.ctx = true)
    (ha : (ancestors f.ctx).all (fun wp => wp.is_open) = true) :
    (window_close D s f).2.1.tree.map Window.state = f.closed := by
  have hr : really_open f.ctx f.win = true := by rw [really_open, ho, ha, Bool.and_true]
  have hany : (ancestors f.ctx).any (fun wp => !wp.is_open) = false := by
    rw [List.any_eq_false]
    intro a h
    simpa using List.all_eq_true.mp ha a h
  have hcs := fun k => map_post_of_mem (g := Window.state)
    (fun w hw => window_close_one_state s.screen (childs_id hn hf w hw)) k
  have hw : Window.state
      { window_save_contents s.screen f.win.pos f.win with vis_recs := [], is_open := false } =
        f.win.state.close :=
    congrArg WindowState.close (window_save_contents_state s.screen f.win.pos f.win)
  unfold window_close
  simp only [ho, hk, hany, Bool.not_true, Bool.false_eq_true, if_false, Server.setFocus, Focus.zip,
    window_close_one_top hr, map_zip, Forest.map, scanParent_redraw_state, onParent_rebuild_state,
    scan_redraw_state, visit_rebuild_state, hcs, hw, Focus.closed]

theorem window_close_pseudo (s : Server)
    (ha : (ancestors f.ctx).all (fun wp => wp.is_open) = false) : (window_close D s f).2 = (s, f) := by
  have hany : (ancestors f.ctx).any (fun wp => !wp.is_open) = true := by
    rw [List.any_eq_not_all_not]
    simp only [Bool.not_not, ha, Bool.not_false]
  unfold window_close
  simp only [hany, if_true]
  split_ifs <;> rfl

theorem window_move_state (s : Server) {x y : Int}
    (ho : f.win.is_open = true) (hk : hasParent f.ctx = true) (hp : ¬ (x = f.win.pos.x0 ∧ y = f.win.pos.y0)) :
    (window_move D s f x y).2.1.tree.map Window.state = f.movedTo x y := by
  unfold window_move
  simp only [ho, hk, hp, Bool.not_true, Bool.or_self, Bool.false_eq_true, if_false]
  simp only [Server.setFocus, Focus.zip, Focus.movedTo]
  split_ifs <;> simp [map_zip, Forest.map]

def statePaths (t : Forest Window) : List (WindowState × List WindowState) :=
  paths [] (t.map Window.state)

theorem window_to_top_paths (hf : f.zip = s.tree) :
    (statePaths (window_to_top D s f).2.1.tree).Perm (statePaths s.tree) := by
  obtain ⟨l, hl, hd⟩ := detach_past f.ctx .nil
  rw [append_nil] at hd
  have hs : s.tree = zip (detach f.ctx .nil).2 (l.append (.node f.win f.childs f.next)) := by
    rw [← zip_past, hl]
    exact hf.symm
  unfold window_to_top
  split_ifs
  · rfl
  · split
    · rw [hs, statePaths, statePaths]
      simp only [Server.setFocus, Focus.zip, hd, map_zip, map_append, Forest.map]
      exact paths_restack _ _ _ _ _
    · rfl
  · split
    · rw [hs, statePaths, statePaths]
      simp only [Server.setFocus, Focus.zip, hd, map_zip, map_append, Forest.map, scanTree_state,
        scanTree_childs_state, visitTree_state, visitTree_childs_state, visit_rebuild_state,
        map_save_state, window_save_contents_state]
      exact paths_restack _ _ _ _ _
    · rfl

theorem window_to_bottom_paths (hf : f.zip = s.tree) :
    (statePaths (window_to_bottom D s f).2.1.tree).Perm (statePaths s.tree) := by
  have hp := paths_restack (mapCtx Window.state f.ctx) f.win.state (f.childs.map Window.state)
    (f.next.map Window.state) .nil
  rw [append_nil] at hp
  unfold window_to_bottom
  split
  · rfl
  · split_ifs
    · rfl
    · rw [← hf, statePaths, statePaths]
      simp only [Server.setFocus, Focus.zip, zip_past, map_zip, map_append, Forest.map]
      exact hp.symm
    · rw [← hf, statePaths, statePaths]
      simp only [Server.setFocus, Focus.zip, zip_past, map_zip, map_append, Forest.map,
        scan_redraw_state, visitTree_state, visitTree_childs_state, visit_rebuild_state,
        map_save_state, window_save_contents_state]
      exact hp.symm

theorem drawActive_state (dashed : Bool) (s : Server) (f : Focus) (hf : f.zip = s.tree) :
    (drawActive D dashed s f).tree.map Window.state = s.tree.map Window.state :=
  state_of_fixed (drawActive_fixed D dashed s f hf)

theorem w_changeActiveWindow_state (s : Server) (mx my : Int) :
    (w_changeActiveWindow D s mx my).tree.map Window.state = s.tree.map Window.state := by
  obtain ⟨v, hv, hu⟩ := w_changeActiveWindow_redrawn D s mx my
  exact (state_of_fixed hu).trans (hv.map fun _ _ => rfl)

end WWindowSystem
