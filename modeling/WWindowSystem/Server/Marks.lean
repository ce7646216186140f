import WWindowSystem.Server.ClientStates

namespace WWindowSystem

open Forest

structure Mark where
  id : Nat
  cptr : Option Nat
  flags : Flags
  is_open : Bool

def WindowState.mark (q : WindowState) : Mark := ⟨q.id, q.cptr, q.flags, q.is_open⟩

def Window.mark (w : Window) : Mark := w.state.mark

theorem mark_of_state {t : Forest Window} {u : Forest WindowState} (h : t.map Window.state = u) :
    t.map Window.mark = u.map WindowState.mark := by
  rw [← h, map_map]
  rfl

variable {t u : Forest Window}

theorem marks_of_state (h : t.map Window.state = u.map Window.state) :
    t.map Window.mark = u.map Window.mark := by
  rw [mark_of_state h, map_map]
  rfl

variable (k : Context Window)

theorem mapCtx_mark : mapCtx WindowState.mark (mapCtx Window.state k) = mapCtx Window.mark k := by
  rw [mapCtx_mapCtx]
  rfl

theorem map_mark (t : Forest Window) : (t.map Window.state).map WindowState.mark = t.map Window.mark := by
  rw [map_map]
  rfl

theorem move_mark (dx dy : Int) (q : WindowState) : (q.move dx dy).mark = q.mark := by
  unfold WindowState.move
  split_ifs <;> rfl

theorem map_move_mark (dx dy : Int) (t : Forest WindowState) :
    (t.map (WindowState.move dx dy)).map WindowState.mark = t.map WindowState.mark := by
  rw [map_map]
  exact map_congr (move_mark dx dy) t

def Focus.marked (f : Focus) (is_open : Bool) : Forest Mark :=
  Forest.zip (mapCtx Window.mark f.ctx) (.node { f.win.mark with is_open } (f.childs.map Window.mark)
    (f.next.map Window.mark))

variable {f : Focus}

theorem focus_mark {s : Server} (hf : f.zip = s.tree) :
    s.tree.map Window.mark = f.marked f.win.is_open := by
  rw [← hf, Focus.zip, map_zip]
  rfl

theorem opened_mark (f : Focus) (x y : Int) : (f.openedAt x y).map WindowState.mark = f.marked true := by
  rw [Focus.openedAt, map_zip, Forest.map, map_move_mark, mapCtx_mark, map_mark, map_mark]
  rfl

theorem closed_mark (f : Focus) : f.closed.map WindowState.mark = f.marked false := by
  rw [Focus.closed, map_zip, Forest.map, mapCtx_mark, map_mark, map_mark]
  rfl

theorem moved_mark {s : Server} (hf : f.zip = s.tree) (x y : Int) :
    (f.movedTo x y).map WindowState.mark = s.tree.map Window.mark := by
  rw [Focus.movedTo, map_zip, Forest.map, map_move_mark, move_mark, mapCtx_mark, map_mark, map_mark,
    focus_mark hf]
  rfl

variable (D : Driver)

theorem window_move_mark (s : Server) (x y : Int) (hf : f.zip = s.tree) :
    (window_move D s f x y).2.1.tree.map Window.mark = s.tree.map Window.mark := by
  by_cases h : f.win.is_open = true ∧ hasParent f.ctx = true ∧
      ¬ (x = f.win.pos.x0 ∧ y = f.win.pos.y0)
  · rw [mark_of_state (window_move_state D s h.1 h.2.1 h.2.2), moved_mark hf]
  · have hs : (window_move D s f x y).2.1 = s := by
      unfold window_move
      split_ifs with h1 h2
      · rfl
      · rfl
      · simp only [Bool.or_eq_true, Bool.not_eq_true', not_or, Bool.not_eq_false] at h1
        exact absurd ⟨h1.1, h1.2, h2⟩ h
    rw [hs]

theorem client_close_mark (s : Server) (handle : Nat) (mouse : Point) (hn : s.ids.Nodup) :
    ((client_close D s handle mouse).1 ≠ 0 ∧ (client_close D s handle mouse).2 = s) ∨
    ∃ f, s.windowLookup handle = some f ∧ 2 ≤ handle ∧ f.win.is_open = true ∧ (client_close D s handle mouse).1 = 0 ∧
      (client_close D s handle mouse).2.tree.map Window.mark =
        f.marked !(hasParent f.ctx && (ancestors f.ctx).all fun w => w.is_open) := by
  rcases client_close_cases D s handle mouse hn with h | ⟨f, hf, hh, ho, hr, hs⟩
  · exact .inl h
  · refine .inr ⟨f, hf, hh, ho, hr, ?_⟩
    split_ifs at hs with hc
    · rw [mark_of_state hs, closed_mark, hc]
      rfl
    · rw [marks_of_state hs, focus_mark (Server.windowLookup_zip hf).1, ho, Bool.eq_false_iff.mpr hc]
      rfl

theorem client_open_mark (s : Server) (handle : Nat) (x0 y0 : Int)
    (placed : Option Point) (mouse : Point) :
    (client_open D s handle x0 y0 placed mouse).2.tree.map Window.mark = s.tree.map Window.mark ∨
    ∃ f, s.windowLookup handle = some f ∧ f.win.is_open = false ∧ hasParent f.ctx = true ∧
      (client_open D s handle x0 y0 placed mouse).2.tree.map Window.mark = f.marked true := by
  rcases client_open_cases D s handle x0 y0 placed mouse with ⟨h, -⟩ | ⟨f, p, hf, ho, hk, -, hs⟩
  · exact .inl (marks_of_state h)
  · exact .inr ⟨f, hf, ho, hk, by rw [mark_of_state hs, opened_mark]⟩

theorem client_move_mark (s : Server) (relative : Bool) (handle : Nat) (x0 y0 : Int) (mouse : Point) :
    (client_move D s relative handle x0 y0 mouse).2.tree.map Window.mark = s.tree.map Window.mark := by
  rcases client_move_cases D s relative handle x0 y0 mouse with h | ⟨f, p, hf, -, -, -, hs⟩
  · exact marks_of_state h
  · rw [mark_of_state hs, moved_mark (Server.windowLookup_zip hf).1]

def markPaths (t : Forest Window) : List (Mark × List Mark) := paths [] (t.map Window.mark)

theorem markPaths_eq (t : Forest Window) :
    markPaths t = (statePaths t).map fun p => (p.1.mark, p.2.map WindowState.mark) := by
  have := paths_map WindowState.mark [] (t.map Window.state)
  rw [map_mark] at this
  exact this

theorem marks_of_paths (h : (statePaths t).Perm (statePaths u)) :
    (markPaths t).Perm (markPaths u) := by
  rw [markPaths_eq, markPaths_eq]
  exact h.map _

theorem w_topDown_marks (s : Server) (handle : Nat) :
    (markPaths (w_topDown D s handle).tree).Perm (markPaths s.tree) :=
  marks_of_paths (w_topDown_paths D s handle)

theorem resizeWindow_mark (s : Server) (handle : Nat) (width height : Int) :
    (resizeWindow D s handle width height).tree.map Window.mark = s.tree.map Window.mark := by
  unfold resizeWindow
  split
  · rfl
  next f hf =>
    have hm : (resizeBitmap D f.win width height).mark = f.win.mark := by
      unfold resizeBitmap
      dsimp only
      split_ifs <;> rfl
    rw [← (Server.windowLookup_zip hf).1]
    simp only [Server.setFocus, Focus.zip, map_zip, Forest.map, hm]

def reallyOpen (p : Mark × List Mark) : Bool := p.1.is_open && p.2.all Mark.is_open

def openMarks (a : List Mark) (t : Forest Mark) : List Mark :=
  ((paths a t).filter reallyOpen).map Prod.fst

theorem openMarks_closed {a : List Mark} (h : a.all Mark.is_open = false) (t : Forest Mark) : openMarks a t = [] := by
  rw [openMarks, List.map_eq_nil_iff, List.filter_eq_nil_iff]
  intro p hp
  obtain ⟨l, hl⟩ := paths_suffix hp
  rw [reallyOpen, ← hl, List.all_append, h, Bool.and_false, Bool.and_false]
  exact Bool.false_ne_true

theorem openMarks_node (a : List Mark) (m : Mark) (cs ns : Forest Mark) : openMarks a (.node m cs ns) =
      (if reallyOpen (m, a) then m :: openMarks (m :: a) cs else []) ++ openMarks a ns := by
  by_cases h : reallyOpen (m, a) = true
  · rw [if_pos h]
    simp only [openMarks, paths, List.filter_cons, h, if_true, List.filter_append, List.map_cons,
      List.map_append, List.cons_append]
  · rw [if_neg h]
    have hc : openMarks (m :: a) cs = [] := by
      apply openMarks_closed
      simpa [reallyOpen] using h
    simp only [openMarks, List.map_eq_nil_iff] at hc
    simp only [openMarks, paths, List.filter_cons, h, Bool.false_eq_true, if_false,
      List.filter_append, hc, List.nil_append]

theorem all_open_mark :
    (ancestors (mapCtx Window.mark k)).all Mark.is_open = (ancestors k).all fun w => w.is_open := by
  rw [ancestors_map, List.all_map]
  rfl

theorem openOnes_mark (t : Forest Window) :
    (openOnes k t).map Window.mark = openMarks (ancestors (mapCtx Window.mark k)) (t.map Window.mark) := by
  induction t generalizing k with
  | nil => rfl
  | node w cs ns ihc ihn =>
    have hr : reallyOpen (w.mark, ancestors (mapCtx Window.mark k)) = really_open k w := by
      rw [reallyOpen, all_open_mark]
      rfl
    rw [openOnes, Forest.map, openMarks_node, hr]
    split_ifs
    · rw [List.map_cons, List.map_append, ihc, ihn]
      rfl
    · rw [ihn]
      rfl

theorem ancestors_state {k l : Context Window} (h : mapCtx Window.state k = mapCtx Window.state l) :
    mapCtx Window.mark k = mapCtx Window.mark l := by
  rw [← mapCtx_mark, ← mapCtx_mark, h]

theorem window_open_frame (s : Server) (x y : Int)
    (ho : f.win.is_open = false) (hk : hasParent f.ctx = true) :
    ∃ (L : List Window) (tree : Forest Window) (screen : Pixmap),
      (window_open D s f x y).2.1 = { L.foldl client_do_open s with tree, screen } ∧
      L.map Window.mark = openMarks (ancestors (mapCtx Window.mark f.ctx))
        (.node { f.win.mark with is_open := true } (f.childs.map Window.mark) .nil) := by
  unfold window_open
  simp only [ho, hk, Bool.false_eq_true, Bool.not_true, if_false, Server.setFocus]
  refine ⟨_, _, _, rfl, ?_⟩
  rw [openOnes_mark, ancestors_state (l := f.ctx) (by simp), Forest.map, Window.mark,
    visitTree_state, ← map_mark (visitTree ..).2, visitTree_childs_state, map_move_one_state,
    map_move_mark, map_mark]
  rfl

theorem window_close_frame (s : Server) (ho : f.win.is_open = true)
    (hk : hasParent f.ctx = true) (ha : (ancestors f.ctx).all (fun wp => wp.is_open) = true) :
    ∃ (L : List Window) (tree : Forest Window) (screen : Pixmap),
      (window_close D s f).2.1 = { L.foldl client_do_close s with tree, screen } ∧
      (L.map Window.mark).Perm (openMarks (ancestors (mapCtx Window.mark f.ctx))
        (.node f.win.mark (f.childs.map Window.mark) .nil)) := by
  have hany : (ancestors f.ctx).any (fun wp => !wp.is_open) = false := by
    rw [List.any_eq_false]
    intro a h
    simpa using List.all_eq_true.mp ha a h
  unfold window_close
  simp only [ho, hk, hany, Bool.not_true, Bool.false_eq_true, if_false, Server.setFocus]
  refine ⟨_, _, _, rfl, ?_⟩
  rw [List.map_reverse, openOnes_mark]
  exact List.reverse_perm _

theorem window_move_frame (s : Server) (f : Focus) (x y : Int) :
    ∃ (tree : Forest Window) (screen : Pixmap), (window_move D s f x y).2.1 = { s with tree, screen } := by
  unfold window_move
  split_ifs
  · exact ⟨_, _, rfl⟩
  · exact ⟨_, _, rfl⟩
  · exact ⟨_, _, rfl⟩

theorem window_to_top_frame (s : Server) (f : Focus) : ∃ (tree : Forest Window) (screen : Pixmap),
      (window_to_top D s f).2.1 = { s with tree, screen } := by
  unfold window_to_top
  split_ifs
  · exact ⟨_, _, rfl⟩
  · split <;> exact ⟨_, _, rfl⟩
  · split <;> exact ⟨_, _, rfl⟩

theorem window_to_bottom_frame (s : Server) (f : Focus) : ∃ (tree : Forest Window) (screen : Pixmap),
      (window_to_bottom D s f).2.1 = { s with tree, screen } := by
  unfold window_to_bottom
  split
  · exact ⟨_, _, rfl⟩
  · split_ifs <;> exact ⟨_, _, rfl⟩

theorem drawActive_frame (dashed : Bool) (s : Server) (f : Focus) :
    ∃ (tree : Forest Window) (screen : Pixmap), drawActive D dashed s f = { s with tree, screen } := by
  unfold drawActive
  dsimp only
  split_ifs <;> exact ⟨_, _, rfl⟩

theorem drawHandle_frame (dashed : Bool) (s : Server) (handle : Nat) :
    ∃ (tree : Forest Window) (screen : Pixmap), drawHandle D dashed s handle = { s with tree, screen } := by
  unfold drawHandle
  split
  · exact drawActive_frame D dashed s _
  · exact ⟨_, _, rfl⟩

theorem window_find_frame (s : Server) (x y : Int) (usecache : Bool) : ∃ (tree : Forest Window) (cache : Option Nat),
      (window_find s x y usecache).2 = { s with tree, window_find_cache := cache } := by
  unfold window_find
  split
  next r hr =>
    split_ifs at hr
    simp only [findCached, Option.bind_eq_bind, Option.bind_eq_some_iff] at hr
    obtain ⟨id, hid, f, hf, h⟩ := hr
    split_ifs at h
    obtain ⟨recs, -, h⟩ := Option.bind_eq_some_iff.mp h
    obtain rfl := Option.some.inj h
    exact ⟨_, _, rfl⟩
  · dsimp only
    split_ifs <;> exact ⟨_, _, rfl⟩

theorem w_changeActiveWindow_frame (s : Server) (mx my : Int) :
    ∃ (tree : Forest Window) (screen : Pixmap) (cache : Option Nat) (win top : Nat),
      w_changeActiveWindow D s mx my =
        { s with
          tree, screen, window_find_cache := cache
          glob_activewindow := win, glob_activetopwin := top } := by
  obtain ⟨t, c, hf⟩ := window_find_frame s mx my true
  unfold w_changeActiveWindow
  dsimp only
  rw [hf]
  split
  · exact ⟨_, _, _, _, _, rfl⟩
  · split_ifs
    · exact ⟨_, _, _, _, _, rfl⟩
    · obtain ⟨t1, sc1, h1⟩ := drawHandle_frame D true
        { s with tree := t, window_find_cache := c, glob_activewindow := _ } s.glob_activetopwin
      rw [h1]
      obtain ⟨t2, sc2, h2⟩ := drawHandle_frame D false
        { s with
          tree := t1, screen := sc1, window_find_cache := c
          glob_activewindow := _, glob_activetopwin := _ } _
      rw [h2]
      exact ⟨_, _, _, _, _, rfl⟩

end WWindowSystem
