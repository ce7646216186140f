import WWindowSystem.Server.Requests

namespace WWindowSystem

open Forest

def rootFrames (t : Forest Window) : List (Bool × Rec × Rec) := t.roots.map Window.frame

theorem hasParent_iff {k : Context Window} : hasParent k = true ↔ ancestors k ≠ [] := by
  unfold hasParent
  cases ancestors k <;> simp

variable {k l : Context Window}

theorem rootFrames_zip (t u : Forest Window)
    (h : mapCtx Window.frame k = mapCtx Window.frame l) (hk : hasParent k = true) :
    rootFrames (zip k t) = rootFrames (zip l u) :=
  roots_zip_parent t u h (hasParent_iff.mp hk)

variable {t u : Forest Window}

theorem rootFrames_congr (h : t.map Window.frame = u.map Window.frame) :
    rootFrames t = rootFrames u := by
  unfold rootFrames
  rw [← roots_map, ← roots_map, h]

@[simp] theorem onParent_save_frame (screen : Pixmap) (rect : Rec) (k : Context Window) (t : Forest Window) :
    mapCtx Window.frame (onParent (fun _ p _ => window_save_contents screen rect p) k t) = mapCtx Window.frame k :=
  frame_of_geom_ctx (onParent_save_geom screen rect k t)

@[simp] theorem onParent_rebuild_frame (recs : List Rec) (k : Context Window) (t : Forest Window) :
    mapCtx Window.frame (onParent (fun k p cs => (window_rebuild_recs recs k p cs).1) k t) = mapCtx Window.frame k :=
  mapCtx_onParent (window_rebuild_recs_frame recs) k t

variable (D : Driver)

@[simp] theorem scanParent_redraw_frame (rects : List Rec) (screen : Pixmap) (k : Context Window) :
    mapCtx Window.frame (scanParent (window_redraw_contents_rect D rects) screen k).2 = mapCtx Window.frame k :=
  frame_of_geom_ctx (scanParent_redraw_geom D rects screen k)

theorem window_open_root (s : Server) (f : Focus) (x y : Int) (hf : f.zip = s.tree) :
    rootFrames (window_open D s f x y).2.1.tree = rootFrames s.tree := by
  unfold window_open
  split_ifs with ho hk
  · rfl
  · rfl
  · rw [← hf]
    simp only [Server.setFocus, Focus.zip]
    apply Eq.symm
    apply rootFrames_zip
    · simp
    · simpa using hk

theorem window_close_ctx (s : Server) (f : Focus) :
    mapCtx Window.frame (window_close D s f).2.2.ctx = mapCtx Window.frame f.ctx := by
  unfold window_close
  split_ifs
  · rfl
  · rfl
  · rfl
  · simp [Server.setFocus]

theorem window_close_root (s : Server) (f : Focus) (hf : f.zip = s.tree) :
    rootFrames (window_close D s f).2.1.tree = rootFrames s.tree := by
  have hz := window_close_zip D s f hf
  by_cases hk : hasParent f.ctx = true
  · rw [← hz, ← hf]
    apply Eq.symm
    apply rootFrames_zip _ _ _ hk
    rw [window_close_ctx]
  · unfold window_close
    split_ifs with ho hp
    · rfl
    · rfl
    all_goals exact absurd (by simpa using hp) hk

theorem window_move_root (s : Server) (f : Focus) (x y : Int) (hf : f.zip = s.tree) :
    rootFrames (window_move D s f x y).2.1.tree = rootFrames s.tree := by
  unfold window_move
  split_ifs with hk
  · rfl
  · rfl
  · have hk : hasParent f.ctx = true := by
      simp only [Bool.or_eq_true, Bool.not_eq_true', not_or, Bool.not_eq_false] at hk
      exact hk.2
    rw [← hf]
    simp only [Server.setFocus, Focus.zip]
    apply Eq.symm
    apply rootFrames_zip _ _ _ hk
    simp

theorem window_to_top_root (s : Server) (f : Focus) (hf : f.zip = s.tree) :
    rootFrames (window_to_top D s f).2.1.tree = rootFrames s.tree := by
  obtain ⟨l, hl, -⟩ := detach_past f.ctx .nil
  have hs : s.tree = zip (detach f.ctx .nil).2 (l.append (.node f.win f.childs f.next)) := by
    rw [← zip_past, hl]
    exact hf.symm
  unfold window_to_top
  split_ifs with hk
  · rfl
  all_goals
    have hk' : hasParent (detach f.ctx .nil).2 = true := by
      rw [hasParent, ← ancestors_past _ l, hl]
      simpa [hasParent] using hk
    split
    · rw [hs]
      exact rootFrames_zip _ _ rfl hk'
    · rfl

theorem window_to_bottom_root (s : Server) (f : Focus) (hf : f.zip = s.tree) :
    rootFrames (window_to_bottom D s f).2.1.tree = rootFrames s.tree := by
  unfold window_to_bottom
  split
  · rfl
  · split_ifs with hk
    · rfl
    all_goals
      rw [← hf]
      simp only [Server.setFocus, Focus.zip, zip_past]
      exact rootFrames_zip _ _ rfl (by simpa using hk)

theorem window_delete_root (s : Server) (f : Focus) (hf : f.zip = s.tree) :
    rootFrames (window_delete D s f).2.tree = rootFrames s.tree := by
  unfold window_delete
  split_ifs with hk ho
  · rfl
  · have hk : hasParent f.ctx = true := by simpa using hk
    rw [← hf]
    apply Eq.symm
    apply rootFrames_zip _ _ _ hk
    exact (window_close_ctx D s f).symm
  · rw [← hf]
    apply Eq.symm
    exact rootFrames_zip _ _ rfl (by simpa using hk)

variable {s s' : Server}

theorem createWindow_root {D : Driver} {cptr : Client} {wwidth wheight h : Int}
    {flags : Flags} {parent : Focus} (hp : parent.zip = s.tree)
    (hc : createWindow D s cptr wwidth wheight flags parent = some (h, s')) :
    rootFrames s'.tree = rootFrames s.tree := by
  rcases createWindow_cases hc with ⟨-, rfl⟩ | ⟨id, tab, -, -, hnew⟩
  · rfl
  · rw [hnew.tree, ← hp]
    exact rootFrames_zip (k := .parent parent.win parent.next :: parent.ctx) _ parent.childs rfl rfl

theorem Redrawn.root (h : Redrawn t u) : rootFrames u = rootFrames t := by
  apply rootFrames_congr
  have := congrArg (Forest.map Prod.snd) h.key
  rw [map_map, map_map] at this
  exact this

theorem client_close_root (s : Server) (handle : Nat) (mouse : Point) :
    rootFrames (client_close D s handle mouse).2.tree = rootFrames s.tree := by
  unfold client_close
  split_ifs
  · rfl
  · split
    · rfl
    next f hf =>
      split_ifs
      · rfl
      · rw [(w_changeActiveWindow_redrawn D _ _ _).root]
        exact window_close_root D s f (Server.windowLookup_zip hf).1

theorem resizeWindow_root (s : Server) (handle : Nat) (width height : Int)
    (h : ∀ f, s.windowLookup handle = some f → hasParent f.ctx = true) :
    rootFrames (resizeWindow D s handle width height).tree = rootFrames s.tree := by
  unfold resizeWindow
  split
  · rfl
  next f hf =>
    rw [← (Server.windowLookup_zip hf).1]
    exact rootFrames_zip _ _ rfl (h f hf)

theorem client_open_root (s : Server) (handle : Nat) (x0 y0 : Int) (placed : Option Point) (mouse : Point)
    (h : ∀ f, s.windowLookup handle = some f → hasParent f.ctx = true) :
    rootFrames (client_open D s handle x0 y0 placed mouse).2.tree = rootFrames s.tree := by
  unfold client_open
  split
  · rfl
  next f hf =>
    by_cases ho : f.win.is_open = true
    · rw [if_pos ho]
    · rw [if_neg ho]
      dsimp only
      generalize (if f.win.flags.has W_CONTAINER = true then f.win else _) = win
      have hr : rootFrames (s.setFocus { f with win }).1.tree = rootFrames s.tree := by
        rw [← (Server.windowLookup_zip hf).1]
        exact rootFrames_zip _ _ rfl (h f hf)
      split
      · exact hr
      next p hp =>
        have hu := get_rectangle_tree (x0 = UNDEF ∨ y0 = UNDEF) (s.setFocus { f with win }).1
        generalize (if x0 = UNDEF ∨ y0 = UNDEF then get_rectangle_done _ else _) = u at hu ⊢
        rw [← hu] at hr
        have ho2 := (window_open_root D u (s.setFocus { f with win }).2 p.1 p.2 hu.symm).trans hr
        have hz2 := window_open_zip D u (s.setFocus { f with win }).2 p.1 p.2 hu.symm
        split_ifs
        · exact ho2
        · rw [(w_changeActiveWindow_redrawn D _ _ _).root]
          refine (Redrawn.root ?_).trans ho2
          exact ⟨_, .inl rfl, drawActive_fixed D true _ _ hz2⟩

theorem hasParent_map {β : Type} {g : Window → β}
    (h : mapCtx g k = mapCtx g l) : hasParent k = hasParent l := by
  have := congrArg ancestors h
  rw [ancestors_map, ancestors_map] at this
  unfold hasParent
  rw [← List.isEmpty_map (f := g), this, List.isEmpty_map]

theorem lookup_hasParent {handle : Nat} {f : Focus}
    (h : s'.tree.map Window.static = s.tree.map Window.static)
    (hf : s.windowLookup handle = some f) (hk : hasParent f.ctx = true) :
    ∀ g, s'.windowLookup handle = some g → hasParent g.ctx = true := by
  intro g hg
  rw [hasParent_map (lookup_static h hf hg).1, hk]

theorem resizeWindow_static (s : Server) (handle : Nat) (width height : Int) :
    (resizeWindow D s handle width height).tree.map Window.static = s.tree.map Window.static := by
  unfold resizeWindow
  split
  · rfl
  next f hf =>
    have hfix : (resizeBitmap D f.win width height).static = f.win.static := by
      unfold resizeBitmap
      dsimp only
      split_ifs <;> rfl
    rw [← (Server.windowLookup_zip hf).1]
    simp only [Server.setFocus, Focus.zip, map_zip, Forest.map, hfix]

theorem client_resize_root (s : Server) (handle : Nat) (width height : Int)
    (placed : Option Point) (mouse : Point) (hv : Visible s.tree) :
    rootFrames (client_resize D s handle width height placed mouse).2.tree = rootFrames s.tree := by
  unfold client_resize
  split
  · rfl
  next f hf =>
    split
    · rfl
    next parent hpar =>
      obtain ⟨-, hid⟩ := Server.windowLookup_zip hf
      have hk : hasParent f.ctx = true := by
        apply hasParent_iff.mpr
        intro hn
        simp [hn] at hpar
      dsimp only
      rw [hid]
      obtain ⟨-, hsc⟩ := client_close_spec D s handle mouse hv
      have hrc := client_close_root D s handle mouse
      generalize client_close D s handle mouse = c at hsc hrc ⊢
      have hsr := (resizeWindow_static D c.2 handle width height).trans hsc
      have hrr := (resizeWindow_root D c.2 handle width height (lookup_hasParent hsc hf hk)).trans hrc
      split_ifs
      · exact (client_open_root D _ handle _ _ placed mouse (lookup_hasParent hsr hf hk)).trans hrr
      · exact hrr

end WWindowSystem
