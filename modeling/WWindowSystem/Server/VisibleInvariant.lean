import WWindowSystem.Server.Static
import WWindowSystem.Server.VisibleRegion

namespace WWindowSystem

open Forest Set

structure Visible (t : Forest Window) : Prop where
  sound : Sound t
  shown : Shown Set.univ t

theorem Visible.congr {t u : Forest Window} (h : t.map Window.geom = u.map Window.geom) (ht : Visible t) : Visible u :=
  ⟨ht.sound.congr (frame_of_geom h), ht.shown.congr h⟩

variable {t : Forest Window} {k : Context Window}

theorem sound_zip : Sound (zip k t) ↔ Sound t ∧ ∀ w ∈ around k, w.Sound := by
  simp only [Sound, mem_zip, or_imp, forall_and]

theorem lefts_proper (h : ∀ w ∈ around k, w.Sound) :
    ∀ s ∈ lefts k, s.is_open = true → s.pos.Proper :=
  fun s hs => (h s (lefts_subset k hs)).proper

theorem ctx_rebuild (recs : List Rec) (k : Context Window) (C : Set Point) (t : Forest Window)
    (hs : ∀ w ∈ around k, w.Sound) (hk : CtxShown k C) (hC : AgreeOff (coverage recs) C (roof t)) :
    CtxShown (onParent (fun k p cs => (window_rebuild_recs recs k p cs).1) k t) (roof t) := by
  induction k generalizing C t with
  | nil => trivial
  | cons c k ih =>
    cases c with
    | prev s scs =>
      obtain ⟨he, hsh, hk⟩ := hk
      have hr : room (onParent (fun k p cs => (window_rebuild_recs recs k p cs).1) k
          (.node s scs t)) = room k :=
        room_congr (mapCtx_onParent (fun k w cs => window_rebuild_recs_frame recs k w cs) k _)
      have hsk : ∀ w ∈ around k, w.Sound := by
        intro w hw
        exact hs w (List.mem_cons_of_mem _ (List.mem_append_right _ hw))
      refine ⟨hr ▸ he, hr ▸ hsh, ?_⟩
      rw [← roof_node s scs t]
      refine ih _ (.node s scs t) hsk hk ?_
      intro p hp
      rw [roof_node]
      simp only [mem_union, hC p hp]
    | parent p ns =>
      obtain ⟨he, hsh, hk⟩ := hk
      have hf := window_rebuild_recs_frame recs k p t
      have hsk : ∀ w ∈ around k, w.Sound := by
        intro w hw
        exact hs w (List.mem_cons_of_mem _ (List.mem_append_right _ hw))
      refine ⟨?_, ?_, ?_⟩
      · refine window_rebuild_recs_exact recs k p t (hs p List.mem_cons_self) (lefts_proper hsk)
          he.closed ?_
        intro _ ha
        exact he.off ha (fun p _ => Iff.rfl) hC
      · rwa [behind_congr hf]
      · simp only [Window.frame, Prod.mk.injEq] at hf
        rwa [hf.1, hf.2.1]

variable {C : Set Point} {recs : List Rec}

theorem visible_onParent
    (hs : Sound (zip k t)) (ht : Shown (room k) t) (hk : CtxShown k C) (hC : AgreeOff (coverage recs) C (roof t)) :
    Visible (zip (onParent (fun k p cs => (window_rebuild_recs recs k p cs).1) k t) t) where
  sound := by
    refine hs.congr ?_
    rw [map_zip, map_zip, mapCtx_onParent fun k w cs => window_rebuild_recs_frame recs k w cs]
  shown := by
    rw [shown_zip]
    refine ⟨?_, ctx_rebuild recs k C t (sound_zip.mp hs).2 hk hC⟩
    rwa [room_congr (mapCtx_onParent (fun k w cs => window_rebuild_recs_frame recs k w cs) k t)]

@[simp] theorem window_save_contents_geom (screen : Pixmap) (rect : Rec) (w : Window) :
    (window_save_contents screen rect w).geom = w.geom := by
  unfold window_save_contents
  split_ifs <;> rfl

variable (D : Driver)

@[simp] theorem window_redraw_geom (rects : List Rec) (screen : Pixmap) (w : Window) :
    (window_redraw_contents_rect D rects screen w).2.geom = w.geom := by
  unfold window_redraw_contents_rect
  split_ifs
  · rfl
  · dsimp only
    split_ifs <;> rfl

theorem coverage_single (R : Rec) : coverage [R] = R.pts := by
  ext p
  simp [coverage]

theorem coverage_pair (R Q : Rec) : coverage [R, Q] = R.pts ∪ Q.pts := by
  ext p
  simp [coverage]

@[simp] theorem client_do_open_tree (s : Server) (w : Window) : (client_do_open s w).tree = s.tree := by
  unfold client_do_open Server.updateClient
  dsimp only
  split <;> split <;> rfl

@[simp] theorem client_do_close_tree (s : Server) (w : Window) : (client_do_close s w).tree = s.tree := by
  unfold client_do_close Server.updateClient
  dsimp only
  split <;> split <;> split <;> split <;> rfl

theorem Visible.pieces (h : Visible (zip k t)) :
    Sound t ∧ (∀ w ∈ around k, w.Sound) ∧ Shown (room k) t ∧ CtxShown k (roof t) :=
  ⟨(sound_zip.mp h.sound).1, (sound_zip.mp h.sound).2, (shown_zip k t).mp h.shown⟩

theorem Visible.rebuild
    (hs : Sound (zip k t)) (ht : Stale (coverage recs) (room k) t) (hk : CtxShown k C)
    (hC : AgreeOff (coverage recs) C (roof t)) :
    Visible (zip (onParent (fun k p cs => (window_rebuild_recs recs k p cs).1) k
      (t.visit (window_rebuild_recs recs) k)) (t.visit (window_rebuild_recs recs) k)) := by
  obtain ⟨hst, hsk⟩ := sound_zip.mp hs
  have hf := visit_rebuild_frame recs k t
  refine visible_onParent ?_ (visit_rebuild_shown recs k t hst (lefts_proper hsk) ht) hk ?_
  · exact sound_zip.mpr ⟨hst.congr hf.symm, hsk⟩
  · rwa [roof_congr hf]

variable {w : Window}

theorem not_apart_self (h : w.pos.Proper) {U : Set Point} (hU : w.pos.pts ⊆ U) : ¬ Apart w U := by
  obtain ⟨p, hp⟩ := h.nonempty
  exact fun ha => ha p hp (hU hp)

variable {cs ns : Forest Window} {dx dy : Int}

theorem Visible.open (w' : Window)
    (h : Visible (zip k (.node w cs ns))) (hw : w.is_open = false) (hw' : w'.is_open = true)
    (hs : w'.Sound) (t : Forest Window)
    (ht : t = (node w' (cs.map (window_move_one dx dy)) ns).visit (window_rebuild_recs [w'.pos]) k) :
    Visible (zip (onParent (fun k p cs => (window_rebuild_recs [w'.pos] k p cs).1) k t) t) := by
  subst ht
  obtain ⟨hst, hsk, hsh, hk⟩ := h.pieces
  obtain ⟨-, hcs, hns⟩ := sound_node.mp hst
  obtain ⟨-, hshc, hshn⟩ := hsh
  have hcs' : Sound (cs.map (window_move_one dx dy)) := sound_map (fun _ => window_move_one_sound dx dy) hcs
  have hU : coverage [w'.pos] = w'.pos.pts := coverage_single _
  have hin : inside (room k) w = ∅ := by simp [inside, hw]
  have hbe : behind (room k) w = room k := by simp [behind, hw]
  rw [hin] at hshc
  rw [hbe] at hshn
  refine Visible.rebuild (C := roof (.node w cs ns)) ?_ ?_ hk ?_
  · exact sound_zip.mpr ⟨sound_node.mpr ⟨hs, hcs', hns⟩, hsk⟩
  · refine ⟨fun hn => absurd (hw'.symm.trans hn) (by simp), fun _ ha => ?_, fun _ => ?_, ?_⟩
    · exact absurd ha (not_apart_self (hs.proper hw') hU.symm.subset)
    · -- the children come into sight inside of the window only
      refine (hshc.move_empty hcs).stale hcs' ?_
      intro p hp
      rw [hU] at hp
      have := @hs.work_sub p
      simp only [inside, hw', if_true, mem_inter_iff, mem_empty_iff_false]
      tauto
    · refine hshn.stale hns ?_
      intro p hp
      rw [hU] at hp
      simp only [behind, hw', if_true, mem_sdiff]
      tauto
  · intro p hp
    rw [hU] at hp
    simp only [roof_node, hw, hw', if_true, Bool.false_eq_true, if_false, mem_union,
      mem_empty_iff_false]
    tauto

theorem map_save_geom (screen : Pixmap) (rect : Rec) (t : Forest Window) :
    (t.map (window_save_contents screen rect)).map Window.geom = t.map Window.geom := by
  rw [map_map]
  exact map_congr (fun w => window_save_contents_geom screen rect w) t

theorem onParent_save_geom (screen : Pixmap) (rect : Rec) (k : Context Window) (t : Forest Window) :
    mapCtx Window.geom (onParent (fun _ p _ => window_save_contents screen rect p) k t) = mapCtx Window.geom k :=
  mapCtx_onParent (fun _ w _ => window_save_contents_geom screen rect w) k t

theorem scan_redraw_geom (rects : List Rec) (screen : Pixmap) (t : Forest Window) :
    (t.scan (window_redraw_contents_rect D rects) screen).2.map Window.geom = t.map Window.geom :=
  map_scan (fun s w => window_redraw_geom D rects s w) screen t

theorem scanParent_redraw_geom (rects : List Rec) (screen : Pixmap) (k : Context Window) :
    mapCtx Window.geom (scanParent (window_redraw_contents_rect D rects) screen k).2 = mapCtx Window.geom k := by
  induction k generalizing screen with
  | nil => rfl
  | cons c k ih => cases c <;> simp only [scanParent, mapCtx, ih, window_redraw_geom]

theorem scanTree_redraw_geom (rects : List Rec) (screen : Pixmap) (k : Context Window)
    (w : Window) (cs ns : Forest Window) :
    (zip k (.node (scanTree (window_redraw_contents_rect D rects) screen w cs).2.1
      (scanTree (window_redraw_contents_rect D rects) screen w cs).2.2 ns)).map Window.geom =
      (zip k (.node w cs ns)).map Window.geom := by
  rw [map_zip, map_zip]
  simp only [scanTree, Forest.map, scan_redraw_geom, window_redraw_geom]

theorem visitTree_node (f : Context Window → Window → Forest Window → Window × Bool)
    (k : Context Window) (w : Window) (cs ns : Forest Window) :
    node (visitTree f k w cs ns).1 (visitTree f k w cs ns).2
      (ns.visit f (.prev (visitTree f k w cs ns).1 (visitTree f k w cs ns).2 :: k)) =
      (node w cs ns).visit f k := rfl

theorem window_open_visible (s : Server) (f : Focus) (x y : Int) (hf : f.zip = s.tree)
    (hv : Visible s.tree) (hp : f.win.pos.Proper) : Visible (window_open D s f x y).2.1.tree := by
  unfold window_open
  split_ifs with ho hk
  · exact hv
  · exact hv
  · simp only [Server.setFocus, Focus.zip]
    refine Visible.congr (scanTree_redraw_geom D _ _ _ _ _ _).symm ?_
    rw [visitTree_node]
    refine Visible.open (openAt x y f.win) (w := f.win) ?_ (by simpa using ho) rfl ?_ _ rfl
    · refine Visible.congr ?_ (hf.symm ▸ hv)
      rw [Focus.zip, map_zip, map_zip, onParent_save_geom]
      simp only [Forest.map, map_save_geom]
    · refine ⟨fun _ => hp, ?_⟩
      intro p hq
      have hs := (sound_node.mp (sound_zip.mp (hf.symm ▸ hv).sound).1).1.work_sub
      have := hs (Rec.mem_shift.mp hq)
      simp only [Rec.mem_pts, openAt] at this ⊢
      omega

variable {top_win : Nat} {screen : Pixmap}

theorem window_close_one_sound
    {cs : Forest Window} (hw : w.Sound) : (window_close_one screen top_win k w cs).Sound := by
  have hg := window_save_contents_geom screen w.pos w
  simp only [Window.geom, Window.frame, Prod.mk.injEq] at hg
  obtain ⟨⟨ho, hp, hwk⟩, -, -⟩ := hg
  unfold window_close_one
  dsimp only
  split_ifs
  · exact hw
  · refine ⟨fun hc => absurd hc (by simp), ?_⟩
    simp only [hp, hwk]
    exact hw.work_sub
  · refine ⟨?_, ?_⟩
    · simp only [ho, hp]
      exact hw.proper
    · simp only [hp, hwk]
      exact hw.work_sub

theorem sound_post {f : Context Window → Window → Forest Window → Window}
    (hf : ∀ k w cs, w.Sound → (f k w cs).Sound) (k : Context Window)
    (ht : Sound t) : Sound (t.post f k) := by
  induction t generalizing k with
  | nil => exact ht
  | node w cs ns ihc ihn =>
    obtain ⟨hw, hc, hn⟩ := sound_node.mp ht
    exact sound_node.mpr ⟨hf _ _ _ hw, ihc _ hc, ihn _ hn⟩

theorem window_close_one_exact
    {A C E : Set Point} (cs : Forest Window) (hw : w.Sound) (he : Exact A w C)
    (hA : ¬ (∀ a ∈ ancestors k, a.is_open = true) → A = ∅) : Exact ∅ (window_close_one screen top_win k w cs) E := by
  rw [Exact.empty_iff (window_close_one_sound hw) (region_empty (by simp))]
  by_cases hr : really_open k w = true
  · simp only [window_close_one, hr, Bool.not_true, Bool.false_eq_true, if_false]
    split_ifs <;> simp
  · simp only [window_close_one, hr, Bool.not_false, if_true]
    simp only [really_open, Bool.and_eq_true, List.all_eq_true, not_and] at hr
    cases ho : w.is_open with
    | false => exact ⟨he.closed ho, by simp⟩
    | true =>
      have hr := hA (hr ho)
      rw [hr, Exact.empty_iff hw (region_empty (by simp))] at he
      exact ⟨he.1, fun _ => he.2 ho⟩

variable {A : Set Point}

theorem Shown.close
    (k : Context Window) (hs : Sound t) (ht : Shown A t) (hA : ¬ (∀ a ∈ ancestors k, a.is_open = true) → A = ∅) :
    Shown ∅ (t.post (window_close_one screen top_win) k) := by
  induction t generalizing A k with
  | nil => trivial
  | node w cs ns ihc ihn =>
    obtain ⟨hw, hc, hn⟩ := sound_node.mp hs
    obtain ⟨he, htc, htn⟩ := ht
    rw [Forest.post, Shown, inside_empty, behind_empty]
    refine ⟨window_close_one_exact _ hw he hA, ?_, ?_⟩
    · refine ihc _ hc htc fun hn => ?_
      cases ho : w.is_open with
      | false => simp [inside, ho]
      | true =>
        have := hA fun h => hn (List.forall_mem_cons.mpr ⟨ho, h⟩)
        rw [this, inside_empty]
    · refine ihn _ hn htn fun hn => ?_
      rw [hA hn, behind_empty]

theorem Visible.close (w' : Window) {cs cs' ns : Forest Window}
    (h : Visible (zip k (.node w cs ns))) (hw : w.is_open = true) (hc : w'.is_open = false)
    (hp : w'.pos = w.pos) (hwk : w'.work = w.work) (hv : w'.vis_recs = []) (hcs : Sound cs')
    (hsh : Shown ∅ cs') (t : Forest Window)
    (ht : t = .node w' cs' (ns.visit (window_rebuild_recs [w'.pos]) (.prev w' cs' :: k))) :
    Visible (zip (onParent (fun k p cs => (window_rebuild_recs [w'.pos] k p cs).1) k t) t) := by
  subst ht
  obtain ⟨hst, hsk, hsh', hk⟩ := h.pieces
  obtain ⟨hsw, -, hsn⟩ := sound_node.mp hst
  have hU : coverage [w'.pos] = w.pos.pts := by rw [coverage_single, hp]
  have hsw' : w'.Sound := ⟨fun ho => absurd (hc.symm.trans ho) (by simp), hp ▸ hwk ▸ hsw.work_sub⟩
  have hf := visit_rebuild_frame [w'.pos] (.prev w' cs' :: k) ns
  refine visible_onParent (C := roof (.node w cs ns)) ?_ ?_ hk ?_
  · exact sound_zip.mpr ⟨sound_node.mpr ⟨hsw', hcs, hsn.congr hf.symm⟩, hsk⟩
  · refine ⟨⟨by simp [hc], by simp [hc], fun _ => hv⟩, by simpa [inside, hc], ?_⟩
    refine visit_rebuild_shown [w'.pos] (.prev w' cs' :: k) ns hsn ?_ ?_
    · refine List.forall_mem_cons.mpr ⟨fun ho => absurd (hc.symm.trans ho) (by simp), ?_⟩
      exact lefts_proper hsk
    · refine hsh'.2.2.stale hsn ?_
      intro p hpU
      rw [hU] at hpU
      simp only [room_prev, behind, hw, hc, if_true, Bool.false_eq_true, if_false, mem_sdiff]
      tauto
  · intro p hpU
    rw [hU] at hpU
    simp only [roof_node, roof_congr hf, hw, hc, if_true, Bool.false_eq_true, if_false, mem_union,
      mem_empty_iff_false]
    tauto

theorem window_close_one_top {cs : Forest Window}
    (hr : really_open k w = true) : window_close_one screen w.id k w cs =
      { window_save_contents screen w.pos w with vis_recs := [], is_open := false } := by
  have hid : (window_save_contents screen w.pos w).id = w.id := by
    unfold window_save_contents; split_ifs <;> rfl
  simp [window_close_one, hr, hid]

theorem window_close_visible (s : Server) (f : Focus) (hf : f.zip = s.tree)
    (hv : Visible s.tree) : Visible (window_close D s f).2.1.tree := by
  have hv' : Visible (zip f.ctx (.node f.win f.childs f.next)) := by
    rw [← hf] at hv
    exact hv
  unfold window_close
  split_ifs with ho hk ha
  · exact hv
  · exact hv
  · exact hv
  · have ho : f.win.is_open = true := by simpa using ho
    have ha : ∀ a ∈ ancestors f.ctx, a.is_open = true := by simpa [List.any_eq_true] using ha
    have hr : really_open f.ctx f.win = true := by
      rw [really_open, ho, Bool.true_and, List.all_eq_true]
      exact ha
    have hg := window_save_contents_geom s.screen f.win.pos f.win
    simp only [Window.geom, Window.frame, Prod.mk.injEq] at hg
    obtain ⟨⟨-, hp, hwk⟩, -, -⟩ := hg
    obtain ⟨hst, -, hsh, -⟩ := hv'.pieces
    obtain ⟨-, hsc, -⟩ := sound_node.mp hst
    simp only [Server.setFocus, Focus.zip]
    set cs := f.childs.post (window_close_one s.screen f.win.id) (.parent f.win f.next :: f.ctx)
    set w := window_close_one s.screen f.win.id f.ctx f.win cs with hw
    rw [window_close_one_top hr] at hw
    have hcs : Sound cs := sound_post (fun _ _ _ => window_close_one_sound) _ hsc
    have hsh : Shown ∅ cs := by
      refine hsh.2.1.close _ hsc fun hn => absurd ?_ hn
      exact List.forall_mem_cons.mpr ⟨ho, ha⟩
    have key := hv'.close w ho (by rw [hw]) (by rw [hw]; exact hp)
      (by rw [hw]; exact hwk) (by rw [hw]) hcs hsh _ rfl
    refine key.congr ?_
    rw [map_zip, map_zip, scanParent_redraw_geom]
    simp only [Forest.map, scan_redraw_geom]

theorem window_is_hidden_room (h : window_is_hidden w k = false) :
    w.pos.pts ⊆ room k := by
  induction k with
  | nil => exact subset_univ _
  | cons c k ih =>
    cases c with
    | prev s scs =>
      rw [window_is_hidden, Bool.or_eq_false_iff, Bool.and_eq_false_imp] at h
      obtain ⟨hs, hk⟩ := h
      intro p hp
      rw [room_prev, behind]
      split_ifs with ho
      · refine ⟨ih hk hp, fun hq => ?_⟩
        have := hs ho
        rw [← Bool.not_eq_true, rect_intersect_isSome] at this
        exact this ⟨p, hp, hq⟩
      · exact ih hk hp
    | parent q ns =>
      simp only [window_is_hidden, Bool.or_eq_false_iff, Bool.not_eq_false'] at h
      obtain ⟨⟨ho, hc⟩, hk⟩ := h
      intro p hp
      rw [room_parent, inside, if_pos ho]
      exact ⟨ih hk hp, rect_cont_rect_pts hc hp⟩

def shiftSet (dx dy : Int) (A : Set Point) : Set Point := {p | (p.1 - dx, p.2 - dy) ∈ A}

theorem shift_pts (R : Rec) (dx dy : Int) : (R.shift dx dy).pts = shiftSet dx dy R.pts := by
  ext p
  exact Rec.mem_shift

theorem shiftSet_subset {A B : Set Point} : shiftSet dx dy A ⊆ shiftSet dx dy B ↔ A ⊆ B := by
  constructor
  · intro h p hp
    have := @h (p.1 + dx, p.2 + dy) (by simpa [shiftSet] using hp)
    simpa [shiftSet] using this
  · exact fun h p hp => h hp

def window_move_all (dx dy : Int) (w : Window) : Window := window_move_recs dx dy (window_move_one dx dy w)

theorem window_move_all_open (h : w.is_open = true) :
    window_move_all dx dy w = { w with
      pos := w.pos.shift dx dy
      work := w.work.shift dx dy
      vis_recs := w.vis_recs.map fun rp => rp.shift dx dy } := by
  simp only [window_move_all, window_move_recs, window_move_one, h, if_true]

theorem window_move_all_closed (h : w.is_open = false) : window_move_all dx dy w = w := by
  simp [window_move_all, window_move_recs, window_move_one, h]

theorem Exact.move (dx dy : Int) {A C : Set Point} (h : Exact A w C) :
    Exact (shiftSet dx dy A) (window_move_all dx dy w) (shiftSet dx dy C) := by
  cases ho : w.is_open with
  | false =>
    rw [window_move_all_closed ho]
    exact ⟨by simp [ho], by simp [ho], h.closed⟩
  | true =>
    rw [window_move_all_open ho]
    have hr : region (shiftSet dx dy A) { w with
        pos := w.pos.shift dx dy
        work := w.work.shift dx dy
        vis_recs := w.vis_recs.map fun rp => rp.shift dx dy } (shiftSet dx dy C) =
        shiftSet dx dy (region A w C) := by
      simp only [region, shift_pts]
      rfl
    refine ⟨fun _ => ?_, fun _ => ?_, fun hc => absurd (ho.symm.trans hc) (by simp)⟩
    · rw [hr]
      exact (h.tiles ho).shift dx dy
    · rw [hr, shift_pts, shiftSet_subset]
      exact h.hidden ho

theorem roof_move (dx dy : Int) (t : Forest Window) :
    roof (t.map (window_move_all dx dy)) = shiftSet dx dy (roof t) := by
  induction t with
  | nil => simp [Forest.map, roof_nil, shiftSet]
  | node w cs ns _ ihn =>
    rw [Forest.map, roof_node, roof_node, ihn]
    cases ho : w.is_open with
    | false => simp [window_move_all_closed ho, ho]
    | true =>
      simp only [window_move_all_open ho, ho, if_true, shift_pts]
      rfl

theorem inside_move (dx dy : Int) (A : Set Point) (w : Window) :
    inside (shiftSet dx dy A) (window_move_all dx dy w) = shiftSet dx dy (inside A w) := by
  cases ho : w.is_open with
  | false => simp [window_move_all_closed ho, inside, ho, shiftSet]
  | true =>
    simp only [window_move_all_open ho, inside, ho, if_true, shift_pts]
    rfl

theorem behind_move (dx dy : Int) (A : Set Point) (w : Window) :
    behind (shiftSet dx dy A) (window_move_all dx dy w) = shiftSet dx dy (behind A w) := by
  cases ho : w.is_open with
  | false => simp [window_move_all_closed ho, behind, ho]
  | true =>
    simp only [window_move_all_open ho, behind, ho, if_true, shift_pts]
    rfl

theorem Shown.move (h : Shown A t) :
    Shown (shiftSet dx dy A) (t.map (window_move_all dx dy)) := by
  induction t generalizing A with
  | nil => trivial
  | node w cs ns ihc ihn =>
    obtain ⟨he, hc, hn⟩ := h
    refine ⟨?_, ?_, ?_⟩
    · rw [roof_move]
      exact he.move dx dy
    · rw [inside_move]
      exact ihc hc
    · rw [behind_move]
      exact ihn hn

theorem window_move_all_sound (dx dy : Int) (hw : w.Sound) : (window_move_all dx dy w).Sound := by
  have := window_move_one_sound dx dy hw
  unfold window_move_all window_move_recs
  split_ifs
  · exact ⟨this.proper, this.work_sub⟩
  · exact this

theorem Visible.move (dx dy : Int)
    (h : Visible (zip k (.node w cs ns))) (hw : w.is_open = true) (t : Forest Window)
    (ht : t = (node (window_move_one dx dy w) (cs.map (window_move_one dx dy)) ns).visit
      (window_rebuild_recs [w.pos, (window_move_one dx dy w).pos]) k) : Visible (zip (onParent (fun k p cs =>
      (window_rebuild_recs [w.pos, (window_move_one dx dy w).pos] k p cs).1) k t) t) := by
  subst ht
  obtain ⟨hst, hsk, hsh, hk⟩ := h.pieces
  obtain ⟨hsw, hsc, hsn⟩ := sound_node.mp hst
  have hU := coverage_pair w.pos (window_move_one dx dy w).pos
  have hsw' := window_move_one_sound dx dy hsw
  have hsc' : Sound (cs.map (window_move_one dx dy)) := sound_map (fun _ => window_move_one_sound dx dy) hsc
  have ho : (window_move_one dx dy w).is_open = true := by simpa using hw
  have hpos : (window_move_one dx dy w).pos = w.pos.shift dx dy := by
    rw [window_move_one, if_pos hw]
  refine Visible.rebuild (C := roof (.node w cs ns)) ?_ ?_ hk ?_
  · exact sound_zip.mpr ⟨sound_node.mpr ⟨hsw', hsc', hsn⟩, hsk⟩
  · refine ⟨fun hn => absurd (ho.symm.trans hn) (by simp), fun _ ha => ?_, fun _ => ?_, ?_⟩
    · exact absurd ha (not_apart_self (hsw'.proper ho) (hU ▸ subset_union_right))
    · refine hsh.2.1.move_stale hsc ?_ ?_
      · intro p hp
        rw [hU, hpos]
        refine .inr (Rec.mem_shift.mpr ?_)
        simp only [inside, hw, if_true] at hp
        simpa using hsw.work_sub hp.2
      · intro p hp
        rw [hU]
        simp only [inside, ho, if_true] at hp
        exact .inr (hsw'.work_sub hp.2)
    · refine hsh.2.2.stale hsn ?_
      intro p hp
      rw [hU, mem_union, not_or] at hp
      simp only [behind, hw, ho, if_true, mem_sdiff]
      tauto
  · intro p hp
    rw [hU, mem_union, not_or] at hp
    simp only [roof_node, hw, ho, if_true, mem_union]
    tauto

theorem Visible.move_shown (dx dy : Int)
    (h : Visible (zip k (.node w cs ns))) (hw : w.is_open = true) (hr : w.pos.pts ⊆ room k)
    (hr' : (window_move_one dx dy w).pos.pts ⊆ room k) (t : Forest Window)
    (ht : t = .node (window_move_all dx dy w) (cs.map (window_move_all dx dy))
      (ns.visit (window_rebuild_recs [w.pos, (window_move_one dx dy w).pos])
        (.prev (window_move_all dx dy w) (cs.map (window_move_all dx dy)) :: k))) :
    Visible (zip (onParent (fun k p cs =>
      (window_rebuild_recs [w.pos, (window_move_one dx dy w).pos] k p cs).1) k t) t) := by
  subst ht
  obtain ⟨hst, hsk, hsh, hk⟩ := h.pieces
  obtain ⟨hsw, hsc, hsn⟩ := sound_node.mp hst
  obtain ⟨he, hshc, hshn⟩ := hsh
  have hU := coverage_pair w.pos (window_move_one dx dy w).pos
  have hsw' := window_move_all_sound dx dy hsw
  have hsc' : Sound (cs.map (window_move_all dx dy)) := sound_map (fun _ => window_move_all_sound dx dy) hsc
  have ho : (window_move_all dx dy w).is_open = true := by rw [window_move_all_open hw]; exact hw
  have hpos1 : (window_move_one dx dy w).pos.pts = shiftSet dx dy w.pos.pts := by
    rw [window_move_one, if_pos hw, ← shift_pts]
  have hpos : (window_move_all dx dy w).pos.pts = shiftSet dx dy w.pos.pts := by
    rw [window_move_all_open hw, ← shift_pts]
  have hf := visit_rebuild_frame [w.pos, (window_move_one dx dy w).pos]
    (.prev (window_move_all dx dy w) (cs.map (window_move_all dx dy)) :: k) ns
  rw [hpos1] at hr' hU
  -- inside of the window nothing of the room is missing, neither here nor there
  have hin : inside (room k) w = inside w.pos.pts w := by
    simp only [inside, hw, if_true]
    rw [inter_eq_right.mpr (hsw.work_sub.trans hr), inter_eq_right.mpr hsw.work_sub]
  have hin' : inside (room k) (window_move_all dx dy w) =
      inside (shiftSet dx dy w.pos.pts) (window_move_all dx dy w) := by
    have hwk := hsw'.work_sub
    rw [hpos] at hwk
    simp only [inside, ho, if_true]
    rw [inter_eq_right.mpr (hwk.trans hr'), inter_eq_right.mpr hwk]
  refine visible_onParent (C := roof (.node w cs ns)) ?_ ?_ hk ?_
  · exact sound_zip.mpr ⟨sound_node.mpr ⟨hsw', hsc', hsn.congr hf.symm⟩, hsk⟩
  · refine ⟨?_, ?_, ?_⟩
    · have h1 : Exact w.pos.pts w (roof cs) := by
        have : region w.pos.pts w (roof cs) = region (room k) w (roof cs) := by
          simp only [region, inter_self, inter_eq_right.mpr hr]
        exact ⟨this ▸ he.tiles, this ▸ he.hidden, he.closed⟩
      have h2 := h1.move dx dy
      rw [roof_move]
      have : region (shiftSet dx dy w.pos.pts) (window_move_all dx dy w) (shiftSet dx dy (roof cs)) =
          region (room k) (window_move_all dx dy w) (shiftSet dx dy (roof cs)) := by
        simp only [region, hpos, inter_self, inter_eq_right.mpr hr']
      exact ⟨this ▸ h2.tiles, this ▸ h2.hidden, h2.closed⟩
    · rw [hin', inside_move, ← hin]
      exact hshc.move
    · refine visit_rebuild_shown _ (.prev _ _ :: k) ns hsn ?_ ?_
      · refine List.forall_mem_cons.mpr ⟨fun _ => hsw'.proper ho, ?_⟩
        exact lefts_proper hsk
      · refine hshn.stale hsn ?_
        intro p hp
        rw [hU, mem_union, not_or] at hp
        simp only [room_prev, behind, hw, ho, if_true, mem_sdiff, hpos]
        tauto
  · intro p hp
    rw [hU, mem_union, not_or] at hp
    simp only [roof_node, roof_congr hf, hw, ho, if_true, mem_union, hpos]
    tauto

theorem frame_of_geom_ctx {k l : Context Window} (h : mapCtx Window.geom k = mapCtx Window.geom l) :
    mapCtx Window.frame k = mapCtx Window.frame l := by
  have := congrArg (mapCtx Prod.fst) h
  rw [mapCtx_mapCtx, mapCtx_mapCtx] at this
  exact this

theorem window_move_visible (s : Server) (f : Focus) (x y : Int) (hf : f.zip = s.tree)
    (hv : Visible s.tree) : Visible (window_move D s f x y).2.1.tree := by
  have hv' : Visible (zip f.ctx (.node f.win f.childs f.next)) := by
    rw [← hf] at hv
    exact hv
  unfold window_move
  split_ifs with ho hxy
  · exact hv
  · exact hv
  · have ho : f.win.is_open = true := by
      simp only [Bool.or_eq_true, Bool.not_eq_true', not_or, Bool.not_eq_false] at ho
      exact ho.1
    simp only [Server.setFocus, Focus.zip]
    generalize hdx : x - f.win.pos.x0 = dx
    generalize hdy : y - f.win.pos.y0 = dy
    set saveNew := window_save_contents s.screen (f.win.pos.shift dx dy)
    set ns := f.next.map saveNew with hns
    set k := onParent (fun _ p _ => saveNew p) f.ctx (.node f.win f.childs ns) with hk
    set w := window_save_contents s.screen f.win.pos f.win with hw
    set cs := f.childs.map (window_save_contents s.screen f.win.pos) with hcs
    have hgk : mapCtx Window.geom k = mapCtx Window.geom f.ctx := onParent_save_geom _ _ _ _
    have hgw : w.geom = f.win.geom := window_save_contents_geom _ _ _
    have hkey : Visible (zip k (.node w cs ns)) := by
      refine hv'.congr ?_
      rw [map_zip, map_zip, hgk]
      simp only [Forest.map, hgw, hns, hcs, saveNew, map_save_geom]
    simp only [Window.geom, Window.frame, Prod.mk.injEq] at hgw
    obtain ⟨⟨how, hpw, -⟩, -, -⟩ := hgw
    rw [ho] at how
    have hroom : room k = room f.ctx := room_congr (frame_of_geom_ctx hgk)
    rw [← hpw]
    split_ifs with hh
    · refine Visible.congr ?_ (hkey.move dx dy how _ rfl)
      rw [map_zip, map_zip, scanParent_redraw_geom]
      simp only [scanTree, Forest.map, scan_redraw_geom, window_redraw_geom]
      rfl
    · rw [Bool.or_eq_true, not_or, Bool.not_eq_true, Bool.not_eq_true] at hh
      have hr := window_is_hidden_room hh.1
      have hr' := window_is_hidden_room hh.2
      refine Visible.congr ?_ (hkey.move_shown dx dy how ?_ hr' _ rfl)
      · rw [map_zip, map_zip, scanParent_redraw_geom]
        simp only [Forest.map, scan_redraw_geom, map_map]
        rfl
      · rwa [hroom, hpw]

theorem around_past (k : Context Window) (t : Forest Window) :
    (∀ w ∈ around (past k t), w.Sound) ↔ Sound t ∧ ∀ w ∈ around k, w.Sound := by
  induction t generalizing k with
  | nil => simp [past, Sound, toList]
  | node v cs ns _ ihn =>
    simp only [past, ihn, around, Sound, toList, List.forall_mem_cons, List.forall_mem_append]
    tauto

theorem agreeOff_inside {U A B : Set Point} (hw : w.Sound) (hU : w.pos.pts ⊆ U) :
    AgreeOff U (inside A w) (inside B w) := by
  intro p hp
  have h1 := @hU p
  have h2 := @hw.work_sub p
  unfold inside
  split_ifs
  · simp only [mem_inter_iff]
    tauto
  · rfl

theorem Visible.to_top {cs ns l mid : Forest Window}
    (h : Visible (zip k (l.append (.node w cs ns)))) (hw : w.is_open = true)
    (hm : mid = l.visit (window_rebuild_recs [w.pos]) (.prev w cs :: k)) :
    Visible (zip k (.node (visitTree (window_rebuild_recs [w.pos]) k w cs (mid.append ns)).1
      (visitTree (window_rebuild_recs [w.pos]) k w cs (mid.append ns)).2 (mid.append ns))) := by
  obtain ⟨hst, hsk, hsh, hk⟩ := h.pieces
  obtain ⟨hsl, hst⟩ := sound_append.mp hst
  obtain ⟨hsw, hsc, hsn⟩ := sound_node.mp hst
  obtain ⟨hshl, hshw⟩ := (shown_append _ _ _).mp hsh
  have hU := coverage_single w.pos
  have hfm : mid.map Window.frame = l.map Window.frame := hm ▸ visit_rebuild_frame _ _ l
  have hsm : Sound mid := hsl.congr hfm.symm
  have hb : behind (room k) w = room k \ w.pos.pts := by rw [behind, if_pos hw]
  have hmid : Shown (behind (room k) w) mid := by
    rw [hm]
    refine visit_rebuild_shown _ (.prev w cs :: k) l hsl ?_ (hshl.stale hsl ?_)
    · exact List.forall_mem_cons.mpr ⟨hsw.proper, lefts_proper hsk⟩
    · intro p hp
      rw [hU] at hp
      simp only [room_prev, hb, mem_sdiff]
      tauto
  have hrest : Shown (behind (room k) w) (mid.append ns) := by
    rw [shown_append]
    refine ⟨hmid, ?_⟩
    have he : behind (room k) w \ roof mid = behind (room k \ roof l) w := by
      rw [roof_congr hfm, hb, behind, if_pos hw, Set.sdiff_sdiff, Set.sdiff_sdiff, union_comm]
    rw [he]
    exact hshw.2.2
  have hsr : Sound (mid.append ns) := sound_append.mpr ⟨hsm, hsn⟩
  have hvis := visit_rebuild_shown [w.pos] k (.node w cs (mid.append ns))
    (sound_node.mpr ⟨hsw, hsc, hsr⟩) (lefts_proper hsk) ?_
  · have hf := visit_rebuild_frame [w.pos] k (.node w cs (mid.append ns))
    rw [← visitTree_node] at hvis hf
    generalize (visitTree (window_rebuild_recs [w.pos]) k w cs (mid.append ns)) = r at hvis hf ⊢
    simp only [Forest.map, node.injEq] at hf
    obtain ⟨hfw, hfc, -⟩ := hf
    have hroof : roof (.node r.1 r.2 (mid.append ns)) = roof (l.append (.node w cs ns)) := by
      have h1 : (if r.1.is_open = true then r.1.pos.pts else ∅) = w.pos.pts := by
        simp only [Window.frame, Prod.mk.injEq] at hfw
        rw [hfw.1, hfw.2.1, if_pos hw]
      rw [roof_node, h1, roof_append, roof_append, roof_node, if_pos hw, roof_congr hfm]
      exact union_left_comm _ _ _
    refine ⟨sound_zip.mpr ⟨sound_node.mpr ⟨?_, hsc.congr hfc.symm, hsr⟩, hsk⟩, (shown_zip _ _).mpr ⟨?_, ?_⟩⟩
    · have hone : Sound (.node w .nil .nil) := by
        intro v hv
        obtain rfl : v = w := by simpa [toList] using hv
        exact hsw
      have : Sound (.node r.1 .nil .nil) := hone.congr (by simp only [Forest.map, hfw])
      exact (sound_node.mp this).1
    · exact ⟨hvis.1, hvis.2.1, by rwa [behind_congr hfw]⟩
    · rwa [hroof]
  · refine ⟨fun hn => absurd (hw.symm.trans hn) (by simp), fun _ ha => ?_, fun _ => ?_, ?_⟩
    · exact absurd ha (not_apart_self (hsw.proper hw) hU.symm.subset)
    · exact hshw.2.1.stale hsc (agreeOff_inside hsw hU.symm.subset)
    · exact hrest.stale hsr fun p _ => Iff.rfl

theorem Visible.to_bottom {cs ns ms : Forest Window}
    (h : Visible (zip k (.node w cs ns))) (hw : w.is_open = true) (hm : ms = ns.visit (window_rebuild_recs [w.pos]) k) :
    Visible (zip (past k ms) ((node w cs .nil).visit (window_rebuild_recs [w.pos]) (past k ms))) := by
  obtain ⟨hst, hsk, hsh, hk⟩ := h.pieces
  obtain ⟨hsw, hsc, hsn⟩ := sound_node.mp hst
  have hU := coverage_single w.pos
  have hfm : ms.map Window.frame = ns.map Window.frame := hm ▸ visit_rebuild_frame _ _ ns
  have hsm : Sound ms := hsn.congr hfm.symm
  have hone : Sound (.node w cs .nil) := sound_node.mpr ⟨hsw, hsc, by simp [Sound, toList]⟩
  have hms : Shown (room k) ms := by
    rw [hm]
    refine visit_rebuild_shown _ k ns hsn (lefts_proper hsk) (hsh.2.2.stale hsn ?_)
    intro p hp
    rw [hU] at hp
    simp only [behind, hw, if_true, mem_sdiff]
    tauto
  have hsp : ∀ v ∈ around (past k ms), v.Sound := (around_past k ms).mpr ⟨hsm, hsk⟩
  have hf := visit_rebuild_frame [w.pos] (past k ms) (.node w cs .nil)
  have hvis := visit_rebuild_shown [w.pos] (past k ms) (.node w cs .nil) hone (lefts_proper hsp) ?_
  · generalize (node w cs .nil).visit (window_rebuild_recs [w.pos]) (past k ms) = t at hvis hf ⊢
    have hroof : roof (ms.append t) = roof (.node w cs ns) := by
      rw [roof_append, roof_congr hfm, roof_congr hf, roof_node, roof_node, roof_nil, union_empty,
        union_comm]
    refine ⟨sound_zip.mpr ⟨hone.congr hf.symm, hsp⟩, ?_⟩
    rw [zip_past, shown_zip, shown_append, hroof]
    rw [room_past] at hvis
    exact ⟨⟨hms, hvis⟩, hk⟩
  · refine ⟨fun hn => absurd (hw.symm.trans hn) (by simp), fun _ ha => ?_, fun _ => ?_, trivial⟩
    · exact absurd ha (not_apart_self (hsw.proper hw) hU.symm.subset)
    · exact hsh.2.1.stale hsc (agreeOff_inside hsw hU.symm.subset)

theorem shown_closed (hw : w.is_open = false) :
    Shown A (.node w cs ns) ↔ w.vis_recs = [] ∧ Shown ∅ cs ∧ Shown A ns := by
  have he : Exact A w (roof cs) ↔ w.vis_recs = [] := by
    refine ⟨fun h => h.closed hw, fun h => ⟨?_, ?_, fun _ => h⟩⟩ <;> simp [hw]
  simp [Shown, he, inside, behind, hw]

theorem roof_closed (hw : w.is_open = false) : roof (.node w cs ns) = roof ns := by
  simp [roof_node, hw]

theorem visible_closed_append {cs l ns : Forest Window} (hw : w.is_open = false) :
    Visible (zip k (l.append (.node w cs ns))) ↔ Visible (zip k (.node w cs (l.append ns))) := by
  have hs : Sound (zip k (l.append (.node w cs ns))) ↔ Sound (zip k (.node w cs (l.append ns))) := by
    simp only [sound_zip, sound_append, sound_node]
    tauto
  have hr : roof (l.append (.node w cs ns)) = roof (.node w cs (l.append ns)) := by
    rw [roof_append, roof_closed hw, roof_closed hw, roof_append]
  have hsh : Shown Set.univ (zip k (l.append (.node w cs ns))) ↔
      Shown Set.univ (zip k (.node w cs (l.append ns))) := by
    simp only [shown_zip, hr, shown_append, shown_closed hw]
    tauto
  exact ⟨fun h => ⟨hs.mp h.sound, hsh.mp h.shown⟩, fun h => ⟨hs.mpr h.sound, hsh.mpr h.shown⟩⟩

theorem window_to_top_visible (s : Server) (f : Focus) (hf : f.zip = s.tree)
    (hv : Visible s.tree) : Visible (window_to_top D s f).2.1.tree := by
  obtain ⟨l, hl, hd⟩ := detach_past f.ctx .nil
  rw [append_nil] at hd
  have hv' : Visible (zip (detach f.ctx .nil).2 (l.append (.node f.win f.childs f.next))) := by
    rw [← zip_past, hl]
    rw [← hf] at hv
    exact hv
  unfold window_to_top
  split_ifs with hk ho
  · exact hv
  · split
    · simp only [Server.setFocus, Focus.zip, hd]
      exact (visible_closed_append (by simpa using ho)).mp hv'
    · exact hv
  · split
    · simp only [Server.setFocus, Focus.zip, hd]
      refine Visible.congr (scanTree_redraw_geom D _ _ _ _ _ _).symm ?_
      set w := window_save_contents s.screen f.win.pos f.win with hw
      have hgw : w.geom = f.win.geom := window_save_contents_geom _ _ _
      have hv'' : Visible (zip (detach f.ctx .nil).2
          ((l.map (window_save_contents s.screen f.win.pos)).append
            (.node w (f.childs.map (window_save_contents s.screen f.win.pos)) f.next))) := by
        refine hv'.congr ?_
        rw [map_zip, map_zip, map_append, map_append, map_save_geom]
        simp only [Forest.map, map_save_geom, hgw]
      simp only [Window.geom, Window.frame, Prod.mk.injEq] at hgw
      obtain ⟨⟨how, hpw, -⟩, -, -⟩ := hgw
      rw [← hpw] at hv'' ⊢
      apply Visible.to_top hv'' (how.trans (by simpa using ho)) rfl
    · exact hv

theorem window_to_bottom_visible (s : Server) (f : Focus) (hf : f.zip = s.tree)
    (hv : Visible s.tree) : Visible (window_to_bottom D s f).2.1.tree := by
  have hv' : Visible (zip f.ctx (.node f.win f.childs f.next)) := by
    rw [← hf] at hv
    exact hv
  unfold window_to_bottom
  split
  · exact hv
  · split_ifs with hk ho
    · exact hv
    · simp only [Server.setFocus, Focus.zip, zip_past]
      rw [visible_closed_append (by simpa using ho), append_nil]
      exact hv'
    · simp only [Server.setFocus, Focus.zip]
      set w := window_save_contents s.screen f.win.pos f.win with hw
      have hgw : w.geom = f.win.geom := window_save_contents_geom _ _ _
      have hv'' : Visible (zip f.ctx
          (.node w (f.childs.map (window_save_contents s.screen f.win.pos)) f.next)) := by
        refine hv'.congr ?_
        rw [map_zip, map_zip]
        simp only [Forest.map, map_save_geom, hgw]
      simp only [Window.geom, Window.frame, Prod.mk.injEq] at hgw
      obtain ⟨⟨how, hpw, -⟩, -, -⟩ := hgw
      rw [← hpw] at hv'' ⊢
      refine (Visible.to_bottom hv'' (how.trans (by simpa using ho)) rfl).congr ?_
      rw [zip_past, zip_past, map_zip, map_zip, map_append, map_append, scan_redraw_geom]
      rfl

def Dormant (k : Context Window) (w : Window) : Prop :=
  w.is_open = false ∨ ∃ a ∈ ancestors k, a.is_open = false

theorem ctxShown_closed {C E : Set Point}
    (hk : ∃ a ∈ ancestors k, a.is_open = false) (h : CtxShown k C) : CtxShown k E := by
  induction k generalizing C E with
  | nil => trivial
  | cons c k ih =>
    cases c with
    | prev s scs =>
      obtain ⟨he, hsh, hctx⟩ := h
      exact ⟨he, hsh, ih hk hctx⟩
    | parent p ns =>
      obtain ⟨he, hsh, hctx⟩ := h
      refine ⟨?_, hsh, hctx⟩
      cases hp : p.is_open with
      | false => exact ⟨by simp [hp], by simp [hp], he.closed⟩
      | true =>
        have hr : room k = ∅ := by
          obtain ⟨a, ha, hc⟩ := hk
          rcases List.mem_cons.mp ha with rfl | ha
          · exact absurd (hp.symm.trans hc) (by simp)
          · exact room_closed k ⟨a, ha, hc⟩
        rw [hr] at he ⊢
        have hCE : region ∅ p C = region ∅ p E := by simp [region]
        exact ⟨hCE ▸ he.tiles, hCE ▸ he.hidden, he.closed⟩

theorem window_close_zip (s : Server) (f : Focus) (hf : f.zip = s.tree) :
    (window_close D s f).2.2.zip = (window_close D s f).2.1.tree := by
  unfold window_close
  split_ifs
  · exact hf
  · exact hf
  · exact hf
  · rfl

theorem window_close_dormant (s : Server) (f : Focus) (hk : hasParent f.ctx = true) :
    Dormant (window_close D s f).2.2.ctx (window_close D s f).2.2.win := by
  unfold window_close
  split_ifs with ho hp ha
  · exact .inl (by simpa using ho)
  · exact absurd hk (by simpa using hp)
  · exact .inr (by simpa [List.any_eq_true] using ha)
  · refine .inl ?_
    have ho : f.win.is_open = true := by simpa using ho
    have ha : ∀ a ∈ ancestors f.ctx, a.is_open = true := by simpa [List.any_eq_true] using ha
    have hr : really_open f.ctx f.win = true := by
      rw [really_open, ho, Bool.true_and, List.all_eq_true]
      exact ha
    simp only [Server.setFocus, window_close_one_top hr]

theorem Visible.delete
    (h : Visible (zip k (.node w cs ns))) (hw : Dormant k w) : Visible (zip k ns) := by
  obtain ⟨hst, hsk, hsh, hk⟩ := h.pieces
  obtain ⟨-, -, hsn⟩ := sound_node.mp hst
  refine ⟨sound_zip.mpr ⟨hsn, hsk⟩, (shown_zip _ _).mpr ?_⟩
  rcases hw with hw | hw
  · rw [shown_closed hw] at hsh
    rw [roof_closed hw] at hk
    exact ⟨hsh.2.2, hk⟩
  · refine ⟨?_, ctxShown_closed hw hk⟩
    have := hsh.2.2
    rw [room_closed k hw, behind_empty] at this
    rwa [room_closed k hw]

theorem Visible.insert (h : Visible (zip k t))
    (hw : w.is_open = false) (hv : w.vis_recs = []) (hs : w.Sound) : Visible (zip k (.node w .nil t)) := by
  obtain ⟨hst, hsk, hsh, hk⟩ := h.pieces
  refine ⟨sound_zip.mpr ⟨sound_node.mpr ⟨hs, by simp [Sound, toList], hst⟩, hsk⟩, (shown_zip _ _).mpr ?_⟩
  rw [shown_closed hw, roof_closed hw]
  exact ⟨⟨hv, trivial, hsh⟩, hk⟩

theorem Visible.recs_perm {l : List Rec}
    (h : Visible (zip k (.node w cs ns))) (hl : w.vis_recs.Perm l) :
    Visible (zip k (.node { w with vis_recs := l } cs ns)) := by
  obtain ⟨hst, hsk, ⟨he, hc, hn⟩, hk⟩ := h.pieces
  obtain ⟨hsw, hsc, hsn⟩ := sound_node.mp hst
  refine ⟨sound_zip.mpr ⟨sound_node.mpr ⟨⟨hsw.proper, hsw.work_sub⟩, hsc, hsn⟩, hsk⟩,
    (shown_zip _ _).mpr ⟨⟨⟨?_, he.hidden, ?_⟩, hc, hn⟩, ?_⟩⟩
  · exact fun ho => (he.tiles ho).perm hl
  · intro ho
    have := he.closed ho
    rw [this] at hl
    exact hl.nil_eq.symm
  · rw [roof_node] at hk ⊢
    exact hk

theorem rectToFront_perm {x y : Int} {l l' : List Rec} (h : rectToFront x y l = some l') : l.Perm l' := by
  obtain ⟨r, hr, rfl⟩ := Option.map_eq_some_iff.mp h
  clear h
  induction l with
  | nil => simp at hr
  | cons a l ih =>
    cases ha : rect_cont_point a x y with
    | true =>
      rw [List.find?_cons_of_pos (by simpa using ha), Option.some.injEq] at hr
      rw [List.eraseP_cons_of_pos (by simpa using ha), hr]
    | false =>
      rw [List.find?_cons_of_neg (by simp [ha])] at hr
      rw [List.eraseP_cons_of_neg (by simp [ha])]
      exact ((ih hr).cons a).trans (List.Perm.swap r a _)

theorem window_delete_visible (s : Server) (f : Focus) (hf : f.zip = s.tree)
    (hv : Visible s.tree) : Visible (window_delete D s f).2.tree := by
  unfold window_delete
  split_ifs with hk ho
  · exact hv
  · have hvc := window_close_visible D s f hf hv
    rw [← window_close_zip D s f hf] at hvc
    exact hvc.delete (window_close_dormant D s f (by simpa using hk))
  · rw [← hf] at hv
    exact hv.delete (.inl (by simpa using ho))

theorem createBitmap_work_sub (win : Window) (wwidth wheight x y : Int) :
    (createBitmap D win wwidth wheight x y).work.pts ⊆ (createBitmap D win wwidth wheight x y).pos.pts := by
  intro p hp
  have := hp
  simp only [createBitmap, Rec.mem_pts, Rec.shift] at this ⊢
  have hb : (0 : Int) ≤ if win.flags.has W_NOBORDER then 0 else BORDERWIDTH := by
    unfold BORDERWIDTH
    split_ifs <;> omega
  have ht : (0 : Int) ≤ if win.flags.has W_TITLE then
      4 + (if win.flags.has W_TITLE then (D.titleHeight : Int) else 0) else 0 := by
    split_ifs <;> omega
  omega

theorem createWindow_visible (s s' : Server) (cptr : Client) (wwidth wheight h : Int)
    (flags : Flags) (parent : Focus) (hp : parent.zip = s.tree) (hv : Visible s.tree)
    (hc : createWindow D s cptr wwidth wheight flags parent = some (h, s')) : Visible s'.tree := by
  rcases createWindow_cases hc with ⟨-, rfl⟩ | ⟨id, tab, -, -, hnew⟩
  · exact hv
  · rw [hnew.tree]
    rw [← hp] at hv
    refine Visible.insert hv rfl rfl ⟨fun ho => absurd ho (by simp [newWindow, createBitmap]), ?_⟩
    exact createBitmap_work_sub D _ wwidth wheight 0 0

end WWindowSystem
