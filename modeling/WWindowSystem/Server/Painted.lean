import WWindowSystem.Server.ContentsSteps

namespace WWindowSystem

open Forest

variable {kk : Context Window} {p w : Window} {l cs ns ns' : Forest Window} {P : Window → Prop}

theorem forall_zip :
    (∀ v ∈ (zip (past (.parent p ns' :: kk) l) (.node w cs ns)).toList, P v) ↔
      ∀ v ∈ (w :: cs.toList) ++ (ns.toList ++ (p :: others l ns' kk)), P v := by
  have h := toList_focus kk p w l cs ns ns'
  simp only [h.mem_iff]

theorem forall_perm {l m : List Window} (h : l.Perm m) : (∀ v ∈ l, P v) ↔ ∀ v ∈ m, P v := by
  simp only [h.mem_iff]

variable (recs : List Rec)

theorem visitTree_core (k : Context Window) (w : Window) (cs ns : Forest Window) :
    (visitTree (window_rebuild_recs recs) k w cs ns).1.core = w.core ∧
      (visitTree (window_rebuild_recs recs) k w cs ns).2.map Window.core = cs.map Window.core := by
  refine ⟨window_rebuild_recs_core recs k w cs, ?_⟩
  unfold visitTree
  dsimp only
  split_ifs
  · rfl
  · exact visit_rebuild_core _ _ _

theorem store_of_core_map {t u : Forest Window} (h : t.map Window.core = u.map Window.core) :
    t.map Window.store = u.map Window.store := by
  induction t generalizing u with
  | nil =>
    cases u with
    | nil => rfl
    | node => simp [Forest.map] at h
  | node w cs ns ihc ihn =>
    cases u with
    | nil => simp [Forest.map] at h
    | node v ds ms =>
      simp only [Forest.map, node.injEq] at h ⊢
      exact ⟨store_of_core h.1, ihc h.2.1, ihn h.2.2⟩

theorem visitTree_frame (k : Context Window) (w : Window) (cs ns : Forest Window) :
    (visitTree (window_rebuild_recs recs) k w cs ns).1.frame = w.frame :=
  window_rebuild_recs_frame recs k w cs

theorem open_of_frame {w v : Window} (h : w.frame = v.frame) : w.is_open = v.is_open :=
  congrArg Prod.fst h

theorem pos_of_frame {w v : Window} (h : w.frame = v.frame) : w.pos = v.pos :=
  congrArg (fun p => p.2.1) h

variable {rects : List Rec} {g : Nat → Pixmap} {screen : Pixmap} (D : Driver)

theorem painted_subtree
    (h : Visible (zip (past (.parent p ns' :: kk) l) (.node w cs ns)))
    (hr : (∀ v ∈ w :: cs.toList, Ready g rects screen v) ∧
      ∀ v ∈ ns.toList ++ (p :: others l ns' kk), HoldsReal g screen v) : ∀ v ∈ (zip (past (.parent p ns' :: kk) l)
        (.node (scanTree (window_redraw_contents_rect D rects) screen w cs).2.1
          (scanTree (window_redraw_contents_rect D rects) screen w cs).2.2 ns)).toList,
      HoldsReal g (scanTree (window_redraw_contents_rect D rects) screen w cs).1 v := by
  obtain ⟨h1, h2⟩ := scanTree_list D rects screen w cs
  rw [forall_zip, h1, h2]
  exact painted_scan D (focus_separate h) hr.1 hr.2

theorem openAt_store (x y : Int) (w : Window) : (openAt x y w).store = w.store := rfl

theorem window_open_painted (g : Nat → Pixmap) (s : Server) (f : Focus) (x y : Int)
    (hf : f.zip = s.tree) (hv : Visible s.tree) (hp : f.win.pos.Proper) (hg : Painted g s) :
    Painted g (window_open D s f x y).2.1 := by
  by_cases ho : f.win.is_open = true
  · rw [window_open, if_pos ho]
    exact hg
  by_cases hk : hasParent f.ctx = true
  · have hT := window_open_visible D s f x y hf hv hp
    unfold window_open at hT ⊢
    rw [if_neg ho, if_neg (by simp [hk])] at hT ⊢
    obtain ⟨k, w, cs, ns⟩ := f
    obtain ⟨l, p, ns', kk, rfl⟩ := ctx_parent hk
    have ho : w.is_open = false := by simpa using ho
    have htree : s.tree = zip (past (.parent p ns' :: kk) l) (.node w cs ns) := hf.symm
    unfold Painted at hg
    rw [htree] at hv hg
    simp only [Server.setFocus, Focus.zip, onParent_past, onParent, Painted,
      foldl_screen client_do_open_screen] at hT ⊢
    replace hT := hT.congr (scanTree_redraw_geom D _ _ _ _ _ _)
    apply painted_subtree D hT
    apply open_ready _ hv hT hg ho
    · exact open_of_frame (visitTree_frame _ _ _ _ _)
    · exact (store_of_core (visitTree_core _ _ _ _ _).1).trans (openAt_store x y w)
    · rw [store_of_core_map (visitTree_core _ _ _ _ _).2, map_map]
      exact map_congr (window_move_one_store _ _) cs
    · exact visit_rebuild_core _ _ _
    · exact window_rebuild_recs_core _ _ _ _
    · exact pos_of_frame (visitTree_frame _ _ _ _ _)
  · rw [window_open, if_neg ho, if_pos (by simp [hk])]
    exact hg

theorem scanParent_list (rects : List Rec) (screen : Pixmap) (ns : Forest Window) (p : Window) :
    (window_redraw_contents_rect D rects (ns.scan (window_redraw_contents_rect D rects) screen).1 p).1 =
        (scanList (window_redraw_contents_rect D rects) screen (ns.toList ++ [p])).1 ∧
      (ns.scan (window_redraw_contents_rect D rects) screen).2.toList ++ [(window_redraw_contents_rect D rects
            (ns.scan (window_redraw_contents_rect D rects) screen).1 p).2] =
        (scanList (window_redraw_contents_rect D rects) screen (ns.toList ++ [p])).2 := by
  obtain ⟨h1, h2⟩ := scan_toList (window_redraw_contents_rect D rects) screen ns
  rw [scanList_append, h1, h2]
  exact ⟨rfl, rfl⟩

theorem behind_perm (a b c : List Window) (p : Window) : (a ++ (b ++ p :: c)).Perm ((b ++ [p]) ++ (a ++ c)) := by
  have h : (a ++ (b ++ [p]) ++ c).Perm (b ++ [p] ++ a ++ c) := List.perm_append_comm.append_right c
  simpa only [List.append_assoc, List.cons_append, List.nil_append] using h

theorem behind_redraw_geom (rects : List Rec) (screen screen' : Pixmap)
    (kk : Context Window) (p : Window) (l ns' : Forest Window) (w : Window) (cs ns : Forest Window) :
    (zip (past (.parent (window_redraw_contents_rect D rects screen' p).2 ns' :: kk) l)
        (.node w cs (ns.scan (window_redraw_contents_rect D rects) screen).2)).map Window.geom =
      (zip (past (.parent p ns' :: kk) l) (.node w cs ns)).map Window.geom := by
  simp only [map_zip, mapCtx_past, mapCtx, Forest.map, scan_redraw_geom, window_redraw_geom]

theorem painted_behind
    (h : ∀ v ∈ (scanList (window_redraw_contents_rect D rects) screen (ns.toList ++ [p])).2 ++
      ((w :: cs.toList) ++ others l ns' kk), HoldsReal g
        (scanList (window_redraw_contents_rect D rects) screen (ns.toList ++ [p])).1 v) :
    ∀ v ∈ (zip (past (.parent (window_redraw_contents_rect D rects
          (ns.scan (window_redraw_contents_rect D rects) screen).1 p).2 ns' :: kk) l)
        (.node w cs (ns.scan (window_redraw_contents_rect D rects) screen).2)).toList,
      HoldsReal g (window_redraw_contents_rect D rects
        (ns.scan (window_redraw_contents_rect D rects) screen).1 p).1 v := by
  obtain ⟨h1, h2⟩ := scanParent_list D rects screen ns p
  rw [← h1, ← h2] at h
  simp only [List.forall_mem_append, List.forall_mem_cons] at h
  obtain ⟨⟨hns, hp, -⟩, ⟨hw, hcs⟩, ho⟩ := h
  exact forall_focus.mpr ⟨⟨hw, hcs⟩, hns, hp, ho⟩

theorem window_close_painted (g : Nat → Pixmap) (s : Server) (f : Focus)
    (hf : f.zip = s.tree) (hv : Visible s.tree) (hg : Painted g s)
    (hu : f.win.is_open = true → ∀ p ∈ (ancestors f.ctx).head?, ¬ Unsaved p f.win.pos) :
    Painted g (window_close D s f).2.1 := by
  by_cases ho : f.win.is_open = true
  swap
  · rw [window_close, if_pos (by simpa using ho)]
    exact hg
  by_cases hk : hasParent f.ctx = true
  swap
  · rw [window_close, if_neg (by simp [ho]), if_pos (by simp [hk])]
    exact hg
  by_cases ha : ∀ a ∈ ancestors f.ctx, a.is_open = true
  swap
  · rw [window_close, if_neg (by simp [ho]), if_neg (by simp [hk]), if_pos]
    · exact hg
    · simpa [List.any_eq_true] using ha
  have hT := window_close_visible D s f hf hv
  unfold window_close at hT ⊢
  have hany : ¬ ((ancestors f.ctx).any fun wp => !wp.is_open) = true := by
    simpa [List.any_eq_true] using ha
  rw [if_neg (by simp [ho]), if_neg (by simp [hk]), if_neg hany] at hT ⊢
  obtain ⟨k, w, cs, ns⟩ := f
  obtain ⟨l, p, ns', kk, rfl⟩ := ctx_parent hk
  have htree : s.tree = zip (past (.parent p ns' :: kk) l) (.node w cs ns) := hf.symm
  have hroot : (ancestors (past (Crumb.parent p ns' :: kk) l)).head? = some p := by
    rw [ancestors_past]
    rfl
  have hu := hu ho p (by rw [hroot]; rfl)
  change w.is_open = true at ho
  change ∀ a ∈ ancestors (past (.parent p ns' :: kk) l), a.is_open = true at ha
  unfold Painted at hg
  rw [htree] at hv hg
  simp only [Server.setFocus, Focus.zip, onParent_past, onParent, scanParent_past, scanParent, Painted,
    foldl_screen client_do_close_screen] at hT ⊢
  replace hT := hT.congr (behind_redraw_geom D _ _ _ _ _ _ _ _ _ _)
  obtain ⟨hsw, hsc, -⟩ := sound_node.mp (sound_zip.mp hv.sound).1
  obtain ⟨-, hew, hshc, -⟩ := focus_shown hv
  obtain ⟨⟨hgw, hgc⟩, -⟩ := forall_focus.mp hg
  have hr : really_open (past (.parent p ns' :: kk) l) w = true := by
    rw [really_open, ho, Bool.true_and, List.all_eq_true]
    exact ha
  have hgeom := window_save_contents_geom s.screen w.pos w
  simp only [Window.geom, Window.frame, Prod.mk.injEq] at hgeom
  have hpos : (window_close_one s.screen w.id (past (.parent p ns' :: kk) l) w
      (cs.post (window_close_one s.screen w.id)
        (.parent w ns :: past (.parent p ns' :: kk) l))).pos = w.pos := by
    rw [window_close_one_top hr]
    exact hgeom.1.2.1
  obtain ⟨h1, h2⟩ := close_ready hpos hv hT hg ho (by rw [window_close_one_top hr])
    (close_one_stored _ hgw hew.fit hsw fun hno => absurd ha hno)
    (post_close_stored _ hsc hshc (fun hno => (hno (List.forall_mem_cons.mpr ⟨ho, ha⟩)).elim) hgc)
    (visit_rebuild_core _ _ _) (window_rebuild_recs_core _ _ _ _) hu
  apply painted_behind D
  apply painted_scan D _ h1 h2
  exact (focus_separate hT).perm (behind_perm _ _ _ _)

theorem detach_parent (l : Forest Window) (p : Window) (ns' : Forest Window) (kk : Context Window) (t : Forest Window) :
    detach (past (.parent p ns' :: kk) l) t = (l.append t, .parent p ns' :: kk) := by
  have key : ∀ (m : Forest Window) (k : Context Window),
      detach (past k m) t = detach k (m.append t) := by
    intro m
    induction m generalizing t with
    | nil => exact fun _ => rfl
    | node w cs ns _ ihn =>
      intro k
      rw [past, ihn]
      rfl
  rw [key]
  rfl

theorem past_prev (k : Context Window) {l : Forest Window} (hl : l ≠ .nil) :
    ∃ c ccs k', past k l = .prev c ccs :: k' := by
  induction l generalizing k with
  | nil => exact absurd rfl hl
  | node v vs ms _ ihn =>
    cases ms with
    | nil => exact ⟨v, vs, k, rfl⟩
    | node u us os => exact ihn _ (by simp)

theorem painted_perm {s s' : Server} (hs : s'.screen = s.screen)
    (ht : s'.tree.toList.Perm s.tree.toList) (h : Painted g s) : Painted g s' := by
  intro w hw
  rw [hs]
  exact h w (ht.mem_iff.mp hw)

theorem window_to_top_painted (g : Nat → Pixmap) (s : Server) (f : Focus)
    (hf : f.zip = s.tree) (hv : Visible s.tree) (hg : Painted g s) : Painted g (window_to_top D s f).2.1 := by
  have hT := window_to_top_visible D s f hf hv
  unfold window_to_top at hT ⊢
  by_cases hk : hasParent f.ctx = true
  swap
  · rw [if_pos (by simp [hk])]
    exact hg
  rw [if_neg (by simp [hk])] at hT ⊢
  obtain ⟨k, w, cs, ns⟩ := f
  obtain ⟨l, p, ns', kk, rfl⟩ := ctx_parent hk
  have htree : s.tree = zip (past (.parent p ns' :: kk) l) (.node w cs ns) := hf.symm
  by_cases hl : l = .nil
  · subst hl
    exact hg
  · obtain ⟨c, ccs, k', hprev⟩ := past_prev (.parent p ns' :: kk) hl
    have hd := detach_parent l p ns' kk .nil
    rw [append_nil] at hd
    simp only [hprev] at hT ⊢
    rw [← hprev, hd] at hT ⊢
    cases ho : w.is_open with
    | false =>
      rw [if_pos (by simp)]
      refine painted_perm (s := s) rfl ?_ hg
      simp only [Server.setFocus, Focus.zip, htree, zip_past]
      exact zip_append_perm _ _ _ _ _
    | true =>
      rw [if_neg (by simp [ho])] at hT ⊢
      unfold Painted at hg
      rw [htree] at hv hg
      simp only [Server.setFocus, Focus.zip, Painted] at hT ⊢
      replace hT := hT.congr (scanTree_redraw_geom D _ _ _ _ _ _)
      have hframe := window_save_contents_geom s.screen w.pos w
      simp only [Window.geom, Window.frame, Prod.mk.injEq] at hframe
      apply painted_subtree (l := .nil) D hT
      apply to_top_ready _ hv hT hg ho
      · exact (visitTree_core _ _ _ _ _).1
      · exact (visitTree_core _ _ _ _ _).2
      · exact visit_rebuild_core _ _ _
      · exact hframe.1.2.1

theorem front_perm (a : List Window) (p : Window) (l n ns : Forest Window) (kk : Context Window) :
    (a ++ ((nil : Forest Window).toList ++ (p :: others (l.append n) ns kk))).Perm
      (n.toList ++ (a ++ (p :: others l ns kk))) := by
  have h1 : ((p :: l.toList) ++ n.toList ++ (ns.toList ++ around kk)).Perm
      (n.toList ++ (p :: l.toList) ++ (ns.toList ++ around kk)) :=
    List.perm_append_comm.append_right _
  have h2 : (a ++ n.toList ++ ((p :: l.toList) ++ (ns.toList ++ around kk))).Perm
      (n.toList ++ a ++ ((p :: l.toList) ++ (ns.toList ++ around kk))) :=
    List.perm_append_comm.append_right _
  have h3 := (h1.append_left a).trans (by simpa only [List.append_assoc] using h2)
  simpa only [others, toList_append, toList, List.append_assoc, List.cons_append, List.nil_append]
    using h3

theorem painted_front
    (h : ∀ v ∈ (scanList (window_redraw_contents_rect D rects) screen ns.toList).2 ++
      ((w :: cs.toList) ++ (p :: others l ns' kk)), HoldsReal g
        (scanList (window_redraw_contents_rect D rects) screen ns.toList).1 v) : ∀ v ∈ (zip (past (.parent p ns' :: kk)
          (l.append (ns.scan (window_redraw_contents_rect D rects) screen).2)) (.node w cs .nil)).toList,
      HoldsReal g (ns.scan (window_redraw_contents_rect D rects) screen).1 v := by
  obtain ⟨h1, h2⟩ := scan_toList (window_redraw_contents_rect D rects) screen ns
  rw [forall_zip, forall_perm (front_perm _ _ _ _ _ _), h1, h2]
  exact h

theorem front_redraw_geom (rects : List Rec) (screen : Pixmap) (k : Context Window)
    (l t ns : Forest Window) : (zip (past k (l.append (ns.scan (window_redraw_contents_rect D rects) screen).2)) t).map
        Window.geom = (zip (past k (l.append ns)) t).map Window.geom := by
  simp only [map_zip, mapCtx_past, map_append, scan_redraw_geom]

theorem window_to_bottom_painted (g : Nat → Pixmap) (s : Server) (f : Focus)
    (hf : f.zip = s.tree) (hv : Visible s.tree) (hg : Painted g s) : Painted g (window_to_bottom D s f).2.1 := by
  have hT := window_to_bottom_visible D s f hf hv
  unfold window_to_bottom at hT ⊢
  obtain ⟨k, w, cs, ns⟩ := f
  split
  · exact hg
  · rename_i next hne
    change ns = .nil → False at hne
    split at hT
    · rename_i hnil
      exact absurd hnil hne
    by_cases hk : hasParent k = true
    swap
    · rw [if_pos (by simp [hk])]
      exact hg
    rw [if_neg (by simp [hk])] at hT ⊢
    obtain ⟨l, p, ns', kk, rfl⟩ := ctx_parent hk
    have htree : s.tree = zip (past (.parent p ns' :: kk) l) (.node w cs ns) := hf.symm
    cases ho : w.is_open with
    | false =>
      rw [if_pos (by simp)]
      refine painted_perm (s := s) rfl ?_ hg
      simp only [Server.setFocus, Focus.zip, htree]
      rw [zip_past _ ns]
      have := zip_append_perm (past (.parent p ns' :: kk) l) w cs ns .nil
      rw [append_nil] at this
      exact this.symm
    | true =>
      rw [if_neg (by simp [ho])] at hT ⊢
      unfold Painted at hg
      rw [htree] at hv hg
      simp only [Server.setFocus, Focus.zip, Painted, ← past_append] at hT ⊢
      have hgeom := window_save_contents_geom s.screen w.pos w
      simp only [Window.geom, Window.frame, Prod.mk.injEq] at hgeom
      apply painted_front D
      replace hT := hT.congr (front_redraw_geom D _ _ _ _ _ _)
      obtain ⟨h1, h2⟩ := to_bottom_ready hgeom.1.2.1 hv hT hg ho (visitTree_core _ _ _ _ _).1
        (visitTree_core _ _ _ _ _).2 (visit_rebuild_core _ _ _)
      apply painted_scan D _ h1 h2
      exact (focus_separate hT).perm (front_perm _ _ _ _ _ _)

theorem scanTree_frame_eq (rects : List Rec) (screen : Pixmap) (w : Window) (cs : Forest Window) :
    (scanTree (window_redraw_contents_rect D rects) screen w cs).2.1.frame = w.frame :=
  congrArg Prod.fst (window_redraw_geom D rects screen w)

theorem scanTree_frame (rects : List Rec) (screen : Pixmap) (w : Window) (cs : Forest Window) (q : Point)
    (h : ∀ v ∈ (scanTree (window_redraw_contents_rect D rects) screen w cs).2.1 ::
      (scanTree (window_redraw_contents_rect D rects) screen w cs).2.2.toList, q ∉ v.vis) :
    (scanTree (window_redraw_contents_rect D rects) screen w cs).1 q = screen q := by
  have hg := scanTree_redraw_geom D rects screen [] w cs .nil
  rw [(scanTree_list D rects screen w cs).1]
  apply scanList_frame (window_redraw_frame D rects)
  intro v hv
  obtain ⟨u, hu, he⟩ := mem_of_map_eq hg.symm v (by simpa [zip, toList] using hv)
  rw [vis_of_geom he]
  exact h u (by simpa [zip, toList] using hu)

theorem behind_assoc (a b c : List Window) (p : Window) : (a ++ (b ++ p :: c)).Perm (a ++ ((b ++ [p]) ++ c)) := by
  simp

theorem move_copied {A C : Set Point} {w : Window}
    {cs : Forest Window} (dx dy : Int) (hw : w.Sound) (hc : Sound cs) (he : Exact A w C)
    (hsh : Shown (inside A w) cs) (ho : w.is_open = true) (hgw : HoldsReal g screen w)
    (hgc : ∀ v ∈ cs.toList, HoldsReal g screen v) : ∀ v ∈ window_move_all dx dy (window_save_contents screen w.pos w) ::
        ((cs.map (window_save_contents screen w.pos)).map (window_move_all dx dy)).toList,
      HoldsReal g (bitblk screen w.pos.x0 w.pos.y0 w.pos.w w.pos.h screen (w.pos.x0 + dx) (w.pos.y0 + dy)) v := by
  have key : ∀ v : Window, HoldsReal g screen v → Fit v → v.vis ⊆ w.pos.pts →
      HoldsReal g (bitblk screen w.pos.x0 w.pos.y0 w.pos.w w.pos.h screen (w.pos.x0 + dx)
        (w.pos.y0 + dy)) (window_move_all dx dy (window_save_contents screen w.pos v)) := by
    intro v hg hf hv
    have hgeom := window_save_contents_geom screen w.pos v
    apply holds_move dx dy (save_holdsReal w.pos hg hf) (hf.congr hgeom.symm)
    rw [vis_of_geom hgeom]
    exact hv
  refine List.forall_mem_cons.mpr ⟨key w hgw he.fit he.fit.sub, fun v hv => ?_⟩
  rw [toList_map, toList_map] at hv
  obtain ⟨u, hu, rfl⟩ := List.mem_map.mp hv
  obtain ⟨t, ht, rfl⟩ := List.mem_map.mp hu
  refine key t (hgc t ht) (shown_fit hsh t ht) fun q hq => ?_
  have h1 := (vis_subset hc hsh t ht hq).1
  rw [inside, if_pos ho] at h1
  exact hw.work_sub h1.2

theorem window_move_painted (g : Nat → Pixmap) (s : Server) (f : Focus) (x y : Int)
    (hf : f.zip = s.tree) (hv : Visible s.tree) (hg : Painted g s)
    (hu : f.win.is_open = true → ∀ p ∈ (ancestors f.ctx).head?, ¬ UnsavedMove p f.win.pos
      (f.win.pos.shift (x - f.win.pos.x0) (y - f.win.pos.y0))) : Painted g (window_move D s f x y).2.1 := by
  have hT := window_move_visible D s f x y hf hv
  unfold window_move at hT ⊢
  by_cases hk : (!f.win.is_open || !hasParent f.ctx) = true
  · rw [if_pos hk]
    exact hg
  rw [if_neg hk] at hT ⊢
  by_cases hxy : x = f.win.pos.x0 ∧ y = f.win.pos.y0
  · rw [if_pos hxy]
    exact hg
  rw [if_neg hxy] at hT ⊢
  simp only [Bool.or_eq_true, Bool.not_eq_true', not_or, Bool.not_eq_false] at hk
  obtain ⟨ho, hk⟩ := hk
  obtain ⟨k, w, cs, ns⟩ := f
  obtain ⟨l, p, ns', kk, rfl⟩ := ctx_parent hk
  change w.is_open = true at ho
  have htree : s.tree = zip (past (.parent p ns' :: kk) l) (.node w cs ns) := hf.symm
  have hu := hu ho p (by rw [ancestors_past]; rfl)
  simp only at hT hu ⊢
  generalize x - w.pos.x0 = dx at hT hu ⊢
  generalize y - w.pos.y0 = dy at hT hu ⊢
  unfold Painted at hg
  rw [htree] at hv hg
  obtain ⟨hsw, hsc, -⟩ := sound_node.mp (sound_zip.mp hv.sound).1
  obtain ⟨-, hew, hshc, -⟩ := focus_shown hv
  obtain ⟨⟨hgw, hgc⟩, -, -, hgo⟩ := forall_focus.mp hg
  have hgeom := window_save_contents_geom s.screen w.pos w
  simp only [Window.geom, Window.frame, Prod.mk.injEq] at hgeom
  have hpos : (window_move_one dx dy (window_save_contents s.screen w.pos w)).pos =
      w.pos.shift dx dy := by
    rw [window_move_one, if_pos (hgeom.1.1.trans ho), hgeom.1.2.1]
  simp only [Server.setFocus, Focus.zip, onParent_past, onParent, scanParent_past, scanParent, Painted,
    hpos] at hT ⊢
  split_ifs at hT ⊢ with hh
  · replace hT := hT.congr (behind_redraw_geom D _ _ _ _ _ _ _ _ _ _)
    have hT' := hT.congr (scanTree_redraw_geom D _ _ _ _ _ _)
    obtain ⟨hst, hstc⟩ := save_subtree hsw hsc hew hshc ho hgw hgc
    obtain ⟨hstw', hstc', -⟩ := sound_node.mp (sound_zip.mp hT'.sound).1
    obtain ⟨-, hew', hshc', -⟩ := focus_shown hT'
    have hopen : (window_move_one dx dy (window_save_contents s.screen w.pos w)).is_open = true := by
      rw [window_move_one_open]
      exact hgeom.1.1.trans ho
    have hsub := ready_subtree s.screen hstw' hstc' hew' hshc'
      ((open_of_frame (visitTree_frame _ _ _ _ _)).trans hopen)
      ((hst.store (window_move_one_store dx dy _)).store (store_of_core (visitTree_core _ _ _ _ _).1))
      (stored_core (visitTree_core _ _ _ _ _).2 (stored_map ?_ hstc))
    · rw [pos_of_frame (visitTree_frame _ _ _ _ _), hpos] at hsub
      apply painted_behind D
      apply move_scan D ((focus_separate hT).perm (behind_assoc _ _ _ _)) (scanTree_frame D _ _ _ _)
        _ (move_ready _ hv hT hg ho _ (visit_rebuild_core _ _ _) (window_rebuild_recs_core _ _ _ _) hu)
        hgo
      · obtain ⟨h1, h2⟩ := scanTree_list D [w.pos.shift dx dy] s.screen _ _
        rw [h1, h2]
        apply (redraw_local D g [w.pos.shift dx dy]).scanList
        · exact (List.pairwise_append.mp (focus_separate hT')).1
        · exact hsub
      · exact (pos_of_frame (scanTree_frame_eq D _ _ _ _)).trans
          ((pos_of_frame (visitTree_frame _ _ _ _ _)).trans hpos)
      · exact (open_of_frame (scanTree_frame_eq D _ _ _ _)).trans
          ((open_of_frame (visitTree_frame _ _ _ _ _)).trans hopen)
    · rw [map_map]
      exact map_congr (window_move_one_store dx dy) _
  · rw [Bool.or_eq_true, not_or, Bool.not_eq_true, Bool.not_eq_true] at hh
    have hroom := window_is_hidden_room hh.2
    replace hT := hT.congr (behind_redraw_geom D _ _ _ _ _ _ _ _ _ _)
    have hmap : ((cs.map (window_save_contents s.screen w.pos)).map (window_move_one dx dy)).map
        (window_move_recs dx dy) =
          (cs.map (window_save_contents s.screen w.pos)).map (window_move_all dx dy) := map_map _ _ _
    rw [hmap] at hT ⊢
    obtain ⟨-, hstc', -⟩ := sound_node.mp (sound_zip.mp hT.sound).1
    obtain ⟨-, hew', hshc', -⟩ := focus_shown hT
    have hall : window_move_all dx dy (window_save_contents s.screen w.pos w) = _ :=
      window_move_all_open (hgeom.1.1.trans ho)
    have hopen : (window_move_all dx dy (window_save_contents s.screen w.pos w)).is_open = true := by
      rw [hall]
      exact hgeom.1.1.trans ho
    have hposa : (window_move_all dx dy (window_save_contents s.screen w.pos w)).pos =
        w.pos.shift dx dy := by
      rw [hall, hgeom.1.2.1]
    apply painted_behind D
    apply move_scan D ((focus_separate hT).perm (behind_assoc _ _ _ _)) _
      (move_copied dx dy hsw hsc hew hshc ho hgw hgc)
      (move_ready hposa hv hT hg ho hopen (visit_rebuild_core _ _ _) (window_rebuild_recs_core _ _ _ _)
        hu) hgo
    intro q hq
    apply bitblk_off
    intro hqn
    have hin := hroom (hpos ▸ hqn)
    rw [room_parent_congr (frame_of_core_save rfl),
      ← room_parent_congr (frame_of_core_save (window_rebuild_recs_core _ _ _ _))] at hin
    obtain ⟨v, hvm, hqv⟩ := subtree_cover hstc' hew' hshc' hopen hin (hposa ▸ hqn)
    exact hq v hvm hqv

end WWindowSystem
