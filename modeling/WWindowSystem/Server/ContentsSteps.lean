import WWindowSystem.Server.Contents
import WWindowSystem.Server.Root

namespace WWindowSystem

open Forest Set

variable {k : Context Window}

theorem ctx_parent (hk : hasParent k = true) :
    ∃ (l : Forest Window) (p : Window) (ns : Forest Window) (kk : Context Window), k = past (.parent p ns :: kk) l := by
  induction k with
  | nil => simp [hasParent, ancestors] at hk
  | cons c k ih =>
    cases c with
    | prev s scs =>
      obtain ⟨l, p, ns, kk, h⟩ := ih hk
      refine ⟨l.append (.node s scs .nil), p, ns, kk, ?_⟩
      rw [past_append, ← h]
      rfl
    | parent p ns => exact ⟨.nil, p, ns, k, rfl⟩

theorem onParent_past (f : Context Window → Window → Forest Window → Window) (k : Context Window)
    (l t : Forest Window) : onParent f (past k l) t = past (onParent f k (l.append t)) l := by
  induction l generalizing k t with
  | nil => rfl
  | node w cs ns _ ihn => rw [past, ihn]; rfl

theorem scanParent_past (f : Pixmap → Window → Pixmap × Window) (screen : Pixmap)
    (k : Context Window) (l : Forest Window) :
    scanParent f screen (past k l) = ((scanParent f screen k).1, past (scanParent f screen k).2 l) := by
  induction l generalizing k with
  | nil => rfl
  | node w cs ns _ ihn => rw [past, ihn]; rfl

def others (l ns : Forest Window) (kk : Context Window) : List Window :=
  l.toList ++ (ns.toList ++ around kk)

theorem toList_focus (kk : Context Window) (p w : Window) (l cs ns ns' : Forest Window) :
    (zip (past (.parent p ns' :: kk) l) (.node w cs ns)).toList.Perm
      ((w :: cs.toList) ++ (ns.toList ++ (p :: others l ns' kk))) := by
  rw [zip_past, zip]
  refine (toList_zip _ _).trans ?_
  have h : ((p :: l.toList) ++ (w :: (cs.toList ++ ns.toList))).Perm
      ((w :: (cs.toList ++ ns.toList)) ++ (p :: l.toList)) := List.perm_append_comm
  have h' := h.append_right (ns'.toList ++ around kk)
  simpa only [toList, toList_append, others, List.cons_append, List.append_assoc] using h'

def Painted (g : Nat → Pixmap) (s : Server) : Prop := ∀ w ∈ s.tree.toList, HoldsReal g s.screen w

variable {kk : Context Window}

theorem forall_focus {P : Window → Prop} {p w : Window} {l cs ns ns' : Forest Window} :
    (∀ v ∈ (zip (past (.parent p ns' :: kk) l) (.node w cs ns)).toList, P v) ↔
      (P w ∧ ∀ v ∈ cs.toList, P v) ∧ (∀ v ∈ ns.toList, P v) ∧ P p ∧ ∀ v ∈ others l ns' kk, P v := by
  have h := toList_focus kk p w l cs ns ns'
  simp only [h.mem_iff, List.forall_mem_append, List.forall_mem_cons]

theorem focus_shown {p w : Window} {l cs ns ns' : Forest Window}
    (h : Visible (zip (past (.parent p ns' :: kk) l) (.node w cs ns))) :
    Exact (room kk) p (roof (l.append (.node w cs ns))) ∧ Exact (room (past (.parent p ns' :: kk) l)) w (roof cs) ∧
      Shown (inside (room (past (.parent p ns' :: kk) l)) w) cs ∧
      Shown (behind (room (past (.parent p ns' :: kk) l)) w) ns := by
  obtain ⟨-, hsh⟩ := h
  obtain ⟨h1, -⟩ := (shown_zip _ _).mp hsh
  rw [zip_past, zip] at hsh
  obtain ⟨⟨hp, -⟩, -⟩ := (shown_zip _ _).mp hsh
  exact ⟨hp, h1.1, h1.2.1, h1.2.2⟩

theorem focus_separate {p w : Window} {l cs ns ns' : Forest Window}
    (h : Visible (zip (past (.parent p ns' :: kk) l) (.node w cs ns))) :
    Separate Window.vis ((w :: cs.toList) ++ (ns.toList ++ (p :: others l ns' kk))) :=
  (shown_separate h.sound h.shown).perm (toList_focus kk p w l cs ns ns')

theorem client_do_open_screen (s : Server) (w : Window) : (client_do_open s w).screen = s.screen := by
  unfold client_do_open Server.updateClient
  dsimp only
  split <;> split <;> rfl

theorem client_do_close_screen (s : Server) (w : Window) : (client_do_close s w).screen = s.screen := by
  unfold client_do_close Server.updateClient
  dsimp only
  split <;> split <;> split <;> split <;> rfl

theorem foldl_screen {f : Server → Window → Server} (hf : ∀ s w, (f s w).screen = s.screen)
    (l : List Window) (s : Server) : (l.foldl f s).screen = s.screen := by
  induction l generalizing s with
  | nil => rfl
  | cons w l ih => rw [List.foldl_cons, ih, hf]

theorem scanTree_list (D : Driver) (rects : List Rec) (screen : Pixmap) (w : Window) (cs : Forest Window) :
    (scanTree (window_redraw_contents_rect D rects) screen w cs).1 =
        (scanList (window_redraw_contents_rect D rects) screen (w :: cs.toList)).1 ∧
      (scanTree (window_redraw_contents_rect D rects) screen w cs).2.1 ::
          (scanTree (window_redraw_contents_rect D rects) screen w cs).2.2.toList =
        (scanList (window_redraw_contents_rect D rects) screen (w :: cs.toList)).2 := by
  obtain ⟨h1, h2⟩ := scan_toList (window_redraw_contents_rect D rects)
    (window_redraw_contents_rect D rects screen w).1 cs
  exact ⟨h1, congrArg _ h2⟩

variable {p p' : Window}

theorem room_parent_congr (hf : p'.frame = p.frame) (ns : Forest Window)
    (kk : Context Window) (l : Forest Window) :
    room (past (.parent p' ns :: kk) l) = room (past (.parent p ns :: kk) l) := by
  rw [room_past, room_past, room_parent, room_parent, inside_congr hf]

variable {rect : Rec} {screen : Pixmap}

theorem frame_of_core_save
    (h : p'.core = (window_save_contents screen rect p).core) : p'.frame = p.frame := by
  have hg := window_save_contents_geom screen rect p
  simp only [Window.geom, Prod.mk.injEq] at hg
  exact (frame_of_core h).trans hg.1

variable {t t' : Forest Window}

theorem roof_of_core_save
    (h : t'.map Window.core = (t.map (window_save_contents screen rect)).map Window.core) : roof t' = roof t := by
  have h1 := congrArg (Forest.map Window.frame) h
  rw [map_map, map_map] at h1
  exact (roof_congr h1).trans (roof_congr (frame_of_geom (map_save_geom screen rect t)))

variable {g : Nat → Pixmap}

theorem stored_of_unseen {t : Forest Window} (hs : Sound t)
    (ht : Shown ∅ t) (h : ∀ w ∈ t.toList, HoldsReal g screen w) : ∀ w ∈ t.toList, Stored g w := by
  intro w hw hb
  have hv : w.vis = ∅ := by
    apply subset_empty_iff.mp
    exact fun q hq => (vis_subset hs ht w hw hq).1
  exact ⟨(h w hw hb).fresh_of_unseen (shown_fit ht w hw) (hs w hw) hv, (h w hw hb).dirty⟩

variable {l cs tcs ns tns ns' : Forest Window} {R : Rec}

theorem open_ready {p pw w tw : Window}
    (hR : tw.pos = R)
    (h : Visible (zip (past (.parent p ns' :: kk) l) (.node w cs ns)))
    (hT : Visible (zip (past (.parent pw ns' :: kk) l) (.node tw tcs tns)))
    (hg : ∀ v ∈ (zip (past (.parent p ns' :: kk) l) (.node w cs ns)).toList, HoldsReal g screen v)
    (hw : w.is_open = false) (htw : tw.is_open = true) (hstw : tw.store = w.store)
    (hstc : tcs.map Window.store = cs.map Window.store)
    (hcn : tns.map Window.core = (ns.map (window_save_contents screen R)).map Window.core)
    (hcp : pw.core = (window_save_contents screen R p).core) : (∀ v ∈ tw :: tcs.toList, Ready g [R] screen v) ∧
      ∀ v ∈ tns.toList ++ (pw :: others l ns' kk), HoldsReal g screen v := by
  subst hR
  obtain ⟨⟨hgw, hgc⟩, hgn, hgp, hgo⟩ := forall_focus.mp hg
  obtain ⟨-, hsc, hsn⟩ := sound_node.mp (sound_zip.mp h.sound).1
  obtain ⟨hstw', hstc', -⟩ := sound_node.mp (sound_zip.mp hT.sound).1
  obtain ⟨hp, -, hshc, hshn⟩ := focus_shown h
  obtain ⟨hp', hew', hshc', hshn'⟩ := focus_shown hT
  have hfp := frame_of_core_save hcp
  rw [room_parent_congr hfp] at hew' hshc' hshn'
  generalize room (past (.parent p ns' :: kk) l) = B at hshc hshn hew' hshc' hshn'
  have hU := coverage_single tw.pos
  rw [inside, hw, if_neg (by simp)] at hshc
  rw [behind, hw, if_neg (by simp)] at hshn
  rw [inside, if_pos htw] at hshc'
  rw [behind, if_pos htw] at hshn'
  constructor
  · refine List.forall_mem_cons.mpr ⟨?_, ?_⟩
    · refine Stored.ready screen ?_ hew'.fit (hU ▸ hew'.fit.sub)
      refine Stored.store (w := w) (fun hb => ?_) hstw
      exact ⟨(hgw hb).stored (.inl hw), (hgw hb).dirty⟩
    · intro v hv
      refine (stored_map hstc (stored_of_unseen hsc hshc hgc) v hv).ready screen
        (shown_fit hshc' v hv) fun q hq => ?_
      rw [hU]
      exact hstw'.work_sub (vis_subset hstc' hshc' v hv hq).1.2
  · refine List.forall_mem_append.mpr ⟨?_, List.forall_mem_cons.mpr ⟨?_, hgo⟩⟩
    · refine holds_behind (L := tw.pos.pts) hcn (hshn.congr (map_save_geom screen tw.pos ns).symm)
        hshn' sdiff_subset ?_ (map_save_guarded tw.pos hshn hgn)
      intro q hq
      by_cases hqU : q ∈ tw.pos.pts
      · exact .inr hqU
      · exact .inl ⟨hq, hqU⟩
    · have hroof : roof (l.append (.node tw tcs tns)) =
          roof (l.append (.node w cs ns)) ∪ tw.pos.pts := by
        simp only [roof_append, roof_node, hw, htw, if_true, Bool.false_eq_true, if_false,
          roof_of_core_save hcn, empty_union]
        rw [union_comm tw.pos.pts, union_assoc]
      have hps := hp.congr (window_save_contents_geom screen tw.pos p).symm
      refine (parent_reshaped (G := ∅) (L := tw.pos.pts) hcp hps hp' ?_ ?_).holdsReal
        (save_guarded tw.pos hgp hp.fit)
      · rw [hroof, union_empty]
        exact subset_union_left
      · rw [hroof]

variable {w : Window}

theorem Stored.holds (h : Stored g w) (hf : Fit w)
    (hs : w.Sound) (hv : w.vis = ∅) : HoldsReal g screen w := by
  intro hb
  obtain ⟨h1, h2⟩ := h hb
  refine ⟨fun q hq => absurd (hv ▸ hq : q ∈ (∅ : Set Point)) (notMem_empty q), ?_, fun _ => h1, h2⟩
  intro ho hh
  have := hf.shown ho hh
  rw [hv] at this
  exact absurd this.symm.subset (hs.not_subset_empty ho)

variable {top_win : Nat}

theorem close_one_stored
    (cs : Forest Window) (h : HoldsReal g screen w) (hf : Fit w) (hs : w.Sound)
    (hk : ¬ (∀ a ∈ ancestors k, a.is_open = true) → w.vis = ∅) : Stored g (window_close_one screen top_win k w cs) := by
  by_cases hr : really_open k w = true
  · have hst : (window_close_one screen top_win k w cs).store =
        (window_save_contents screen w.pos w).store := by
      simp only [window_close_one, hr, Bool.not_true, Bool.false_eq_true, if_false]
      split_ifs <;> rfl
    refine Stored.store (fun hb => ?_) hst
    have hb := save_backing.mp hb
    exact ⟨save_fresh w.pos hb (h hb) hf hs hf.sub, (window_save_contents_spec w.pos hb (h hb) hf).1.dirty⟩
  · have hw : window_close_one screen top_win k w cs = w := by
      simp [window_close_one, hr]
    rw [hw]
    intro hb
    refine ⟨(h hb).fresh_of_unseen hf hs ?_, (h hb).dirty⟩
    cases ho : w.is_open with
    | false => exact hf.closed ho
    | true =>
      apply hk
      intro ha
      rw [really_open, ho, Bool.true_and, List.all_eq_true] at hr
      exact hr ha

theorem post_close_stored {A : Set Point}
    {t : Forest Window} (k : Context Window) (hs : Sound t) (ht : Shown A t)
    (hA : ¬ (∀ a ∈ ancestors k, a.is_open = true) → A = ∅) (h : ∀ w ∈ t.toList, HoldsReal g screen w) :
    ∀ w ∈ (t.post (window_close_one screen top_win) k).toList, Stored g w := by
  induction t generalizing A k with
  | nil => exact fun w hw => absurd hw List.not_mem_nil
  | node w cs ns ihc ihn =>
    obtain ⟨hw, hc, hn⟩ := sound_node.mp hs
    obtain ⟨he, htc, htn⟩ := id ht
    simp only [toList, List.forall_mem_cons, List.forall_mem_append] at h
    obtain ⟨hgw, hgc, hgn⟩ := h
    rw [Forest.post, toList]
    refine List.forall_mem_cons.mpr ⟨?_, List.forall_mem_append.mpr ⟨?_, ?_⟩⟩
    · apply close_one_stored _ hgw he.fit hw
      intro hno
      apply subset_empty_iff.mp
      rw [← hA hno]
      exact fun q hq => (vis_subset hs ht w List.mem_cons_self hq).1
    · refine ihc _ hc htc (fun hno => ?_) hgc
      cases ho : w.is_open with
      | false => simp [inside, ho]
      | true =>
        have := hA fun h => hno (List.forall_mem_cons.mpr ⟨ho, h⟩)
        rw [this, inside_empty]
    · refine ihn _ hn htn (fun hno => ?_) hgn
      rw [hA hno, behind_empty]

def Unsaved (p : Window) (rect : Rec) : Prop :=
  p.backing = .real ∧ p.is_open = true ∧ p.is_hidden = false ∧ p.is_dirty = true ∧
    ∃ q, q ∈ p.pos.pts ∧ q ∈ rect.pts

theorem fresh_of_saved {p : Window}
    (h : HoldsReal g screen p) (hf : Fit p) (hu : ¬ Unsaved p rect) (hb : p.backing = .real)
    (hq : ∃ q ∈ p.vis, q ∈ rect.pts) : Fresh g p := by
  obtain ⟨q, hqv, hqr⟩ := hq
  apply (h hb).stored
  by_contra hst
  simp only [not_or, Bool.not_eq_false, Bool.not_eq_true] at hst
  obtain ⟨ho, hh, hd⟩ := hst
  exact hu ⟨hb, ho, hh, hd, q, hf.sub hqv, hqr⟩

theorem close_ready {p pw w tw : Window}
    (hR : R = w.pos)
    (h : Visible (zip (past (.parent p ns' :: kk) l) (.node w cs ns)))
    (hT : Visible (zip (past (.parent pw ns' :: kk) l) (.node tw tcs tns)))
    (hg : ∀ v ∈ (zip (past (.parent p ns' :: kk) l) (.node w cs ns)).toList, HoldsReal g screen v)
    (hw : w.is_open = true) (htw : tw.is_open = false) (hstw : Stored g tw)
    (hstc : ∀ v ∈ tcs.toList, Stored g v) (hcn : tns.map Window.core = ns.map Window.core)
    (hcp : pw.core = p.core) (hu : ¬ Unsaved p w.pos) : (∀ v ∈ tns.toList ++ [pw], Ready g [R] screen v) ∧
      ∀ v ∈ (tw :: tcs.toList) ++ others l ns' kk, HoldsReal g screen v := by
  subst hR
  obtain ⟨-, hgn, hgp, hgo⟩ := forall_focus.mp hg
  obtain ⟨-, -, hsn⟩ := sound_node.mp (sound_zip.mp h.sound).1
  obtain ⟨hstw', hstc', -⟩ := sound_node.mp (sound_zip.mp hT.sound).1
  obtain ⟨hp, -, -, hshn⟩ := focus_shown h
  obtain ⟨hp', hew', hshc', hshn'⟩ := focus_shown hT
  have hfp := frame_of_core hcp
  rw [room_parent_congr hfp] at hew' hshc' hshn'
  generalize room (past (.parent p ns' :: kk) l) = B at hshn hew' hshc' hshn'
  have hU := coverage_single w.pos
  rw [behind, if_pos hw] at hshn
  rw [inside, htw, if_neg (by simp)] at hshc'
  rw [behind, htw, if_neg (by simp)] at hshn'
  constructor
  · refine List.forall_mem_append.mpr ⟨?_, List.forall_mem_singleton.mpr ?_⟩
    · refine ready_behind (L := ∅) hcn hsn hshn hshn' ?_ ?_ ?_ fun v hv => (hgn v hv).guarded
      · intro q hq
        rw [hU]
        by_cases hqU : q ∈ w.pos.pts
        · exact .inr hqU
        · exact .inl ⟨hq, hqU⟩
      · exact sdiff_subset.trans subset_union_left
      · rw [hU]
        exact fun q hq => hq.2
    · have hroof : roof (l.append (.node w cs ns)) =
          roof (l.append (.node tw tcs tns)) ∪ w.pos.pts := by
        have hrn : roof tns = roof ns := by
          have := congrArg (Forest.map Window.frame) hcn
          rw [map_map, map_map] at this
          exact roof_congr this
        simp only [roof_append, roof_node, hw, htw, if_true, Bool.false_eq_true, if_false, hrn,
          empty_union]
        rw [union_comm w.pos.pts, union_assoc]
      refine (parent_reshaped (G := w.pos.pts) (L := ∅) hcp hp hp' ?_ ?_).ready hgp.guarded
        (by rw [hU]) ?_
      · rw [hroof]
      · rw [hroof, union_empty]
        exact subset_union_left
      · rw [hU]
        exact fresh_of_saved hgp hp.fit hu
  · refine List.forall_mem_append.mpr ⟨List.forall_mem_cons.mpr ⟨?_, ?_⟩, hgo⟩
    · exact hstw.holds hew'.fit hstw' (hew'.fit.closed htw)
    · intro v hv
      refine (hstc v hv).holds (shown_fit hshc' v hv) (hstc' v hv) ?_
      apply subset_empty_iff.mp
      exact fun q hq => (vis_subset hstc' hshc' v hv hq).1

theorem Stored.guarded (L : Set Point)
    (h : Stored g w) (hg : HoldsReal g screen w) : Guarded g L screen w :=
  fun hb => ⟨hg hb, fun _ => (h hb).1⟩

theorem save_holdsReal (rect : Rec)
    (h : HoldsReal g screen w) (hf : Fit w) : HoldsReal g screen (window_save_contents screen rect w) :=
  fun hb => (save_guarded rect h hf hb).1

variable {A C : Set Point}

theorem save_subtree
    {cs : Forest Window} (hw : w.Sound) (hc : Sound cs) (he : Exact A w C)
    (hsh : Shown (inside A w) cs) (ho : w.is_open = true) (hgw : HoldsReal g screen w)
    (hgc : ∀ v ∈ cs.toList, HoldsReal g screen v) : Stored g (window_save_contents screen w.pos w) ∧
      ∀ v ∈ (cs.map (window_save_contents screen w.pos)).toList, Stored g v := by
  constructor
  · intro hb
    have hb := save_backing.mp hb
    exact ⟨save_fresh w.pos hb (hgw hb) he.fit hw he.fit.sub,
      (window_save_contents_spec w.pos hb (hgw hb) he.fit).1.dirty⟩
  · refine map_save_stored w.pos hc hsh (fun q hq => ?_) hgc
    rw [inside, if_pos ho] at hq
    exact hw.work_sub hq.2

theorem ready_subtree (screen : Pixmap)
    {cs : Forest Window} (hw : w.Sound) (hc : Sound cs) (he : Exact A w C)
    (hsh : Shown (inside A w) cs) (ho : w.is_open = true) (hgw : Stored g w)
    (hgc : ∀ v ∈ cs.toList, Stored g v) : ∀ v ∈ w :: cs.toList, Ready g [w.pos] screen v := by
  have hU := coverage_single w.pos
  refine List.forall_mem_cons.mpr ⟨hgw.ready screen he.fit (hU ▸ he.fit.sub), fun v hv => ?_⟩
  refine (hgc v hv).ready screen (shown_fit hsh v hv) fun q hq => ?_
  have h1 := (vis_subset hc hsh v hv hq).1
  rw [inside, if_pos ho] at h1
  rw [hU]
  exact hw.work_sub h1.2

theorem stored_core
    (hc : t'.map Window.core = t.map Window.core) (h : ∀ w ∈ t.toList, Stored g w) : ∀ w ∈ t'.toList, Stored g w := by
  intro w hw
  obtain ⟨v, hv, he⟩ := mem_of_map_eq hc w hw
  exact (h v hv).store (store_of_core he)

theorem to_top_ready {p w tw : Window}
    {l mid cs tcs ns ns' : Forest Window} (hR : R = w.pos)
    (h : Visible (zip (past (.parent p ns' :: kk) l) (.node w cs ns)))
    (hT : Visible (zip (.parent p ns' :: kk) (.node tw tcs (mid.append ns))))
    (hg : ∀ v ∈ (zip (past (.parent p ns' :: kk) l) (.node w cs ns)).toList, HoldsReal g screen v)
    (hw : w.is_open = true) (htw : tw.core = (window_save_contents screen w.pos w).core)
    (hcc : tcs.map Window.core = (cs.map (window_save_contents screen w.pos)).map Window.core)
    (hcm : mid.map Window.core = (l.map (window_save_contents screen w.pos)).map Window.core) :
    (∀ v ∈ tw :: tcs.toList, Ready g [R] screen v) ∧
      ∀ v ∈ (mid.append ns).toList ++ (p :: others .nil ns' kk), HoldsReal g screen v := by
  obtain ⟨⟨hgw, hgc⟩, hgn, hgp, hgo⟩ := forall_focus.mp hg
  obtain ⟨hgl, hgo⟩ := List.forall_mem_append.mp hgo
  obtain ⟨hsw, hsc, -⟩ := sound_node.mp (sound_zip.mp h.sound).1
  obtain ⟨hstw', hstc', -⟩ := sound_node.mp (sound_zip.mp hT.sound).1
  obtain ⟨-, hew, hshc, -⟩ := focus_shown h
  obtain ⟨-, hew', hshc', hshn'⟩ := focus_shown (l := .nil) hT
  have hshl : Shown (room (.parent p ns' :: kk)) l := by
    have := h.shown
    rw [zip_past] at this
    exact ((shown_append _ _ _).mp ((shown_zip _ _).mp this).1).1
  change Shown (behind (room (.parent p ns' :: kk)) tw) _ at hshn'
  rw [shown_append] at hshn'
  have hf := frame_of_core_save htw
  simp only [Window.frame, Prod.mk.injEq] at hf
  obtain ⟨ho, hpos, -⟩ := hf
  rw [hw] at ho
  obtain ⟨hst, hstc⟩ := save_subtree hsw hsc hew hshc hw hgw hgc
  constructor
  · rw [hR, ← hpos]
    exact ready_subtree screen hstw' hstc' hew' hshc' ho (hst.store (store_of_core htw))
      (stored_core hcc hstc)
  · rw [toList_append]
    refine List.forall_mem_append.mpr ⟨List.forall_mem_append.mpr ⟨?_, hgn⟩,
      List.forall_mem_cons.mpr ⟨hgp, hgo⟩⟩
    refine holds_behind (L := w.pos.pts) hcm (hshl.congr (map_save_geom screen w.pos l).symm)
      hshn'.1 ?_ ?_ (map_save_guarded w.pos hshl hgl)
    · rw [behind, if_pos ho]
      exact sdiff_subset
    · rw [behind, if_pos ho, hpos]
      intro q hq
      by_cases hqU : q ∈ w.pos.pts
      · exact .inr hqU
      · exact .inl ⟨hq, hqU⟩

theorem to_bottom_ready {p w tw : Window}
    (hR : R = w.pos)
    (h : Visible (zip (past (.parent p ns' :: kk) l) (.node w cs ns)))
    (hT : Visible (zip (past (.parent p ns' :: kk) (l.append tns)) (.node tw tcs .nil)))
    (hg : ∀ v ∈ (zip (past (.parent p ns' :: kk) l) (.node w cs ns)).toList, HoldsReal g screen v)
    (hw : w.is_open = true) (htw : tw.core = (window_save_contents screen w.pos w).core)
    (hcc : tcs.map Window.core = (cs.map (window_save_contents screen w.pos)).map Window.core)
    (hcn : tns.map Window.core = ns.map Window.core) : (∀ v ∈ tns.toList, Ready g [R] screen v) ∧
      ∀ v ∈ (tw :: tcs.toList) ++ (p :: others l ns' kk), HoldsReal g screen v := by
  obtain ⟨⟨hgw, hgc⟩, hgn, hgp, hgo⟩ := forall_focus.mp hg
  obtain ⟨hsw, hsc, hsn⟩ := sound_node.mp (sound_zip.mp h.sound).1
  obtain ⟨-, hew, hshc, hshn⟩ := focus_shown h
  obtain ⟨-, hew', hshc', -⟩ := focus_shown hT
  have hshn' : Shown (room (past (.parent p ns' :: kk) l)) tns := by
    have := hT.shown
    rw [zip_past, append_assoc, ← zip_past] at this
    exact ((shown_append _ _ _).mp ((shown_zip _ _).mp this).1).1
  have hroom : room (past (.parent p ns' :: kk) (l.append tns)) =
      room (past (.parent p ns' :: kk) l) \ roof tns := by
    rw [past_append, room_past]
  rw [hroom] at hew' hshc'
  generalize room (past (.parent p ns' :: kk) l) = B at hew hshc hshn hew' hshc' hshn'
  have hf := frame_of_core_save htw
  obtain ⟨hst, hstc⟩ := save_subtree hsw hsc hew hshc hw hgw hgc
  rw [hR]
  constructor
  · have hU := coverage_single w.pos
    rw [behind, if_pos hw] at hshn
    refine ready_behind (L := ∅) hcn hsn hshn hshn' ?_ ?_ ?_ fun v hv => (hgn v hv).guarded
    · intro q hq
      rw [hU]
      by_cases hqU : q ∈ w.pos.pts
      · exact .inr hqU
      · exact .inl ⟨hq, hqU⟩
    · exact sdiff_subset.trans subset_union_left
    · rw [hU]
      exact fun q hq => hq.2
  · refine List.forall_mem_append.mpr ⟨List.forall_mem_cons.mpr ⟨?_, ?_⟩,
      List.forall_mem_cons.mpr ⟨hgp, hgo⟩⟩
    · have hes := hew.congr (window_save_contents_geom screen w.pos w).symm
      rw [roof_of_core_save hcc] at hew'
      refine (exact_reshaped (G := ∅) (L := Set.univ) htw hes hew' ?_ ?_).holdsReal
        (hst.guarded Set.univ (save_holdsReal w.pos hgw hew.fit))
      · exact sdiff_subset.trans subset_union_left
      · simp
    · rw [inside_congr hf] at hshc'
      refine holds_behind (L := Set.univ) hcc (hshc.congr (map_save_geom screen w.pos cs).symm)
        hshc' ?_ (by simp) ?_
      · rw [inside, if_pos hw, inside, if_pos hw]
        exact fun q hq => ⟨hq.1.1, hq.2⟩
      · intro v hv
        have hv' := hv
        rw [toList_map] at hv'
        obtain ⟨u, hu, rfl⟩ := List.mem_map.mp hv'
        exact (hstc _ hv).guarded Set.univ (save_holdsReal w.pos (hgc u hu) (shown_fit hshc u hu))

def UnsavedMove (p : Window) (oldpos newpos : Rec) : Prop :=
  Unsaved p oldpos ∧ ∀ q, q ∈ p.pos.pts → q ∉ newpos.pts

theorem unsaved_move {p : Window} {oldpos newpos : Rec}
    (h : ¬ UnsavedMove p oldpos newpos) : ¬ Unsaved (window_save_contents screen newpos p) oldpos := by
  rintro ⟨hb, ho, hh, hd, q, hq, hqo⟩
  have hg := window_save_contents_geom screen newpos p
  simp only [Window.geom, Window.frame, Prod.mk.injEq] at hg
  obtain ⟨⟨hop, hpos, -⟩, hhid, -⟩ := hg
  rw [hop] at ho
  rw [hhid] at hh
  rw [hpos] at hq
  unfold window_save_contents at hd
  split_ifs at hd with hc hi
  exact h ⟨⟨save_backing.mp hb, ho, hh, hd, q, hq, hqo⟩, fun r hr hrn =>
    hi (rect_intersect_isSome.mpr ⟨r, hr, hrn⟩)⟩

theorem move_ready {p pw w tw : Window}
    (hR : tw.pos = R)
    (h : Visible (zip (past (.parent p ns' :: kk) l) (.node w cs ns)))
    (hT : Visible (zip (past (.parent pw ns' :: kk) l) (.node tw tcs tns)))
    (hg : ∀ v ∈ (zip (past (.parent p ns' :: kk) l) (.node w cs ns)).toList, HoldsReal g screen v)
    (hw : w.is_open = true) (htw : tw.is_open = true)
    (hcn : tns.map Window.core = (ns.map (window_save_contents screen R)).map Window.core)
    (hcp : pw.core = (window_save_contents screen R p).core) (hu : ¬ UnsavedMove p w.pos R) :
    ∀ v ∈ tns.toList ++ [pw], Ready g [w.pos] screen v := by
  subst hR
  obtain ⟨-, hgn, hgp, -⟩ := forall_focus.mp hg
  obtain ⟨-, -, hsn⟩ := sound_node.mp (sound_zip.mp h.sound).1
  obtain ⟨hp, -, -, hshn⟩ := focus_shown h
  obtain ⟨hp', -, -, hshn'⟩ := focus_shown hT
  rw [room_parent_congr (frame_of_core_save hcp)] at hshn'
  generalize room (past (.parent p ns' :: kk) l) = B at hshn hshn'
  have hU := coverage_single w.pos
  rw [behind, if_pos hw] at hshn
  rw [behind, if_pos htw] at hshn'
  refine List.forall_mem_append.mpr ⟨?_, List.forall_mem_singleton.mpr ?_⟩
  · have hsave := map_save_geom screen tw.pos ns
    refine ready_behind (L := tw.pos.pts) hcn (hsn.congr (frame_of_geom hsave.symm))
      (hshn.congr hsave.symm) hshn' ?_ ?_ ?_ (map_save_guarded tw.pos hshn hgn)
    · intro q hq
      rw [hU]
      by_cases hqU : q ∈ w.pos.pts
      · exact .inr hqU
      · exact .inl ⟨hq.1, hqU⟩
    · intro q hq
      by_cases hqU : q ∈ tw.pos.pts
      · exact .inr hqU
      · exact .inl ⟨hq.1, hqU⟩
    · rw [hU]
      exact fun q hq => hq.2
  · have hrn : roof tns = roof ns := roof_of_core_save hcn
    have hps := hp.congr (window_save_contents_geom screen tw.pos p).symm
    have hroof : ∀ q, (q ∈ roof (l.append (.node w cs ns)) ↔
        q ∈ roof l ∨ q ∈ w.pos.pts ∨ q ∈ roof ns) ∧
        (q ∈ roof (l.append (.node tw tcs tns)) ↔ q ∈ roof l ∨ q ∈ tw.pos.pts ∨ q ∈ roof ns) := by
      intro q
      simp only [roof_append, roof_node, hw, htw, if_true, hrn, mem_union, and_self]
    refine (parent_reshaped (G := w.pos.pts) (L := tw.pos.pts) hcp hps hp' ?_ ?_).ready
      (save_guarded tw.pos hgp hp.fit) (by rw [hU]) ?_
    · intro q hq
      have := hroof q
      simp only [mem_union]
      tauto
    · intro q hq
      have := hroof q
      simp only [mem_union]
      tauto
    · rw [hU]
      intro hb
      apply fresh_of_saved (save_holdsReal tw.pos hgp hp.fit) hps.fit (unsaved_move hu) hb

theorem holds_move (dx dy : Int)
    (h : HoldsReal g screen w) (hf : Fit w) (hv : w.vis ⊆ R.pts) :
    HoldsReal g (bitblk screen R.x0 R.y0 R.w R.h screen (R.x0 + dx) (R.y0 + dy)) (window_move_all dx dy w) := by
  cases ho : w.is_open with
  | false =>
    rw [window_move_all_closed ho]
    intro hb
    refine (h hb).congr fun q hq => ?_
    rw [hf.closed ho] at hq
    exact absurd hq (notMem_empty q)
  | true =>
    rw [window_move_all_open ho]
    intro hb
    obtain ⟨h1, h2, h3, h4⟩ := h hb
    refine ⟨fun q hq hd => ?_, h2, h3, h4⟩
    obtain ⟨r, hr, hqr⟩ := hq
    obtain ⟨r', hr', rfl⟩ := List.mem_map.mp hr
    have hq' : ((q.1 - dx, q.2 - dy) : Point) ∈ r'.pts := Rec.mem_shift.mp hqr
    have hqR := hv ⟨r', hr', hq'⟩
    have hdirty : ((q.1 - dx, q.2 - dy) : Point) ∉ w.dirtyPts := by
      intro hm
      apply hd
      simp only [Window.dirtyPts, Rec.mem_pts, Rec.shift] at hm ⊢
      omega
    have hs := h1 _ ⟨r', hr', hq'⟩ hdirty
    rw [Rec.mem_pts] at hqR
    rw [bitblk, if_pos (by omega)]
    have hx : q.1 - (R.x0 + dx) + R.x0 = q.1 - dx := by omega
    have hy : q.2 - (R.y0 + dy) + R.y0 = q.2 - dy := by omega
    rw [hx, hy, hs]
    simp only [Window.rel, Rec.shift]
    congr 2 <;> omega

theorem bitblk_off {dx dy : Int} {q : Point} (h : q ∉ (R.shift dx dy).pts) :
    bitblk screen R.x0 R.y0 R.w R.h screen (R.x0 + dx) (R.y0 + dy) q = screen q := by
  rw [bitblk, if_neg]
  intro hq
  apply h
  simp only [Rec.mem_pts, Rec.shift]
  omega

theorem subtree_cover {A : Set Point} {cs : Forest Window} (hs : Sound cs)
    (he : Exact A w (roof cs)) (hsh : Shown (inside A w) cs) (ho : w.is_open = true) {q : Point}
    (hA : q ∈ A) (hq : q ∈ w.pos.pts) : ∃ v ∈ w :: cs.toList, q ∈ v.vis := by
  by_cases hc : q ∈ roof cs ∧ q ∈ w.work.pts
  · have hin : q ∈ inside A w := by
      rw [inside, if_pos ho]
      exact ⟨hA, hc.2⟩
    obtain ⟨v, hv, hqv⟩ := vis_cover hs hsh hin hc.1
    exact ⟨v, List.mem_cons_of_mem _ hv, hqv⟩
  · refine ⟨w, List.mem_cons_self, ?_⟩
    rw [he.vis ho]
    exact ⟨⟨hA, hq⟩, hc⟩

theorem move_scan (D : Driver) {rects : List Rec} {screen screen' : Pixmap}
    {l behind rest : List Window} (hd : Separate Window.vis (l ++ (behind ++ rest)))
    (hframe : ∀ q, (∀ v ∈ l, q ∉ v.vis) → screen' q = screen q)
    (hl : ∀ v ∈ l, HoldsReal g screen' v) (hb : ∀ v ∈ behind, Ready g rects screen v)
    (hrest : ∀ v ∈ rest, HoldsReal g screen v) :
    ∀ v ∈ (scanList (window_redraw_contents_rect D rects) screen' behind).2 ++ (l ++ rest),
      HoldsReal g (scanList (window_redraw_contents_rect D rects) screen' behind).1 v := by
  obtain ⟨-, -, hdl⟩ := List.pairwise_append.mp hd
  have hsame : ∀ v ∈ behind ++ rest, ∀ q ∈ v.vis, screen' q = screen q := by
    intro v hv q hq
    exact hframe q fun u hu hqu => hdl u hu v hv q hqu hq
  apply painted_scan D
  · refine hd.perm ?_
    rw [← List.append_assoc, ← List.append_assoc]
    exact List.perm_append_comm.append_right rest
  · intro v hv
    refine ⟨(hb v hv).1, fun hr => ((hb v hv).2 hr).congr ?_⟩
    exact hsame v (List.mem_append_left _ hv)
  · refine List.forall_mem_append.mpr ⟨hl, fun v hv hr => (hrest v hv hr).congr ?_⟩
    exact hsame v (List.mem_append_right _ hv)

end WWindowSystem
