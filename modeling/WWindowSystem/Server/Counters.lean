import WWindowSystem.Server.Acts
import WWindowSystem.Server.Census

namespace WWindowSystem

open Forest

variable (P : Mark → Bool)

theorem countP_openMarks (a : List Mark) (t : Forest Mark) :
    (openMarks a t).countP P = openCount P (paths a t) := by
  rw [openMarks, List.countP_map, List.countP_filter]
  rfl

theorem openCount_zip (k : Context Mark) (t : Forest Mark) : openCount P (paths [] (zip k t)) =
      openCount P (paths (ancestors k) t) + openCount P (pathsAround k) := by
  rw [openCount, (paths_zip k t).countP_eq, List.countP_append]
  rfl

theorem totalCount_zip (k : Context Mark) (t : Forest Mark) : totalCount P (paths [] (zip k t)) =
      totalCount P (paths (ancestors k) t) + totalCount P (pathsAround k) := by
  rw [totalCount, (paths_zip k t).countP_eq, List.countP_append]
  rfl

theorem totalCount_toList (a : List Mark) (t : Forest Mark) :
    totalCount P (paths a t) = t.toList.countP P := by
  rw [← paths_fst a t, List.countP_map]
  rfl

theorem openCount_node (a : List Mark) (m : Mark) (cs ns : Forest Mark) :
    openCount P (paths a (.node m cs ns)) = openCount P (paths a (.node m cs .nil)) + openCount P (paths a ns) := by
  rw [← countP_openMarks, ← countP_openMarks, ← countP_openMarks, openMarks_node, openMarks_node,
    List.countP_append, List.countP_append]
  simp [openMarks, paths]

theorem openCount_hidden {a : List Mark} {m : Mark} (h : reallyOpen (m, a) = false)
    (cs : Forest Mark) : openCount P (paths a (.node m cs .nil)) = 0 := by
  rw [← countP_openMarks, openMarks_node, h, if_neg Bool.false_ne_true]
  simp [openMarks, paths]

def Focus.revealed (f : Focus) : List Mark :=
  openMarks (ancestors (mapCtx Window.mark f.ctx))
    (.node { f.win.mark with is_open := true } (f.childs.map Window.mark) .nil)

theorem openCount_marked (f : Focus) : openCount P (paths [] (f.marked true)) =
      openCount P (paths [] (f.marked false)) + f.revealed.countP P := by
  have hh := openCount_hidden P (a := ancestors (mapCtx Window.mark f.ctx))
    (m := { f.win.mark with is_open := false }) rfl (f.childs.map Window.mark)
  rw [Focus.marked, Focus.marked, openCount_zip, openCount_zip, openCount_node, openCount_node P _ _ _
    (f.next.map Window.mark), hh, Focus.revealed, countP_openMarks]
  omega

theorem totalCount_marked {P : Mark → Bool} (hP : ∀ m b, P { m with is_open := b } = P m) (f : Focus)
    (b c : Bool) : totalCount P (paths [] (f.marked b)) = totalCount P (paths [] (f.marked c)) := by
  rw [Focus.marked, Focus.marked, totalCount_zip, totalCount_zip, totalCount_toList, totalCount_toList]
  simp only [toList, List.countP_cons, hP]

variable {f : Focus}

theorem census_marked (h : ∀ m ∈ f.revealed, m.cptr.isSome = true) :
    census (paths [] (f.marked true)) = (census (paths [] (f.marked false))).shift 1 f.revealed := by
  have hl : f.revealed.length = f.revealed.countP fun m => m.cptr.isSome :=
    (List.countP_eq_length.mpr h).symm
  have ht := fun c => totalCount_marked (P := Mark.of c) (fun _ _ => rfl) f true false
  have hg := totalCount_marked (P := fun m => m.cptr.isSome) (fun _ _ => rfl) f true false
  simp only [census, Census.shift, openCount_marked, ht, hg, hl, Nat.cast_add, Int.one_mul]

theorem census_cut (h : reallyOpen (f.win.mark, ancestors (mapCtx Window.mark f.ctx)) = false)
    (hc : ∀ m ∈ f.subtree, m.cptr.isSome = true) :
    census (paths [] (f.marked f.win.is_open)) = (census (paths [] f.cut)).grow 1 f.subtree := by
  have ho : ∀ P, openCount P (paths [] (f.marked f.win.is_open)) = openCount P (paths [] f.cut) := by
    intro P
    have hh : openCount P (paths (ancestors (mapCtx Window.mark f.ctx)) (.node { f.win.mark with
        is_open := f.win.is_open } (f.childs.map Window.mark) .nil)) = 0 := openCount_hidden P h _
    rw [Focus.marked, Focus.cut, openCount_zip, openCount_zip, openCount_node, hh, Nat.zero_add]
  have ht : ∀ P, totalCount P (paths [] (f.marked f.win.is_open)) =
      totalCount P (paths [] f.cut) + f.subtree.countP P := by
    intro P
    have hm : { f.win.mark with is_open := f.win.is_open } = f.win.mark := rfl
    rw [Focus.marked, Focus.cut, totalCount_zip, totalCount_zip, totalCount_toList,
      totalCount_toList, hm, Focus.subtree]
    simp only [toList, List.countP_cons, List.countP_append]
    omega
  have hl : f.subtree.length = f.subtree.countP fun m => m.cptr.isSome :=
    (List.countP_eq_length.mpr hc).symm
  simp only [census, Census.grow, ho, ht, hl, Nat.cast_add, Int.one_mul]

theorem census_created (k : Context Mark) {m : Mark} (t : Forest Mark) (ho : m.is_open = false)
    (hc : m.cptr.isSome = true) :
    census (paths [] (zip k (.node m .nil t))) = (census (paths [] (zip k t))).grow 1 [m] := by
  have hopen : ∀ P, openCount P (paths [] (zip k (.node m .nil t))) =
      openCount P (paths [] (zip k t)) := by
    intro P
    have hh := openCount_hidden P (a := ancestors k) (m := m) (by rw [reallyOpen, ho]; rfl) .nil
    rw [openCount_zip, openCount_zip, openCount_node, hh, Nat.zero_add]
  have ht : ∀ P, totalCount P (paths [] (zip k (.node m .nil t))) =
      totalCount P (paths [] (zip k t)) + [m].countP P := by
    intro P
    rw [totalCount_zip, totalCount_zip, totalCount_toList, totalCount_toList]
    simp only [toList, List.countP_cons, List.nil_append, List.countP_nil]
    omega
  have hl : [m].length = [m].countP fun m => m.cptr.isSome :=
    (List.countP_eq_length.mpr (by simpa using hc)).symm
  simp only [census, Census.grow, hopen, ht, hl, Nat.cast_add, Int.one_mul]

theorem census_perm {l l' : List (Mark × List Mark)} (h : l.Perm l') : census l = census l' := by
  have ho : ∀ P, openCount P l = openCount P l' := fun _ => h.countP_eq _
  have ht : ∀ P, totalCount P l = totalCount P l' := fun _ => h.countP_eq _
  simp only [census, ho, ht]

structure Server.Counted (s : Server) : Prop extends s.Tidy where
  tally : Tally s (census (markPaths s.tree))

theorem Tally.of_eq {s s' : Server} {N : Census} (h : Tally s N) (hc : s'.clients = s.clients)
    (ho : s'.globOpenWindows = s.globOpenWindows) (ht : s'.globTotalWindows = s.globTotalWindows)
    (hm : s'.mouse_disabled = s.mouse_disabled) : Tally s' N :=
  ⟨hc ▸ h.opened, hc ▸ h.total, ho.trans h.globOpen, ht.trans h.globTotal, hm.trans h.mouse⟩

theorem Server.Counted.perm {s s' : Server} (h : s.Counted)
    (ht : (markPaths s'.tree).Perm (markPaths s.tree)) (hc : s'.clients = s.clients)
    (ho : s'.globOpenWindows = s.globOpenWindows) (hg : s'.globTotalWindows = s.globTotalWindows)
    (hm : s'.mouse_disabled = s.mouse_disabled) : s'.Counted :=
  ⟨h.toTidy.perm ht (by rw [hc]), census_perm ht ▸ h.tally.of_eq hc ho hg hm⟩

theorem Server.Counted.congr {s s' : Server} (h : s.Counted)
    (ht : s'.tree.map Window.mark = s.tree.map Window.mark) (hc : s'.clients = s.clients)
    (ho : s'.globOpenWindows = s.globOpenWindows) (hg : s'.globTotalWindows = s.globTotalWindows)
    (hm : s'.mouse_disabled = s.mouse_disabled) : s'.Counted := by
  apply h.perm _ hc ho hg hm
  rw [markPaths, markPaths, ht]

variable {s : Server}

theorem Server.Tidy.revealed (h : s.Tidy) (hf : f.zip = s.tree)
    (hc : f.win.cptr ≠ none) : ∀ m ∈ f.revealed, m.cptr.isSome = true := by
  intro m hm
  obtain ⟨p, hp, rfl⟩ := List.mem_map.mp hm
  have hm := List.mem_map_of_mem (f := Prod.fst) (List.mem_filter.mp hp).1
  rw [paths_fst, toList, toList, List.append_nil, List.mem_cons] at hm
  have hb := h.below hf hc
  rcases hm with hm | hm
  · rw [hm]
    exact hb f.win.mark List.mem_cons_self
  · exact hb p.1 (List.mem_cons_of_mem _ hm)

theorem open_clients (L : List Window) :
    (L.foldl client_do_open s).clients.map Client.id = s.clients.map Client.id ∧
      (L.foldl client_do_close s).clients.map Client.id = s.clients.map Client.id ∧
      (L.foldl window_delete_one s).clients.map Client.id = s.clients.map Client.id := by
  have key : ∀ (op : Server → Window → Server),
      (∀ s w, (op s w).clients.map Client.id = s.clients.map Client.id) →
      ∀ s : Server, (L.foldl op s).clients.map Client.id = s.clients.map Client.id := by
    intro op hop s
    induction L generalizing s with
    | nil => rfl
    | cons w L ih => exact (ih (op s w)).trans (hop s w)
  have hif : ∀ (s : Server) (w : Window) (f : Client → Client), (∀ c, (f c).id = c.id) →
      (s.clients.map fun c => if w.cptr = some c.id then f c else c).map Client.id =
        s.clients.map Client.id := by
    intro s w f hf
    rw [List.map_map]
    apply List.map_congr_left
    intro c _
    rw [Function.comp]
    split_ifs
    · exact hf c
    · rfl
  refine ⟨key _ ?_ s, key _ ?_ s, key _ ?_ s⟩
  · intro s w
    rw [client_do_open_eq]
    exact hif s w _ fun _ => rfl
  · intro s w
    rw [client_do_close_eq]
    exact hif s w _ fun _ => rfl
  · intro s w
    rw [window_delete_one_eq, client_do_delete_eq]
    exact hif s w _ fun _ => rfl

variable (D : Driver)

theorem window_open_counted (h : s.Counted) (x y : Int)
    (hf : f.zip = s.tree) : (window_open D s f x y).2.1.Counted := by
  cases ho : f.win.is_open with
  | true =>
    have hs : (window_open D s f x y).2.1 = s := by simp [window_open, ho]
    rw [hs]
    exact h
  | false =>
    have hc := h.client_of_closed hf ho
    have hk := h.hasParent hf hc
    have hm : (window_open D s f x y).2.1.tree.map Window.mark = f.marked true := by
      rw [mark_of_state (window_open_state D s x y ho hk), opened_mark]
    obtain ⟨L, t, scr, he, hL⟩ := window_open_frame D s x y ho hk
    have hids : (window_open D s f x y).2.1.clients.map Client.id = s.clients.map Client.id := by
      rw [he]
      exact (open_clients L).1
    refine ⟨h.toTidy.marked hf hc hm hids, ?_⟩
    have ht := tally_open h.tally L
    rw [hL, markPaths, focus_mark hf, ho] at ht
    rw [markPaths, hm, census_marked (h.toTidy.revealed hf hc)]
    rw [he]
    exact ht.of_eq rfl rfl rfl rfl

theorem window_close_counted (h : s.Counted)
    (hf : f.zip = s.tree) (hc : f.win.cptr ≠ none) : (window_close D s f).2.1.Counted := by
  have hk := h.hasParent hf hc
  cases ho : f.win.is_open with
  | false =>
    have hs : (window_close D s f).2.1 = s := by simp [window_close, ho]
    rw [hs]
    exact h
  | true =>
    cases ha : (ancestors f.ctx).all fun wp => wp.is_open with
    | false =>
      rw [window_close_pseudo D s ha]
      exact h
    | true =>
      have hm : (window_close D s f).2.1.tree.map Window.mark = f.marked false := by
        rw [mark_of_state (window_close_state D h.nodup hf ho hk ha), closed_mark]
      obtain ⟨L, t, scr, he, hL⟩ := window_close_frame D s ho hk ha
      have hids : (window_close D s f).2.1.clients.map Client.id = s.clients.map Client.id := by
        rw [he]
        exact (open_clients L).2.1
      refine ⟨h.toTidy.marked hf hc hm hids, ?_⟩
      have ht := tally_close h.tally L
      have hr : openMarks (ancestors (mapCtx Window.mark f.ctx))
          (.node f.win.mark (f.childs.map Window.mark) .nil) = f.revealed := by
        have hmo : { f.win.mark with is_open := true } = f.win.mark := by
          rw [← ho]
          rfl
        rw [Focus.revealed, hmo]
      rw [shift_perm _ _ hL, hr, markPaths, focus_mark hf, ho,
        census_marked (h.toTidy.revealed hf hc), shift_back] at ht
      rw [markPaths, hm, he]
      exact ht.of_eq rfl rfl rfl rfl

theorem window_delete_counted (h : s.Counted)
    (hf : f.zip = s.tree) (hc : f.win.cptr ≠ none) : (window_delete D s f).2.Counted := by
  have hk := h.hasParent hf hc
  have hcount : ∀ (s₁ : Server) (g : Focus), s₁.Counted → g.zip = s₁.tree → g.win.cptr ≠ none →
      Dormant g.ctx g.win →
      Server.Counted { (postorder (.node g.win g.childs .nil)).foldl window_delete_one s₁ with
        tree := zip g.ctx g.next } := by
    intro s₁ g h₁ hg hcg hd
    have hL : ((postorder (.node g.win g.childs .nil)).map Window.mark).Perm g.subtree := by
      apply ((postorder_perm _).map _).trans
      rw [← toList_map, Focus.subtree, Forest.map, toList]
      simp [toList, Forest.map]
    have hnot : reallyOpen (g.win.mark, ancestors (mapCtx Window.mark g.ctx)) = false := by
      rw [reallyOpen, all_open_mark]
      rcases hd with hd | ⟨a, ha, hd⟩
      · rw [show g.win.mark.is_open = g.win.is_open from rfl, hd, Bool.false_and]
      · rw [List.all_eq_false.mpr ⟨a, ha, by simp [hd]⟩, Bool.and_false]
    have hm : (zip g.ctx g.next).map Window.mark = g.cut := by
      rw [map_zip]
      rfl
    have ht := tally_delete h₁.tally (postorder (.node g.win g.childs .nil))
    rw [markPaths, focus_mark hg, census_cut hnot (h₁.toTidy.below hg hcg), grow_perm _ _ hL,
      grow_back] at ht
    refine ⟨h₁.toTidy.cut hg hcg hm (open_clients _).2.2, ?_⟩
    dsimp only
    rw [markPaths, hm]
    exact ht.of_eq rfl rfl rfl rfl
  unfold window_delete
  simp only [hk, Bool.not_true, Bool.false_eq_true, if_false]
  split_ifs with ho
  · have hst : (window_close D s f).2.2.win.cptr = f.win.cptr :=
      congrArg (fun q => q.2.1) (window_close_win_static D s f)
    exact hcount _ _ (window_close_counted D h hf hc) (window_close_zip D s f hf) (hst ▸ hc)
      (window_close_dormant D s f hk)
  · exact hcount _ _ h hf hc (.inl (by simpa using ho))

theorem createWindow_counted {D : Driver} {s s' : Server} (h : s.Counted) {cptr : Client}
    (hm : cptr ∈ s.clients) {wwidth wheight handle : Int} {flags : Flags} {parent : Focus} (hp : parent.zip = s.tree)
    (hcr : createWindow D s cptr wwidth wheight flags parent = some (handle, s')) : s'.Counted := by
  rcases createWindow_cases hcr with ⟨-, rfl⟩ | ⟨id, tab, -, -, hnew⟩
  · exact h
  · have hm' := congrArg (Forest.map Window.mark) hnew.tree
    rw [map_zip] at hm'
    have hids : s'.clients.map Client.id = s.clients.map Client.id := by
      rw [hnew.clients, List.map_map]
      apply List.map_congr_left
      intro c _
      rw [Function.comp]
      split_ifs <;> rfl
    have hs : s.tree.map Window.mark = zip (.parent parent.win.mark (parent.next.map Window.mark) ::
      mapCtx Window.mark parent.ctx) (parent.childs.map Window.mark) := focus_mark hp
    refine ⟨h.toTidy.created hp hm' hnew.fresh rfl (List.mem_map_of_mem hm) hids, ?_⟩
    have hmk : markPaths s'.tree = paths [] (zip (.parent parent.win.mark (parent.next.map Window.mark) ::
        mapCtx Window.mark parent.ctx) (.node (newWindow D cptr.id wwidth wheight flags id tab.2).mark
          .nil (parent.childs.map Window.mark))) := congrArg (paths []) hm'
    have ht := h.tally
    rw [markPaths, hs] at ht
    rw [hmk, census_created _ _ rfl rfl]
    have ho : s'.globOpenWindows = s.globOpenWindows :=
      (congrArg Server.globOpenWindows hnew.others :)
    have hg : s'.globTotalWindows = short (s.globTotalWindows + 1) :=
      (congrArg Server.globTotalWindows hnew.others :)
    have hmo : s'.mouse_disabled = s.mouse_disabled := (congrArg Server.mouse_disabled hnew.others :)
    apply ht.map hnew.clients
    · intro c _
      simp only [Census.grow, countP_of]
      by_cases he : c.id = cptr.id
      · have : (newWindow D cptr.id wwidth wheight flags id tab.2).mark.cptr = some c.id :=
          congrArg some he.symm
        simp only [if_pos he, this, if_true]
        constructor <;> omega
      · have : (newWindow D cptr.id wwidth wheight flags id tab.2).mark.cptr ≠ some c.id :=
          fun hh => he (Option.some.inj hh).symm
        simp only [if_neg he, this, if_false]
        constructor <;> omega
    · exact ho.trans ht.globOpen
    · rw [hg, ht.globTotal, short_add_short]
      rfl
    · exact hmo.trans ht.mouse

theorem createClient_counted (h : s.Counted) (cid raddr uid : Nat) :
    (createClient s cid raddr uid).Counted := by
  unfold createClient
  split_ifs with hc
  · exact h
  · have hno : ∀ m ∈ (s.tree.map Window.mark).toList, Mark.of cid m = false := by
      intro m hm
      rw [Mark.of, decide_eq_false_iff_not]
      intro he
      exact hc (mark_client h.toTidy hm he).1
    have htotal : totalCount (Mark.of cid) (markPaths s.tree) = 0 := by
      rw [markPaths, totalCount_toList, List.countP_eq_zero]
      intro m hm
      rw [hno m hm]
      exact Bool.false_ne_true
    have hopened : openCount (Mark.of cid) (markPaths s.tree) = 0 := by
      rw [openCount, List.countP_eq_zero]
      intro p hp
      rw [hno p.1 (by rw [marks_toList]; exact List.mem_map_of_mem hp), Bool.false_and]
      exact Bool.false_ne_true
    obtain ⟨⟨hn, hd, how, hs, hb⟩, ho, ht, hg, hgt, hmo⟩ := h
    refine ⟨⟨hn, ?_, ?_, hs, hb⟩, ?_, ?_, hg, hgt, hmo⟩
    · exact List.nodup_cons.mpr ⟨hc, hd⟩
    · intro p hp
      refine ⟨(how p hp).server, fun c hcp => ?_, (how p hp).root⟩
      have := (how p hp).client c hcp
      exact ⟨List.mem_cons_of_mem _ this.1, this.2⟩
    · intro c hm
      rcases List.mem_cons.mp hm with rfl | hm
      · exact (congrArg Int.ofNat hopened).symm
      · exact ho c hm
    · intro c hm
      rcases List.mem_cons.mp hm with rfl | hm
      · exact (congrArg Int.ofNat htotal).symm
      · exact ht c hm

theorem drop_counted (h : s.Counted) {cid : Nat} (hno : ∀ w ∈ s.tree.toList, w.cptr ≠ some cid) :
    Server.Counted { s with clients := s.clients.filter fun c => c.id ≠ cid } := by
  have hmem : ∀ c, c ≠ cid → c ∈ s.clients.map Client.id →
      c ∈ (s.clients.filter fun c => c.id ≠ cid).map Client.id := by
    intro c hne hc
    obtain ⟨d, hd, rfl⟩ := List.mem_map.mp hc
    exact List.mem_map_of_mem (List.mem_filter.mpr ⟨hd, by simpa using hne⟩)
  obtain ⟨⟨hn, hd, how, hs, hb⟩, ho, htot, hg, hgt, hmo⟩ := h
  refine ⟨⟨hn, ?_, ?_, hs, hb⟩, ?_, ?_, hg, hgt, hmo⟩
  · exact hd.sublist (List.filter_sublist.map _)
  · intro p hp
    refine ⟨(how p hp).server, fun c hc => ?_, (how p hp).root⟩
    obtain ⟨hc1, hc2⟩ := (how p hp).client c hc
    refine ⟨hmem c ?_ hc1, hc2⟩
    rintro rfl
    have hw := List.mem_map_of_mem (f := Prod.fst) hp
    rw [ownerPaths, paths_fst, toList_map] at hw
    obtain ⟨w, hw, he⟩ := List.mem_map.mp hw
    exact hno w hw ((congrArg Owner.cptr he).trans hc)
  · intro c hc
    exact ho c (List.mem_filter.mp hc).1
  · intro c hc
    exact htot c (List.mem_filter.mp hc).1

theorem act_counted {D : Driver} (s t : Server) (h : s.Counted) (ha : Act D s t) : t.Counted := by
  cases ha with
  | draw f win hf hw =>
    refine h.congr ?_ rfl rfl rfl rfl
    have hm : win.mark = f.win.mark :=
      congrArg (fun q => Mark.mk q.2.1 q.2.2.1 q.2.2.2.1 q.1.1.1) hw
    rw [focus_mark hf]
    simp only [Server.setFocus, Focus.zip, map_zip, Forest.map, hm]
    rfl
  | active dashed f hf =>
    obtain ⟨t, scr, he⟩ := drawActive_frame D dashed s f
    apply h.congr (marks_of_state (drawActive_state D dashed s f hf)) <;> rw [he]
  | place => exact h.congr rfl rfl rfl rfl rfl
  | pointer mx my =>
    obtain ⟨t, scr, c, win, top, he⟩ := w_changeActiveWindow_frame D s mx my
    apply h.congr (marks_of_state (w_changeActiveWindow_state D s mx my)) <;> rw [he]
  | «open» f x y hf => exact window_open_counted D h x y hf
  | close f hf _ hh => exact window_close_counted D h hf (h.client_of_handle hf hh)
  | move f x y hf =>
    obtain ⟨t, scr, he⟩ := window_move_frame D s f x y
    apply h.congr (window_move_mark D s x y hf) <;> rw [he]
  | to_top f hf =>
    obtain ⟨t, scr, he⟩ := window_to_top_frame D s f
    apply h.perm (marks_of_paths (window_to_top_paths D hf)) <;> rw [he]
  | to_bottom f hf =>
    obtain ⟨t, scr, he⟩ := window_to_bottom_frame D s f
    apply h.perm (marks_of_paths (window_to_bottom_paths D hf)) <;> rw [he]
  | resize handle width height =>
    apply h.congr (resizeWindow_mark D s handle width height) <;> (unfold resizeWindow; split <;> rfl)
  | delete f hf hh => exact window_delete_counted D h hf (h.client_of_handle hf hh)
  | create cptr wwidth wheight flags parent _ _ hp hm hc => exact createWindow_counted h hm hp hc

theorem acts_counted {D : Driver} {s t : Server} (h : s.Counted) (ha : Acts D s t) : t.Counted :=
  ha.keep act_counted h

theorem client_close_counted (h : s.Counted) (handle : Nat)
    (mouse : Point) : (client_close D s handle mouse).2.Counted :=
  acts_counted h (client_close_acts D s handle mouse)

theorem client_delete_counted (h : s.Counted) (handle : Nat)
    (mouse : Point) : (client_delete D s handle mouse).2.Counted :=
  acts_counted h (client_delete_acts D s handle mouse)

def Gone (s : Server) (cid : Nat) (l : List Nat) : Prop :=
  ∀ m ∈ (s.tree.map Window.mark).toList, m.id ∈ l → m.cptr ≠ some cid

theorem killClientWindow_counted (mouse : Point) (cid : Nat) (h : s.Counted) (id : Nat) :
    (killClientWindow D mouse cid s id).Counted ∧ Gone (killClientWindow D mouse cid s id) cid [id] ∧
      ((killClientWindow D mouse cid s id).tree.map Window.mark).toList ⊆ (s.tree.map Window.mark).toList := by
  have hlook : ∀ m ∈ (s.tree.map Window.mark).toList, m.id = id →
      ∃ f, s.windowLookup id = some f ∧ f.zip = s.tree ∧ f.win.mark = m := by
    intro m hm hid
    rw [toList_map] at hm
    obtain ⟨w, hw, rfl⟩ := List.mem_map.mp hm
    obtain ⟨f, hf, hz, hfw⟩ := lookup_of_mem h.nodup hw
    exact ⟨f, hid ▸ hf, hz, congrArg Window.mark hfw⟩
  unfold killClientWindow
  cases hf : s.windowLookup id with
  | none =>
    refine ⟨h, ?_, fun _ hm => hm⟩
    intro m hm hid
    obtain ⟨f, hf', -⟩ := hlook m hm (List.mem_singleton.mp hid)
    rw [hf] at hf'
    cases hf'
  | some f =>
    obtain ⟨hz, hfid⟩ := Server.windowLookup_zip hf
    dsimp only
    by_cases hc : f.win.cptr = some cid
    · rw [if_pos hc]
      have hcn : f.win.cptr ≠ none := by
        rw [hc]
        exact Option.some_ne_none cid
      have hmem : f.win.mark ∈ (s.tree.map Window.mark).toList := by
        rw [toList_map, ← hz]
        exact List.mem_map_of_mem (mem_zip.mpr (.inl List.mem_cons_self))
      have hge : 2 ≤ id := hfid ▸ (mark_client h.toTidy hmem hc).2
      have hcut := client_delete_mark D mouse h.toTidy hf hge hcn
      have hcount := client_delete_counted D h id mouse
      obtain ⟨l, hp, hl⟩ := cut_paths hz hcut
      have hm : (s.tree.map Window.mark).toList.Perm
          (f.subtree ++ ((client_delete D s id mouse).2.tree.map Window.mark).toList) := by
        rw [marks_toList, marks_toList, ← hl, ← List.map_append]
        exact hp.map _
      refine ⟨hcount, ?_, fun m hms => hm.mem_iff.mpr (List.mem_append_right _ hms)⟩
      intro m hms hid
      have hn := (hm.map Mark.id).nodup_iff.mp (ids_mark s ▸ h.nodup)
      rw [List.map_append] at hn
      have hd := (List.nodup_append.mp hn).2.2 id
        (List.mem_map.mpr ⟨f.win.mark, List.mem_cons_self, hfid⟩) m.id (List.mem_map_of_mem hms)
      exact absurd (List.mem_singleton.mp hid).symm hd
    · rw [if_neg hc]
      refine ⟨h, ?_, fun _ hm => hm⟩
      intro m hm hid
      obtain ⟨g, hg, -, hgm⟩ := hlook m hm (List.mem_singleton.mp hid)
      rw [hf] at hg
      obtain rfl := Option.some.inj hg
      rw [← hgm]
      exact hc

theorem killWindows_counted (mouse : Point) (cid : Nat) (l : List Nat) (h : s.Counted) :
    (l.foldl (killClientWindow D mouse cid) s).Counted ∧ Gone (l.foldl (killClientWindow D mouse cid) s) cid l ∧
      ((l.foldl (killClientWindow D mouse cid) s).tree.map Window.mark).toList ⊆ (s.tree.map Window.mark).toList := by
  induction l generalizing s with
  | nil =>
    refine ⟨h, ?_, fun _ hm => hm⟩
    intro m _ hid
    cases hid
  | cons id l ih =>
    obtain ⟨h1, h2, h3⟩ := killClientWindow_counted D mouse cid h id
    obtain ⟨h4, h5, h6⟩ := ih h1
    refine ⟨h4, ?_, fun m hm => h3 (h6 hm)⟩
    intro m hm hid
    rcases List.mem_cons.mp hid with hid | hid
    · exact h2 m (h6 hm) (List.mem_singleton.mpr hid)
    · exact h5 m hm hid

theorem windowKillClient_gone (mouse : Point) (h : s.Counted) (cid : Nat) :
    ∀ w ∈ (windowKillClient D mouse s cid).tree.toList, w.cptr ≠ some cid := by
  obtain ⟨w, cs, ht, hw⟩ := h.toTidy.tree
  obtain ⟨-, h2, h3⟩ := killWindows_counted D mouse cid ((postorder cs).map Window.id) h
  have hwk : windowKillClient D mouse s cid =
      ((postorder cs).map Window.id).foldl (killClientWindow D mouse cid) s := by
    rw [windowKillClient, ht]
  rw [← hwk] at h2 h3
  intro v hv hc
  have hm : v.mark ∈ ((windowKillClient D mouse s cid).tree.map Window.mark).toList := by
    rw [toList_map]
    exact List.mem_map_of_mem hv
  have hms := h3 hm
  -- the root window does not belong to a client and all others have been visited
  have hge := (mark_client h.toTidy hms hc).2
  rw [ht, Forest.map, toList, Forest.map, toList, List.append_nil, List.mem_cons] at hms
  rcases hms with hms | hms
  · have : w.mark.id = 1 := hw
    rw [hms] at hge
    omega
  · apply h2 v.mark hm _ hc
    rw [toList_map] at hms
    obtain ⟨u, hu, he⟩ := List.mem_map.mp hms
    rw [← he]
    exact List.mem_map.mpr ⟨u, (postorder_perm cs).mem_iff.mpr hu, rfl⟩

theorem serve_counted (h : s.Counted) (r : Request × Point) : (serve D s r).Counted := by
  rcases serve_cases D s r with ha | ⟨cid, raddr, uid, -, he⟩ | ⟨cid, -, he⟩
  · exact acts_counted h ha
  · rw [he]
    exact createClient_counted h cid raddr uid
  · rw [he]
    apply drop_counted _ (windowKillClient_gone D r.2 h cid)
    exact acts_counted h (windowKillClient_acts D r.2 s cid)

theorem window_init_counted (d : Display) (screen : Pixmap) (colors : Colors) :
    (window_init d screen colors).Counted := by
  refine ⟨⟨(window_init_valid d screen colors).nodup, List.nodup_nil, ?_, ?_, ?_⟩, ?_⟩
  · intro p hp
    have hp : p ∈ [(⟨1, none, 0⟩, []), (⟨0, none, 0⟩, [⟨1, none, 0⟩])] := hp
    simp only [List.mem_cons, List.not_mem_nil, or_false] at hp
    rcases hp with rfl | rfl
    · exact ⟨fun _ => ⟨by decide, by decide, by simp⟩, by simp, by simp⟩
    · exact ⟨fun _ => ⟨by decide, by decide, by simp⟩, by simp, by simp⟩
  · intro m hm _
    have hm : m ∈ [Mark.mk 1 none 0 true, ⟨0, none, 0, true⟩] := hm
    simp only [List.mem_cons, List.not_mem_nil, or_false] at hm
    rcases hm with rfl | rfl
    · rfl
    · rfl
  · have hids : (window_init d screen colors).ids = [1, 0] := rfl
    simp [hids]
  · have hp : markPaths (window_init d screen colors).tree =
        [(⟨1, none, 0, true⟩, []), (⟨0, none, 0, true⟩, [⟨1, none, 0, true⟩])] := rfl
    have h0 : (0 : Int) = short 0 := by decide
    refine ⟨by simp [window_init], by simp [window_init], ?_, ?_, ?_⟩
    · rw [hp]
      exact h0
    · rw [hp]
      exact h0
    · have hm : openCount Mark.nomouse [(⟨1, none, 0, true⟩, []),
          (⟨0, none, 0, true⟩, [⟨1, none, 0, true⟩])] = 0 := by decide
      rw [hp, census, hm]
      exact h0

end WWindowSystem
