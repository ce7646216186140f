import WWindowSystem.Server.Counters
import WWindowSystem.Server.Lit

namespace WWindowSystem

open Forest

structure Refs where
  active : Nat
  activetop : Nat
  cache : Option Nat
  top : Option Nat
  left : Option Nat
  right : Option Nat

def Server.refs (s : Server) : Refs :=
  ⟨s.glob_activewindow, s.glob_activetopwin, s.window_find_cache, s.topWindow,
    s.glob_leftmousepressed, s.glob_rightmousepressed⟩

def Present (l : List (Mark × List Mark)) (id : Nat) : Prop := ∃ p ∈ l, p.1.id = id

def OnScreen (l : List (Mark × List Mark)) (id : Nat) : Prop :=
  ∃ p ∈ l, p.1.id = id ∧ reallyOpen p = true

structure Refs.Live (R : Refs) (l : List (Mark × List Mark)) : Prop where
  active : Present l R.active
  activetop : Present l R.activetop
  cache : ∀ id, R.cache = some id → Present l id
  top : ∀ id, R.top = some id → ∃ p ∈ l, p.1.id = id ∧ p.1.flags.has W_TOP = true
  left : ∀ id, R.left = some id → OnScreen l id
  right : ∀ id, R.right = some id → OnScreen l id

def Covers (l l' : List (Mark × List Mark)) : Prop :=
  ∀ p ∈ l, ∃ q ∈ l', q.1.owner = p.1.owner ∧ (reallyOpen p = true → reallyOpen q = true)

variable {l l' : List (Mark × List Mark)}

theorem Covers.of_subset (h : l ⊆ l') : Covers l l' :=
  fun p hp => ⟨p, h hp, rfl, fun ho => ho⟩

variable {id : Nat}

theorem Covers.present (h : Covers l l')
    (hp : Present l id) : Present l' id := by
  obtain ⟨p, hp, rfl⟩ := hp
  obtain ⟨q, hq, he, -⟩ := h p hp
  exact ⟨q, hq, congrArg Owner.id he⟩

theorem Covers.onScreen (h : Covers l l')
    (hp : OnScreen l id) : OnScreen l' id := by
  obtain ⟨p, hp, rfl, ho⟩ := hp
  obtain ⟨q, hq, he, hr⟩ := h p hp
  exact ⟨q, hq, congrArg Owner.id he, hr ho⟩

theorem Covers.top (h : Covers l l')
    (hp : ∃ p ∈ l, p.1.id = id ∧ p.1.flags.has W_TOP = true) : ∃ p ∈ l', p.1.id = id ∧ p.1.flags.has W_TOP = true := by
  obtain ⟨p, hp, rfl, ht⟩ := hp
  obtain ⟨q, hq, he, -⟩ := h p hp
  refine ⟨q, hq, congrArg Owner.id he, ?_⟩
  have hf : q.1.flags = p.1.flags := congrArg Owner.flags he
  rw [hf, ht]

variable {R : Refs}

theorem Refs.Live.mono (h : R.Live l) (hc : Covers l l') :
    R.Live l' where
  active := hc.present h.active
  activetop := hc.present h.activetop
  cache id hid := hc.present (h.cache id hid)
  top id hid := hc.top (h.top id hid)
  left id hid := hc.onScreen (h.left id hid)
  right id hid := hc.onScreen (h.right id hid)

theorem Refs.Live.perm (h : R.Live l) (hp : l'.Perm l) : R.Live l' :=
  h.mono (Covers.of_subset hp.symm.subset)

theorem Refs.Live.press {l : List (Mark × List Mark)} (h : R.Live l)
    {left right : Option Nat} (hl : ∀ id, left = some id → OnScreen l id)
    (hr : ∀ id, right = some id → OnScreen l id) : Refs.Live { R with left, right } l :=
  ⟨h.active, h.activetop, h.cache, h.top, hl, hr⟩

def without (o : Option Nat) (ids : List Nat) : Option Nat := o.filter fun i => i ∉ ids

variable {ids : List Nat}

theorem without_eq_some {o : Option Nat} {i : Nat} :
    without o ids = some i ↔ o = some i ∧ i ∉ ids := by
  simp [without, Option.filter_eq_some_iff]

variable (o : Option Nat)

theorem without_nil : without o [] = o := by
  cases o <;> rfl

theorem without_cons (i : Nat) (ids : List Nat) :
    without (if o = some i then none else o) ids = without o (i :: ids) := by
  apply Option.ext
  intro j
  rw [without_eq_some, without_eq_some, List.mem_cons, not_or]
  split_ifs with h
  · simp only [false_and, false_iff, not_and, not_not]
    intro hj hne
    rw [h] at hj
    exact absurd (Option.some.inj hj).symm hne
  · constructor
    · rintro ⟨hj, hn⟩
      refine ⟨hj, ?_, hn⟩
      rintro rfl
      exact h hj
    · rintro ⟨hj, -, hn⟩
      exact ⟨hj, hn⟩

def reset (a : Nat) (ids : List Nat) : Nat := if a ∈ ids then 0 else a

theorem reset_cons (a i : Nat) (ids : List Nat) : reset (if i = a then 0 else a) ids = reset a (i :: ids) := by
  unfold reset
  by_cases h : i = a
  · rw [if_pos h, if_pos (List.mem_cons.mpr (.inl h.symm)), ite_self]
  · simp only [if_neg h, List.mem_cons, Ne.symm h, false_or]

def Refs.release (R : Refs) (ids : List Nat) : Refs :=
  { R with left := without R.left ids, right := without R.right ids }

def topIds (M : List Mark) : List Nat := (M.filter fun m => m.flags.has W_TOP).map Mark.id

def Refs.forget (R : Refs) (M : List Mark) : Refs :=
  { R with
    active := reset R.active (M.map Mark.id)
    activetop := reset R.activetop (M.map Mark.id)
    cache := without R.cache (M.map Mark.id)
    top := without R.top (topIds M) }

variable (L : List Window)

theorem open_refs (s : Server) : (L.foldl client_do_open s).refs = s.refs := by
  induction L generalizing s with
  | nil => rfl
  | cons w L ih =>
    rw [List.foldl_cons, ih, client_do_open_eq]
    rfl

theorem close_refs (s : Server) :
    (L.foldl client_do_close s).refs = s.refs.release (L.map Window.id) := by
  induction L generalizing s with
  | nil => simp only [List.foldl_nil, List.map_nil, Refs.release, without_nil]
  | cons w L ih =>
    rw [List.foldl_cons, ih, client_do_close_eq, List.map_cons]
    simp only [Server.refs, Refs.release, without_cons]

theorem delete_refs (s : Server) :
    (L.foldl window_delete_one s).refs = s.refs.forget (L.map Window.mark) := by
  induction L generalizing s with
  | nil =>
    simp only [List.foldl_nil, List.map_nil, Refs.forget, topIds, List.filter_nil, without_nil, reset,
      List.not_mem_nil, if_false]
  | cons w L ih =>
    have hid : w.mark.id = w.id := rfl
    have hf : w.mark.flags = w.flags := rfl
    rw [List.foldl_cons, ih, window_delete_one_eq, client_do_delete_eq, List.map_cons]
    simp only [Server.refs, Refs.forget, List.map_cons, hid, without_cons, reset_cons, topIds,
      List.filter_cons, hf]
    congr 1
    by_cases h : w.flags.has W_TOP = true
    · simp only [h, true_and, if_true, List.map_cons, without_cons, hid]
    · simp only [h, false_and, Bool.false_eq_true, if_false]

def Focus.inner (f : Focus) (is_open : Bool) : List (Mark × List Mark) :=
  paths (ancestors (mapCtx Window.mark f.ctx))
    (.node { f.win.mark with is_open } (f.childs.map Window.mark) .nil)

def Focus.rest (f : Focus) : List (Mark × List Mark) :=
  paths (ancestors (mapCtx Window.mark f.ctx)) (f.next.map Window.mark) ++
    pathsAround (mapCtx Window.mark f.ctx)

theorem marked_perm (f : Focus) (b : Bool) : (paths [] (f.marked b)).Perm (f.inner b ++ f.rest) := by
  apply (paths_zip _ _).trans
  simp only [Focus.inner, Focus.rest, paths, List.append_nil, List.cons_append, List.append_assoc]
  exact List.Perm.refl _

theorem cut_perm (f : Focus) : (paths [] f.cut).Perm f.rest := paths_zip _ _

theorem marked_pair (f : Focus) (b c : Bool) :
    ∀ p ∈ paths [] (f.marked b), ∃ q ∈ paths [] (f.marked c), q.1.owner = p.1.owner ∧
      ((b = true → c = true) → reallyOpen p = true → reallyOpen q = true) := by
  intro p hp
  rw [(marked_perm f b).mem_iff, List.mem_append] at hp
  simp only [(marked_perm f c).mem_iff, List.mem_append]
  rcases hp with hp | hp
  · rw [Focus.inner, paths, List.mem_cons, paths, List.append_nil] at hp
    rcases hp with rfl | hp
    · refine ⟨_, .inl List.mem_cons_self, rfl, ?_⟩
      simp only [reallyOpen, Bool.and_eq_true]
      exact fun hbc h => ⟨hbc h.1, h.2⟩
    · rw [paths_above, List.mem_map] at hp
      obtain ⟨q, hq, rfl⟩ := hp
      refine ⟨(q.1, q.2 ++ { f.win.mark with is_open := c } ::
        ancestors (mapCtx Window.mark f.ctx)), .inl ?_, rfl, ?_⟩
      · rw [Focus.inner, paths, paths, List.append_nil]
        apply List.mem_cons_of_mem
        rw [paths_above]
        exact List.mem_map_of_mem hq
      · simp only [reallyOpen, Bool.and_eq_true, List.all_append, List.all_cons]
        exact fun hbc h => ⟨h.1, h.2.1, hbc h.2.2.1, h.2.2.2⟩
  · exact ⟨p, .inr hp, rfl, fun _ h => h⟩

theorem opened_covers (f : Focus) (b : Bool) : Covers (paths [] (f.marked b)) (paths [] (f.marked true)) := by
  intro p hp
  obtain ⟨q, hq, he, ho⟩ := marked_pair f b true p hp
  exact ⟨q, hq, he, ho fun _ => rfl⟩

variable {f : Focus}

theorem OnScreen.outside (h : OnScreen (paths [] (f.marked true)) id)
    (hid : id ∉ f.revealed.map Mark.id) : OnScreen f.rest id := by
  obtain ⟨p, hp, rfl, ho⟩ := h
  rw [(marked_perm f true).mem_iff, List.mem_append] at hp
  rcases hp with hp | hp
  · refine absurd ?_ hid
    apply List.mem_map_of_mem (f := Mark.id)
    exact List.mem_map_of_mem (List.mem_filter.mpr ⟨hp, ho⟩)
  · exact ⟨p, hp, rfl, ho⟩

theorem OnScreen.subset (h : OnScreen l id) (hl : l ⊆ l') :
    OnScreen l' id :=
  (Covers.of_subset hl).onScreen h

theorem Refs.Live.closed (h : R.Live (paths [] (f.marked true)))
    (hids : f.revealed.map Mark.id ⊆ ids) : (R.release ids).Live (paths [] (f.marked false)) := by
  have hpresent : ∀ id, Present (paths [] (f.marked true)) id → Present (paths [] (f.marked false)) id := by
    rintro id ⟨p, hp, rfl⟩
    obtain ⟨q, hq, he, -⟩ := marked_pair f true false p hp
    exact ⟨q, hq, congrArg Owner.id he⟩
  have hscreen : ∀ id, OnScreen (paths [] (f.marked true)) id ∧ id ∉ ids →
      OnScreen (paths [] (f.marked false)) id := by
    rintro id ⟨ho, hn⟩
    apply (ho.outside fun hm => hn (hids hm)).subset
    exact fun q hq => (marked_perm f false).mem_iff.mpr (List.mem_append_right _ hq)
  constructor
  · exact hpresent _ h.active
  · exact hpresent _ h.activetop
  · exact fun id hid => hpresent id (h.cache id hid)
  · intro id hid
    obtain ⟨p, hp, rfl, ht⟩ := h.top id hid
    obtain ⟨q, hq, he, -⟩ := marked_pair f true false p hp
    have hf : q.1.flags = p.1.flags := congrArg Owner.flags he
    exact ⟨q, hq, congrArg Owner.id he, hf ▸ ht⟩
  · intro id hid
    obtain ⟨hl, hn⟩ := without_eq_some.mp hid
    exact hscreen id ⟨h.left id hl, hn⟩
  · intro id hid
    obtain ⟨hr, hn⟩ := without_eq_some.mp hid
    exact hscreen id ⟨h.right id hr, hn⟩

theorem Refs.Live.cut {b : Bool} (h : R.Live (paths [] (f.marked b)))
    (hb : ∀ p ∈ f.inner b, ¬ reallyOpen p = true) {M : List Mark}
    (hM : ∀ p ∈ f.inner b, p.1 ∈ M) (h0 : Present f.rest 0) : (R.forget M).Live f.rest := by
  have hrest : ∀ p ∈ paths [] (f.marked b), p.1 ∉ M → p ∈ f.rest := by
    intro p hp hn
    rw [(marked_perm f b).mem_iff, List.mem_append] at hp
    exact hp.resolve_left fun hp => hn (hM p hp)
  have hpresent : ∀ id, Present (paths [] (f.marked b)) id → id ∉ M.map Mark.id → Present f.rest id := by
    rintro id ⟨p, hp, rfl⟩ hn
    exact ⟨p, hrest p hp fun hm => hn (List.mem_map_of_mem hm), rfl⟩
  have hreset : ∀ id, Present (paths [] (f.marked b)) id → Present f.rest (reset id (M.map Mark.id)) := by
    intro id hid
    unfold reset
    split_ifs with hm
    · exact h0
    · exact hpresent id hid hm
  have hscreen : ∀ id, OnScreen (paths [] (f.marked b)) id → OnScreen f.rest id := by
    rintro id ⟨p, hp, rfl, ho⟩
    rw [(marked_perm f b).mem_iff, List.mem_append] at hp
    exact ⟨p, hp.resolve_left fun hp => hb p hp ho, rfl, ho⟩
  constructor
  · exact hreset _ h.active
  · exact hreset _ h.activetop
  · intro id hid
    obtain ⟨hc, hn⟩ := without_eq_some.mp hid
    exact hpresent id (h.cache id hc) hn
  · intro id hid
    obtain ⟨hc, hn⟩ := without_eq_some.mp hid
    obtain ⟨p, hp, rfl, ht⟩ := h.top id hc
    refine ⟨p, hrest p hp fun hm => hn ?_, rfl, ht⟩
    exact List.mem_map_of_mem (List.mem_filter.mpr ⟨hm, ht⟩)
  · exact fun id hid => hscreen id (h.left id hid)
  · exact fun id hid => hscreen id (h.right id hid)

theorem present_iff (s : Server) (id : Nat) : Present (markPaths s.tree) id ↔ id ∈ s.ids := by
  rw [ids_mark, marks_toList, List.map_map, List.mem_map]
  exact Iff.rfl

structure Server.Referenced (s : Server) : Prop extends s.Counted where
  lit : Lit true s.tree
  live : s.refs.Live (markPaths s.tree)

theorem toplevel_mem (win : Window) (l : List Window) : toplevel win l ∈ win :: l := by
  induction l generalizing win with
  | nil => exact List.mem_cons_self
  | cons p rest ih =>
    rw [toplevel]
    split_ifs
    · exact List.mem_cons_self
    · exact List.mem_cons_of_mem _ (ih p)

variable {s : Server}

theorem mem_ids_of_focus (hf : f.zip = s.tree) {w : Window}
    (hw : w ∈ f.win :: ancestors f.ctx) : w.id ∈ s.ids := by
  apply List.mem_map_of_mem
  rw [← hf]
  rcases List.mem_cons.mp hw with rfl | hw
  · exact mem_zip.mpr (.inl List.mem_cons_self)
  · exact mem_zip.mpr (.inr (ancestors_subset _ hw))

variable (D : Driver)

theorem pointer_refs (s : Server) (mx my : Int) : ∃ active activetop cache,
      (w_changeActiveWindow D s mx my).refs = { s.refs with active, activetop, cache } ∧
      (active ∈ s.ids ∨ active = s.refs.active) ∧ (activetop ∈ s.ids ∨ activetop = s.refs.activetop) := by
  have hi : (window_find s mx my true).2.ids = s.ids :=
    ids_congr ((window_find_reordered s mx my true).map fun _ _ => rfl)
  obtain ⟨t, c, hr⟩ := window_find_frame s mx my true
  unfold w_changeActiveWindow
  dsimp only
  split
  · rw [hr]
    exact ⟨_, _, _, rfl, .inr rfl, .inr rfl⟩
  next f hf =>
    obtain ⟨id, -, hf⟩ := Option.bind_eq_some_iff.mp hf
    obtain ⟨hz, -⟩ := Server.windowLookup_zip hf
    have hwin := mem_ids_of_focus hz List.mem_cons_self
    have htop := mem_ids_of_focus hz (toplevel_mem f.win (ancestors f.ctx))
    rw [hi] at hwin htop
    rw [hr]
    split_ifs
    · exact ⟨_, _, _, rfl, .inl hwin, .inr rfl⟩
    · obtain ⟨t1, sc1, h1⟩ := drawHandle_frame D true
        { s with tree := t, window_find_cache := c, glob_activewindow := f.win.id } s.glob_activetopwin
      rw [h1]
      obtain ⟨t2, sc2, h2⟩ := drawHandle_frame D false
        { s with
          tree := t1, screen := sc1, window_find_cache := c
          glob_activewindow := f.win.id
          glob_activetopwin := (toplevel f.win (ancestors f.ctx)).id } (toplevel f.win (ancestors f.ctx)).id
      rw [h2]
      exact ⟨_, _, _, rfl, .inl hwin, .inl htop⟩

theorem Refs.Live.congr {s t : Server} (h : s.refs.Live (markPaths s.tree))
    (ht : t.tree.map Window.mark = s.tree.map Window.mark) (hr : t.refs = s.refs) : t.refs.Live (markPaths t.tree) := by
  rw [hr, markPaths, ht]
  exact h

theorem pointer_live (h : s.refs.Live (markPaths s.tree)) (mx my : Int) :
    (w_changeActiveWindow D s mx my).refs.Live (markPaths (w_changeActiveWindow D s mx my).tree) := by
  have hm := marks_of_state (w_changeActiveWindow_state D s mx my)
  have hc : CacheLive (w_changeActiveWindow D s mx my) := by
    apply w_changeActiveWindow_live
    exact fun id hid => (present_iff s id).mp (h.cache id hid)
  have hi : (w_changeActiveWindow D s mx my).ids = s.ids := by
    rw [ids_mark, ids_mark, hm]
  obtain ⟨active, activetop, cache, hr, ha, ht⟩ := pointer_refs D s mx my
  have hcache : (w_changeActiveWindow D s mx my).window_find_cache = cache := congrArg Refs.cache hr
  rw [hr, markPaths, hm]
  constructor
  · rcases ha with ha | ha
    · exact (present_iff s _).mpr ha
    · exact ha ▸ h.active
  · rcases ht with ht | ht
    · exact (present_iff s _).mpr ht
    · exact ht ▸ h.activetop
  · intro id hid
    apply (present_iff s id).mpr
    rw [← hi]
    exact hc id (hcache.trans hid)
  · exact h.top
  · exact h.left
  · exact h.right

theorem window_open_live (h : s.Counted) (x y : Int)
    (hf : f.zip = s.tree) (ho : f.win.is_open = false) (hl : s.refs.Live (markPaths s.tree)) :
    (window_open D s f x y).2.1.refs.Live (markPaths (window_open D s f x y).2.1.tree) := by
  have hc := h.client_of_closed hf ho
  have hk := h.hasParent hf hc
  have hm : (window_open D s f x y).2.1.tree.map Window.mark = f.marked true := by
    rw [mark_of_state (window_open_state D s x y ho hk), opened_mark]
  obtain ⟨L, t, scr, he, -⟩ := window_open_frame D s x y ho hk
  have hr : (window_open D s f x y).2.1.refs = s.refs := by
    rw [he]
    exact open_refs L s
  rw [hr, markPaths, hm]
  rw [markPaths, focus_mark hf] at hl
  exact hl.mono (opened_covers f _)

theorem window_close_live (h : s.Counted)
    (hf : f.zip = s.tree) (hc : f.win.cptr ≠ none) (hl : s.refs.Live (markPaths s.tree)) :
    (window_close D s f).2.1.refs.Live (markPaths (window_close D s f).2.1.tree) := by
  have hk := h.hasParent hf hc
  cases ho : f.win.is_open with
  | false =>
    have hs : (window_close D s f).2.1 = s := by simp [window_close, ho]
    rw [hs]
    exact hl
  | true =>
    cases ha : (ancestors f.ctx).all fun wp => wp.is_open with
    | false =>
      rw [window_close_pseudo D s ha]
      exact hl
    | true =>
      have hm : (window_close D s f).2.1.tree.map Window.mark = f.marked false := by
        rw [mark_of_state (window_close_state D h.nodup hf ho hk ha), closed_mark]
      obtain ⟨L, t, scr, he, hL⟩ := window_close_frame D s ho hk ha
      have hr : (window_close D s f).2.1.refs = s.refs.release (L.map Window.id) := by
        rw [he]
        exact close_refs L s
      rw [markPaths, focus_mark hf, ho] at hl
      rw [hr, markPaths, hm]
      apply hl.closed
      have hmo : { f.win.mark with is_open := true } = f.win.mark := by
        rw [← ho]
        rfl
      have hL := hL.map Mark.id
      rw [List.map_map] at hL
      rw [Focus.revealed, hmo]
      exact hL.symm.subset

theorem window_delete_refs_live (h : s.Counted)
    (hf : f.zip = s.tree) (hc : f.win.cptr ≠ none) (hl : s.refs.Live (markPaths s.tree)) :
    (window_delete D s f).2.refs.Live (markPaths (window_delete D s f).2.tree) := by
  have hk := h.hasParent hf hc
  have hbase := (window_delete_counted D h hf hc).base.1
  rw [← present_iff] at hbase
  revert hbase
  have hcut : ∀ (s₁ : Server) (g : Focus), s₁.refs.Live (markPaths s₁.tree) → g.zip = s₁.tree →
      Dormant g.ctx g.win → Present (markPaths (zip g.ctx g.next)) 0 →
      ((postorder (.node g.win g.childs .nil)).foldl window_delete_one s₁).refs.Live
        (markPaths (zip g.ctx g.next)) := by
    intro s₁ g h₁ hg hd h0
    have hnot : reallyOpen (g.win.mark, ancestors (mapCtx Window.mark g.ctx)) = false := by
      rw [reallyOpen, all_open_mark]
      rcases hd with hd | ⟨a, ha, hd⟩
      · rw [show g.win.mark.is_open = g.win.is_open from rfl, hd, Bool.false_and]
      · rw [List.all_eq_false.mpr ⟨a, ha, by simp [hd]⟩, Bool.and_false]
    have hm : markPaths (zip g.ctx g.next) = paths [] g.cut := by
      rw [markPaths, map_zip]
      rfl
    rw [hm] at h0 ⊢
    rw [delete_refs]
    rw [markPaths, focus_mark hg] at h₁
    refine (h₁.cut ?_ ?_ ?_).perm (cut_perm g)
    · have hnil : openMarks (ancestors (mapCtx Window.mark g.ctx))
          (.node g.win.mark (g.childs.map Window.mark) .nil) = [] := by
        rw [openMarks_node, hnot]
        rfl
      rw [openMarks, List.map_eq_nil_iff, List.filter_eq_nil_iff] at hnil
      exact hnil
    · intro p hp
      have hp := List.mem_map_of_mem (f := Prod.fst) hp
      have hmap : (Forest.node g.win.mark (g.childs.map Window.mark) .nil) =
          (Forest.node g.win g.childs .nil).map Window.mark := rfl
      rw [Focus.inner, paths_fst] at hp
      change p.1 ∈ (Forest.node g.win.mark (g.childs.map Window.mark) .nil).toList at hp
      rw [hmap, toList_map] at hp
      exact ((postorder_perm _).map _).mem_iff.mpr hp
    · obtain ⟨p, hp, he⟩ := h0
      exact ⟨p, (cut_perm g).mem_iff.mp hp, he⟩
  unfold window_delete
  simp only [hk, Bool.not_true, Bool.false_eq_true, if_false]
  split_ifs with ho
  · exact hcut _ _ (window_close_live D h hf hc hl) (window_close_zip D s f hf)
      (window_close_dormant D s f hk)
  · exact hcut s f hl hf (.inl (by simpa using ho))

theorem createWindow_refs_live {D : Driver} {s s' : Server} {cptr : Client}
    {wwidth wheight handle : Int} {flags : Flags} {parent : Focus} (hp : parent.zip = s.tree)
    (hc : createWindow D s cptr wwidth wheight flags parent = some (handle, s'))
    (hl : s.refs.Live (markPaths s.tree)) : s'.refs.Live (markPaths s'.tree) := by
  rcases createWindow_cases hc with ⟨-, rfl⟩ | ⟨id, tab, -, -, hnew⟩
  · exact hl
  · set win := newWindow D cptr.id wwidth wheight flags id tab.2
    have hperm := hnew.paths hp Window.mark
    have hr : s'.refs = { s.refs with
        top := if win.flags.has W_TOP then some win.id else s.refs.top } := by
      rw [hnew.others]
      rfl
    have hcov : Covers (markPaths s.tree) (markPaths s'.tree) :=
      Covers.of_subset fun q hq => hperm.mem_iff.mpr (List.mem_cons_of_mem _ hq)
    have hnext := hl.mono hcov
    rw [hr]
    refine ⟨hnext.active, hnext.activetop, hnext.cache, ?_, hnext.left, hnext.right⟩
    intro i hi
    dsimp only at hi
    split_ifs at hi with ht
    · obtain rfl := Option.some.inj hi
      exact ⟨_, hperm.mem_iff.mpr List.mem_cons_self, rfl, ht⟩
    · exact hnext.top i hi

theorem act_referenced {D : Driver} (s t : Server) (h : s.Referenced) (ha : Act D s t) : t.Referenced := by
  obtain ⟨hc, hlit, hl⟩ := h
  refine ⟨act_counted s t hc ha, act_lit s t hlit ha, ?_⟩
  cases ha with
  | draw f win hf hw =>
    refine Refs.Live.congr hl ?_ rfl
    have hm : win.mark = f.win.mark :=
      congrArg (fun q => Mark.mk q.2.1 q.2.2.1 q.2.2.2.1 q.1.1.1) hw
    rw [focus_mark hf]
    simp only [Server.setFocus, Focus.zip, map_zip, Forest.map, hm]
    rfl
  | active dashed f hf =>
    obtain ⟨t, scr, he⟩ := drawActive_frame D dashed s f
    apply Refs.Live.congr hl (marks_of_state (drawActive_state D dashed s f hf))
    rw [he]
    rfl
  | place =>
    apply hl.press
    · intro id hid
      cases hid
    · intro id hid
      cases hid
  | pointer mx my => exact pointer_live D hl mx my
  | «open» f x y hf ho => exact window_open_live D hc x y hf ho hl
  | close f hf _ hh => exact window_close_live D hc hf (hc.client_of_handle hf hh) hl
  | move f x y hf =>
    obtain ⟨t, scr, he⟩ := window_move_frame D s f x y
    apply Refs.Live.congr hl (window_move_mark D s x y hf)
    rw [he]
    rfl
  | to_top f hf =>
    obtain ⟨t, scr, he⟩ := window_to_top_frame D s f
    have hr : (window_to_top D s f).2.1.refs = s.refs := by
      rw [he]
      rfl
    rw [hr]
    exact hl.perm (marks_of_paths (window_to_top_paths D hf))
  | to_bottom f hf =>
    obtain ⟨t, scr, he⟩ := window_to_bottom_frame D s f
    have hr : (window_to_bottom D s f).2.1.refs = s.refs := by
      rw [he]
      rfl
    rw [hr]
    exact hl.perm (marks_of_paths (window_to_bottom_paths D hf))
  | resize handle width height =>
    apply Refs.Live.congr hl (resizeWindow_mark D s handle width height)
    unfold resizeWindow
    split <;> rfl
  | delete f hf hh => exact window_delete_refs_live D hc hf (hc.client_of_handle hf hh) hl
  | create cptr wwidth wheight flags parent _ _ hp hm hcr => exact createWindow_refs_live hp hcr hl

theorem serve_referenced (h : s.Referenced) (r : Request × Point) :
    (serve D s r).Referenced := by
  have hc := serve_counted D h.toCounted r
  rcases serve_cases D s r with ha | ⟨cid, raddr, uid, -, he⟩ | ⟨cid, -, he⟩
  · exact ha.keep act_referenced h
  · refine ⟨hc, ?_, ?_⟩
    all_goals
      rw [he, createClient]
      split_ifs
    · exact h.lit
    · exact h.lit
    · exact h.live
    · exact h.live
  · have hk := (windowKillClient_acts D r.2 s cid).keep act_referenced h
    refine ⟨hc, ?_, ?_⟩
    · rw [he]
      exact hk.lit
    · rw [he]
      exact hk.live

theorem window_init_referenced (d : Display) (screen : Pixmap) (colors : Colors) :
    (window_init d screen colors).Referenced := by
  refine ⟨window_init_counted d screen colors, window_init_lit d screen colors, ?_⟩
  have h0 := (present_iff _ 0).mpr (window_init_counted d screen colors).base.1
  exact ⟨h0, h0, nofun, nofun, nofun, nofun⟩

end WWindowSystem
