import WWindowSystem.Server.Marks

namespace WWindowSystem

open Forest

structure Owner where
  id : Nat
  cptr : Option Nat
  flags : Flags

def Mark.owner (m : Mark) : Owner := ⟨m.id, m.cptr, m.flags⟩

def Window.owner (w : Window) : Owner := w.mark.owner

theorem owner_of_mark {t u : Forest Window} (h : t.map Window.mark = u.map Window.mark) :
    t.map Window.owner = u.map Window.owner := by
  have := congrArg (Forest.map Mark.owner) h
  rw [map_map, map_map] at this
  exact this

variable {s : Server} {t : Forest Window} {f : Focus}

theorem marked_owner {b : Bool} (hf : f.zip = s.tree)
    (h : t.map Window.mark = f.marked b) : t.map Window.owner = s.tree.map Window.owner := by
  have ht := congrArg (Forest.map Mark.owner) h
  have hs := congrArg (Forest.map Mark.owner) (focus_mark hf)
  simp only [Focus.marked, map_zip, Forest.map] at ht hs
  rw [map_map] at ht hs
  exact ht.trans hs.symm

def ownerPaths (t : Forest Window) : List (Owner × List Owner) := paths [] (t.map Window.owner)

theorem ownerPaths_eq (t : Forest Window) :
    ownerPaths t = (markPaths t).map fun p => (p.1.owner, p.2.map Mark.owner) := by
  have := paths_map Mark.owner [] (t.map Window.mark)
  rw [map_map] at this
  exact this

/-- The owner of a window in its place: the two windows of the server itself have no client, and
what is below a window of a client belongs to a client. -/
structure Owned (clients : List Nat) (p : Owner × List Owner) : Prop where
  server : p.1.cptr = none → p.1.id < 2 ∧ p.1.flags.has W_NOMOUSE = false ∧ ∀ a ∈ p.2, a.cptr = none
  client : ∀ c, p.1.cptr = some c → c ∈ clients ∧ p.2 ≠ [] ∧ 2 ≤ p.1.id
  root : p.2 = [] → p.1.id = 1

structure Server.Tidy (s : Server) : Prop where
  nodup : s.ids.Nodup
  distinct : (s.clients.map Client.id).Nodup
  owned : ∀ p ∈ ownerPaths s.tree, Owned (s.clients.map Client.id) p
  server : ∀ m ∈ (s.tree.map Window.mark).toList, m.cptr = none → m.is_open = true
  base : 0 ∈ s.ids ∧ 1 ∈ s.ids

theorem ids_owner (s : Server) : s.ids = (ownerPaths s.tree).map fun p => p.1.id := by
  have : (ownerPaths s.tree).map (fun p => p.1.id) = ((ownerPaths s.tree).map Prod.fst).map Owner.id := by
    rw [List.map_map]
    rfl
  rw [this, ownerPaths, paths_fst, toList_map, List.map_map]
  rfl

theorem marks_toList (s : Server) : (s.tree.map Window.mark).toList = (markPaths s.tree).map Prod.fst :=
  (paths_fst [] _).symm

theorem Server.Tidy.perm {s s' : Server} (h : s.Tidy) (ht : (markPaths s'.tree).Perm (markPaths s.tree))
    (hc : s'.clients.map Client.id = s.clients.map Client.id) : s'.Tidy := by
  have ho : (ownerPaths s'.tree).Perm (ownerPaths s.tree) := by
    rw [ownerPaths_eq, ownerPaths_eq]
    exact ht.map _
  constructor
  · rw [ids_owner, (ho.map _).nodup_iff, ← ids_owner]
    exact h.nodup
  · rw [hc]
    exact h.distinct
  · intro p hp
    rw [hc]
    exact h.owned p (ho.mem_iff.mp hp)
  · intro m hm
    apply h.server
    rw [marks_toList] at hm ⊢
    exact (ht.map _).mem_iff.mp hm
  · rw [ids_owner, (ho.map _).mem_iff, (ho.map _).mem_iff, ← ids_owner]
    exact h.base

theorem Server.Tidy.congr {s s' : Server} (h : s.Tidy) (ht : s'.tree.map Window.mark = s.tree.map Window.mark)
    (hc : s'.clients.map Client.id = s.clients.map Client.id) : s'.Tidy := by
  apply h.perm _ hc
  rw [markPaths, markPaths, ht]

theorem focus_owner (hf : f.zip = t) :
    (f.win.owner, (ancestors f.ctx).map Window.owner) ∈ ownerPaths t := by
  rw [ownerPaths, ← hf, Focus.zip, map_zip, ← ancestors_map]
  exact mem_paths_of_zip rfl

theorem Server.Tidy.focus (h : s.Tidy) (hf : f.zip = s.tree) :
    Owned (s.clients.map Client.id) (f.win.owner, (ancestors f.ctx).map Window.owner) :=
  h.owned _ (focus_owner hf)

theorem Server.Tidy.client_of_closed (h : s.Tidy) (hf : f.zip = s.tree)
    (ho : f.win.is_open = false) : f.win.cptr ≠ none := by
  intro hc
  have hm : f.win.mark ∈ (s.tree.map Window.mark).toList := by
    rw [toList_map]
    apply List.mem_map_of_mem
    rw [← hf]
    exact mem_zip.mpr (.inl List.mem_cons_self)
  exact Bool.false_ne_true (ho.symm.trans (h.server _ hm hc))

theorem Server.Tidy.client_of_handle (h : s.Tidy) (hf : f.zip = s.tree)
    (hh : 2 ≤ f.win.id) : f.win.cptr ≠ none := by
  intro hc
  have := ((h.focus hf).server hc).1
  change f.win.id < 2 at this
  omega

theorem Server.Tidy.hasParent (h : s.Tidy) (hf : f.zip = s.tree)
    (hc : f.win.cptr ≠ none) : hasParent f.ctx = true := by
  obtain ⟨c, hc⟩ := Option.ne_none_iff_exists'.mp hc
  have := ((h.focus hf).client c hc).2.1
  rw [hasParent_iff]
  simpa using this

theorem Server.Tidy.marked {s s' : Server} {b : Bool} (h : s.Tidy) (hf : f.zip = s.tree)
    (hw : f.win.cptr ≠ none) (ht : s'.tree.map Window.mark = f.marked b)
    (hc : s'.clients.map Client.id = s.clients.map Client.id) : s'.Tidy := by
  have ho : ownerPaths s'.tree = ownerPaths s.tree := by
    rw [ownerPaths, ownerPaths, marked_owner hf ht]
  constructor
  · rw [ids_owner, ho, ← ids_owner]
    exact h.nodup
  · rw [hc]
    exact h.distinct
  · rw [ho, hc]
    exact h.owned
  · intro m hm hn
    rw [ht, Focus.marked, mem_zip] at hm
    have hs := h.server m
    rw [focus_mark hf, Focus.marked, mem_zip] at hs
    simp only [toList, List.mem_cons] at hm hs
    rcases hm with (rfl | hm) | hm
    · exact absurd hn hw
    · exact hs (.inl (.inr hm)) hn
    · exact hs (.inr hm) hn
  · rw [ids_owner, ho, ← ids_owner]
    exact h.base

def Focus.subtree (f : Focus) : List Mark := f.win.mark :: (f.childs.map Window.mark).toList

def Focus.cut (f : Focus) : Forest Mark :=
  Forest.zip (mapCtx Window.mark f.ctx) (f.next.map Window.mark)

theorem Server.Tidy.below (h : s.Tidy) (hf : f.zip = s.tree)
    (hc : f.win.cptr ≠ none) : ∀ m ∈ f.subtree, m.cptr.isSome = true := by
  intro m hm
  rw [Focus.subtree, List.mem_cons] at hm
  rcases hm with rfl | hm
  · exact Option.isSome_iff_ne_none.mpr hc
  · rw [← paths_fst (f.win.mark :: ancestors (mapCtx Window.mark f.ctx))] at hm
    obtain ⟨p, hp, rfl⟩ := List.mem_map.mp hm
    obtain ⟨l, hl⟩ := paths_suffix hp
    have hmem : p ∈ markPaths s.tree := by
      rw [markPaths, focus_mark hf, Focus.marked, (paths_zip _ _).mem_iff]
      apply List.mem_append_left
      rw [paths, List.mem_cons, List.mem_append]
      exact .inr (.inl hp)
    rw [Option.isSome_iff_ne_none]
    intro hn
    have ho := h.owned (p.1.owner, p.2.map Mark.owner) (by
      rw [ownerPaths_eq]
      exact List.mem_map_of_mem hmem)
    apply hc
    apply (ho.server hn).2.2 f.win.owner
    rw [← hl, List.map_append]
    exact List.mem_append_right _ List.mem_cons_self

theorem cut_paths {s s' : Server} (hf : f.zip = s.tree) (ht : s'.tree.map Window.mark = f.cut) :
    ∃ l, (markPaths s.tree).Perm (l ++ markPaths s'.tree) ∧ l.map Prod.fst = f.subtree := by
  refine ⟨paths (ancestors (mapCtx Window.mark f.ctx))
    (.node f.win.mark (f.childs.map Window.mark) .nil), ?_, ?_⟩
  · rw [markPaths, markPaths, ht, focus_mark hf, Focus.marked, Focus.cut]
    apply (paths_zip _ _).trans
    apply List.Perm.trans _ (List.Perm.append_left _ (paths_zip _ _).symm)
    simp only [paths, List.append_nil, List.cons_append, List.append_assoc]
    exact List.Perm.refl _
  · rw [paths_fst, toList, toList, List.append_nil, Focus.subtree]

theorem mark_client (h : s.Tidy) {m : Mark} (hm : m ∈ (s.tree.map Window.mark).toList)
    {c : Nat} (hc : m.cptr = some c) : c ∈ s.clients.map Client.id ∧ 2 ≤ m.id := by
  rw [marks_toList] at hm
  obtain ⟨p, hp, rfl⟩ := List.mem_map.mp hm
  have ho := h.owned (p.1.owner, p.2.map Mark.owner) (by
    rw [ownerPaths_eq]
    exact List.mem_map_of_mem hp)
  have := ho.client c hc
  exact ⟨this.1, this.2.2⟩

theorem ids_mark (s : Server) : s.ids = (s.tree.map Window.mark).toList.map Mark.id := by
  rw [toList_map, List.map_map]
  rfl

theorem Server.Tidy.cut {s s' : Server} (h : s.Tidy) (hf : f.zip = s.tree)
    (hw : f.win.cptr ≠ none) (ht : s'.tree.map Window.mark = f.cut)
    (hc : s'.clients.map Client.id = s.clients.map Client.id) : s'.Tidy := by
  obtain ⟨l, hp, hl⟩ := cut_paths hf ht
  have ho : (ownerPaths s.tree).Perm
      (l.map (fun p => (p.1.owner, p.2.map Mark.owner)) ++ ownerPaths s'.tree) := by
    rw [ownerPaths_eq, ownerPaths_eq, ← List.map_append]
    exact hp.map _
  have hm : (s.tree.map Window.mark).toList.Perm (f.subtree ++ (s'.tree.map Window.mark).toList) := by
    rw [marks_toList, marks_toList, ← hl, ← List.map_append]
    exact hp.map _
  have hids : s.ids.Perm (f.subtree.map Mark.id ++ s'.ids) := by
    rw [ids_mark, ids_mark, ← List.map_append]
    exact hm.map _
  have hbase : ∀ i, i < 2 → i ∈ s.ids → i ∈ s'.ids := by
    intro i hi hmem
    rw [hids.mem_iff, List.mem_append] at hmem
    rcases hmem with hmem | hmem
    · obtain ⟨m, hms, rfl⟩ := List.mem_map.mp hmem
      obtain ⟨c, hcm⟩ := Option.isSome_iff_exists.mp (h.below hf hw m hms)
      have := (mark_client h (hm.mem_iff.mpr (List.mem_append_left _ hms)) hcm).2
      omega
    · exact hmem
  constructor
  · exact (List.nodup_append.mp (hids.nodup_iff.mp h.nodup)).2.1
  · rw [hc]
    exact h.distinct
  · intro p hm
    rw [hc]
    exact h.owned p (ho.mem_iff.mpr (List.mem_append_right _ hm))
  · intro m hms
    exact h.server m (hm.mem_iff.mpr (List.mem_append_right _ hms))
  · exact ⟨hbase 0 (by omega) h.base.1, hbase 1 (by omega) h.base.2⟩

variable {parent : Focus}

theorem Server.Tidy.created {s s' : Server} {m : Mark} (h : s.Tidy) (hf : parent.zip = s.tree)
    (ht : s'.tree.map Window.mark = zip (.parent parent.win.mark (parent.next.map Window.mark) ::
      mapCtx Window.mark parent.ctx) (.node m .nil (parent.childs.map Window.mark)))
    (hid : m.id ∉ s.ids) {c : Nat} (hm : m.cptr = some c) (hmem : c ∈ s.clients.map Client.id)
    (hc : s'.clients.map Client.id = s.clients.map Client.id) : s'.Tidy := by
  have hp : (markPaths s'.tree).Perm
      ((m, parent.win.mark :: ancestors (mapCtx Window.mark parent.ctx)) :: markPaths s.tree) := by
    have hs : s.tree.map Window.mark = zip (.parent parent.win.mark (parent.next.map Window.mark) ::
        mapCtx Window.mark parent.ctx) (parent.childs.map Window.mark) := focus_mark hf
    rw [markPaths, markPaths, ht, hs]
    exact paths_push _ _ _ _ _
  have ho : (ownerPaths s'.tree).Perm ((m.owner, parent.win.owner ::
      (ancestors (mapCtx Window.mark parent.ctx)).map Mark.owner) :: ownerPaths s.tree) := by
    rw [ownerPaths_eq, ownerPaths_eq]
    exact hp.map _
  have hms : (s'.tree.map Window.mark).toList.Perm (m :: (s.tree.map Window.mark).toList) := by
    rw [marks_toList, marks_toList]
    exact hp.map _
  have hids : s'.ids.Perm (m.id :: s.ids) := by
    rw [ids_mark, ids_mark]
    exact hms.map _
  have hge : 2 ≤ m.id := by
    have h0 : m.id ≠ 0 := fun he => hid (he ▸ h.base.1)
    have h1 : m.id ≠ 1 := fun he => hid (he ▸ h.base.2)
    omega
  constructor
  · exact hids.nodup_iff.mpr (List.nodup_cons.mpr ⟨hid, h.nodup⟩)
  · rw [hc]
    exact h.distinct
  · intro p hpm
    rw [hc]
    rcases List.mem_cons.mp (ho.mem_iff.mp hpm) with rfl | hpm
    · constructor
      · intro hn
        rw [show m.owner.cptr = m.cptr from rfl, hm] at hn
        cases hn
      · intro c' hc'
        obtain rfl : c = c' := Option.some.inj (hm.symm.trans hc')
        exact ⟨hmem, List.cons_ne_nil _ _, hge⟩
      · exact fun hn => absurd hn (List.cons_ne_nil _ _)
    · exact h.owned p hpm
  · intro m' hm' hn
    rcases List.mem_cons.mp (hms.mem_iff.mp hm') with rfl | hm'
    · rw [hm] at hn
      cases hn
    · exact h.server m' hm' hn
  · exact ⟨hids.mem_iff.mpr (List.mem_cons_of_mem _ h.base.1),
      hids.mem_iff.mpr (List.mem_cons_of_mem _ h.base.2)⟩

theorem Created.paths {D : Driver} {s s' : Server} {cptr : Client} {win : Window} {tab : Colors × Nat}
    {β : Type} (h : Created D s cptr win tab parent s') (hp : parent.zip = s.tree) (g : Window → β) :
    (Forest.paths [] (s'.tree.map g)).Perm
      ((g win, g parent.win :: ancestors (mapCtx g parent.ctx)) :: Forest.paths [] (s.tree.map g)) := by
  rw [h.tree, ← hp, Focus.zip, map_zip, map_zip]
  exact paths_push _ _ _ _ _

theorem client_delete_mark (D : Driver) {handle : Nat} (mouse : Point)
    (h : s.Tidy) (hf : s.windowLookup handle = some f) (hh : 2 ≤ handle) (hc : f.win.cptr ≠ none) :
    (client_delete D s handle mouse).2.tree.map Window.mark = f.cut := by
  have hk := h.hasParent (Server.windowLookup_zip hf).1 hc
  rw [mark_of_state (client_delete_state D mouse h.nodup hf hh hc hk), map_zip, mapCtx_mark, map_mark]
  rfl

theorem Server.Tidy.tree (h : s.Tidy) : ∃ w cs, s.tree = .node w cs .nil ∧ w.id = 1 := by
  have hroot : ∀ p ∈ ownerPaths s.tree, p.2 = [] → p.1.id = 1 := fun p hp => (h.owned p hp).root
  have hn := h.nodup
  have hb := h.base.1
  rw [ownerPaths] at hroot
  rw [Server.ids] at hn hb
  cases hs : s.tree with
  | nil =>
    rw [hs] at hb
    cases hb
  | node w cs ns =>
    rw [hs, Forest.map, paths] at hroot
    have hw : w.id = 1 := hroot _ List.mem_cons_self rfl
    cases ns with
    | nil => exact ⟨w, cs, rfl, hw⟩
    | node v cs' ns' =>
      have hv : v.id = 1 := hroot (v.owner, []) (by simp [Forest.map, paths]) rfl
      rw [hs] at hn
      simp only [toList, List.map_cons, List.map_append, List.nodup_cons] at hn
      exact absurd (List.mem_append_right _ (by rw [hw, hv]; exact List.mem_cons_self)) hn.1

end WWindowSystem
