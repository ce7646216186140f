import WWindowSystem.Library.Forest

namespace WWindowSystem

namespace Forest

variable {α β : Type}

/-- All nodes, each one with its ancestors, when `a` are the ancestors of the topmost ones. -/
def paths (a : List α) : Forest α → List (α × List α)
  | .nil => []
  | .node w cs ns => (w, a) :: (paths (w :: a) cs ++ paths a ns)

def pathsAround : Context α → List (α × List α)
  | [] => []
  | .prev w cs :: k => (w, ancestors k) :: (paths (w :: ancestors k) cs ++ pathsAround k)
  | .parent w ns :: k => (w, ancestors k) :: (paths (ancestors k) ns ++ pathsAround k)

variable (a : List α)

theorem paths_fst (t : Forest α) : (paths a t).map Prod.fst = t.toList := by
  induction t generalizing a with
  | nil => rfl
  | node w cs ns ihc ihn => simp only [paths, toList, List.map_cons, List.map_append, ihc, ihn]

theorem paths_append (t u : Forest α) : paths a (t.append u) = paths a t ++ paths a u := by
  induction t with
  | nil => rfl
  | node w cs ns _ ihn => simp only [append, paths, ihn, List.cons_append, List.append_assoc]

theorem paths_map (f : α → β) (a : List α) (t : Forest α) :
    paths (a.map f) (t.map f) = (paths a t).map fun p => (f p.1, p.2.map f) := by
  induction t generalizing a with
  | nil => rfl
  | node w cs ns ihc ihn =>
    have hc := ihc (w :: a)
    rw [List.map_cons] at hc
    simp only [paths, map, List.map_cons, List.map_append, hc, ihn]

variable (k : Context α)

theorem paths_zip (t : Forest α) :
    (paths [] (zip k t)).Perm (paths (ancestors k) t ++ pathsAround k) := by
  induction k generalizing t with
  | nil =>
    rw [zip, pathsAround, List.append_nil]
    exact .refl _
  | cons c k ih =>
    cases c with
    | prev w cs =>
      apply (ih _).trans
      simp only [paths, ancestors, pathsAround, List.cons_append, List.append_assoc]
      apply List.Perm.trans _ List.perm_middle.symm
      apply List.Perm.cons
      rw [← List.append_assoc, ← List.append_assoc]
      exact List.perm_append_comm.append_right _
    | parent w ns =>
      apply (ih _).trans
      simp only [paths, ancestors, pathsAround, List.cons_append, List.append_assoc]
      exact List.perm_middle.symm

theorem paths_push (p m : α) (ns cs : Forest α) :
    (paths [] (zip (.parent p ns :: k) (.node m .nil cs))).Perm
      ((m, p :: ancestors k) :: paths [] (zip (.parent p ns :: k) cs)) := by
  apply (paths_zip _ _).trans
  apply List.Perm.trans _ ((paths_zip _ _).symm.cons _)
  simp only [paths, List.nil_append, List.cons_append, ancestors]
  exact List.Perm.refl _

theorem paths_restack (w : α) (cs l ns : Forest α) : (paths [] (zip k (.node w cs (l.append ns)))).Perm
      (paths [] (zip k (l.append (.node w cs ns)))) := by
  apply (paths_zip k _).trans (List.Perm.trans _ (paths_zip k _).symm)
  apply List.Perm.append_right
  simp only [paths, paths_append]
  apply List.Perm.trans _ List.perm_middle.symm
  apply List.Perm.cons
  rw [← List.append_assoc, ← List.append_assoc]
  exact List.perm_append_comm.append_right _

variable {t : Forest α} {p : α × List α}

theorem paths_suffix {a : List α} (h : p ∈ paths a t) : a <:+ p.2 := by
  induction t generalizing a with
  | nil => cases h
  | node w cs ns ihc ihn =>
    rw [paths, List.mem_cons, List.mem_append] at h
    rcases h with rfl | h | h
    · exact List.suffix_rfl
    · exact (List.suffix_cons w a).trans (ihc h)
    · exact ihn h

theorem paths_above (t : Forest α) : paths a t = (paths [] t).map fun p => (p.1, p.2 ++ a) := by
  have key : ∀ b, paths (b ++ a) t = (paths b t).map fun p => (p.1, p.2 ++ a) := by
    induction t with
    | nil => exact fun _ => rfl
    | node w cs ns ihc ihn =>
      intro b
      have hc := ihc (w :: b)
      rw [List.cons_append] at hc
      rw [paths, paths, hc, ihn, List.map_cons, List.map_append]
  exact key []

theorem mem_of_paths {a : List α} (h : p ∈ paths a t) :
    ∀ x ∈ p.1 :: p.2, x ∈ t.toList ∨ x ∈ a := by
  induction t generalizing a with
  | nil => cases h
  | node w cs ns ihc ihn =>
    intro x hx
    rw [toList, List.mem_cons, List.mem_append]
    rw [paths, List.mem_cons, List.mem_append] at h
    rcases h with rfl | h | h
    · rcases List.mem_cons.mp hx with rfl | hx
      · exact .inl (.inl rfl)
      · exact .inr hx
    · rcases ihc h x hx with hx | hx
      · exact .inl (.inr (.inl hx))
      · rcases List.mem_cons.mp hx with rfl | hx
        · exact .inl (.inl rfl)
        · exact .inr hx
    · rcases ihn h x hx with hx | hx
      · exact .inl (.inr (.inr hx))
      · exact .inr hx

theorem mem_paths_cut {κ : Type} (key : α → κ) {k : Context α} {w : α} {cs ns : Forest α}
    (hn : ((zip k (.node w cs ns)).toList.map key).Nodup) (p : α × List α) : p ∈ paths [] (zip k ns) ↔
      p ∈ paths [] (zip k (.node w cs ns)) ∧ ∀ a ∈ p.1 :: p.2, key a ≠ key w := by
  rw [(paths_zip _ _).mem_iff, (paths_zip _ _).mem_iff, paths]
  constructor
  · intro hp
    refine ⟨?_, fun a ha he => ?_⟩
    · rcases List.mem_append.mp hp with hp | hp
      · exact List.mem_append_left _ (List.mem_cons_of_mem _ (List.mem_append_right _ hp))
      · exact List.mem_append_right _ hp
    · have hm : a ∈ (zip k ns).toList :=
        (mem_of_paths ((paths_zip k ns).mem_iff.mpr hp) a ha).resolve_right List.not_mem_nil
      have hperm : (zip k (.node w cs ns)).toList.Perm (w :: (cs.toList ++ (zip k ns).toList)) := by
        rw [← paths_fst [], ← paths_fst [] (zip k ns), ← paths_fst (w :: ancestors k) cs]
        have h1 := (paths_zip k (.node w cs ns)).map Prod.fst
        have h2 := (paths_zip k ns).map Prod.fst
        rw [paths, List.cons_append, List.append_assoc, List.map_cons, List.map_append] at h1
        exact h1.trans ((h2.symm.append_left _).cons _)
      have hc := (hperm.map key).nodup_iff.mp hn
      rw [List.map_cons, List.nodup_cons] at hc
      apply hc.1
      rw [← he]
      exact List.mem_map_of_mem (List.mem_append_right _ hm)
  · rintro ⟨hp, ha⟩
    rcases List.mem_append.mp hp with hp | hp
    · rcases List.mem_cons.mp hp with rfl | hp
      · exact absurd rfl (ha w List.mem_cons_self)
      · rcases List.mem_append.mp hp with hp | hp
        · have hw := (paths_suffix hp).mem List.mem_cons_self
          exact absurd rfl (ha w (List.mem_cons_of_mem _ hw))
        · exact List.mem_append_left _ hp
    · exact List.mem_append_right _ hp

theorem exists_zip_of_mem_paths {k : Context α} (h : p ∈ paths (ancestors k) t) :
    ∃ k' cs ns, zip k' (.node p.1 cs ns) = zip k t ∧ ancestors k' = p.2 := by
  induction t generalizing k with
  | nil => cases h
  | node w cs ns ihc ihn =>
    rw [paths, List.mem_cons, List.mem_append] at h
    rcases h with rfl | h | h
    · exact ⟨k, cs, ns, rfl, rfl⟩
    · exact ihc (k := .parent w ns :: k) h
    · exact ihn (k := .prev w cs :: k) h

theorem mem_paths_of_zip {k : Context α} {w : α} {cs ns t : Forest α}
    (h : zip k (.node w cs ns) = t) : (w, ancestors k) ∈ paths [] t := by
  rw [← h, (paths_zip k _).mem_iff]
  exact List.mem_append_left _ List.mem_cons_self

end Forest

end WWindowSystem

namespace WWindowSystem

namespace Forest

variable {α : Type}

def prune (del : α → Bool) : Forest α → Forest α
  | .nil => .nil
  | .node a cs ns => if del a then ns.prune del else .node a (cs.prune del) (ns.prune del)

variable (t : Forest α)

theorem prune_all : t.prune (fun _ => true) = .nil := by
  induction t with
  | nil => rfl
  | node a cs ns _ ihn => rw [prune, if_pos rfl, ihn]

variable {del : α → Bool}

theorem prune_of_forall {t : Forest α} (h : ∀ a ∈ t.toList, del a = false) : t.prune del = t := by
  induction t with
  | nil => rfl
  | node a cs ns ihc ihn =>
    simp only [toList, List.forall_mem_cons, List.forall_mem_append] at h
    rw [prune, h.1, if_neg Bool.false_ne_true, ihc h.2.1, ihn h.2.2]

theorem paths_prune {l : List α} (hl : ∀ a ∈ l, del a = false) :
    paths l (t.prune del) = (paths l t).filter fun p => (p.1 :: p.2).all fun a => !del a := by
  induction t generalizing l with
  | nil => rfl
  | node a cs ns ihc ihn =>
    rw [prune, paths, List.filter_cons, List.filter_append, ← ihn hl]
    cases ha : del a with
    | true =>
      have hc : (paths (a :: l) cs).filter (fun p => (p.1 :: p.2).all fun a => !del a) = [] := by
        apply List.filter_eq_nil_iff.mpr
        intro p hp
        have hm := (paths_suffix hp).subset List.mem_cons_self
        simp only [List.all_cons, List.all_eq_true, Bool.and_eq_true, not_and]
        intro _ h
        simpa [ha] using h a hm
      rw [hc, if_pos rfl, if_neg, List.nil_append]
      simp [ha]
    | false =>
      rw [if_neg Bool.false_ne_true, paths, if_pos, ihc]
      · simpa [ha] using hl
      · simpa [ha] using hl

theorem zip_concat (k j : Context α) (t : Forest α) : zip (k ++ j) t = zip j (zip k t) := by
  induction k generalizing t with
  | nil => rfl
  | cons c k ih => cases c <;> exact ih _

variable {k : Context α}

theorem below_root {a r : α} {ds ns cs : Forest α} (h : zip k (.node a ds ns) = .node r cs .nil) :
    k = [] ∧ a = r ∧ ds = cs ∧ ns = .nil ∨ ∃ j, k = j ++ [.parent r .nil] := by
  induction k generalizing a ds ns with
  | nil =>
    cases h
    exact .inl ⟨rfl, rfl, rfl, rfl⟩
  | cons c k ih =>
    cases c with
    | prev b es =>
      rcases ih h with ⟨-, -, -, he⟩ | ⟨j, rfl⟩
      · cases he
      · exact .inr ⟨.prev b es :: j, rfl⟩
    | parent b ms =>
      rcases ih h with ⟨rfl, rfl, -, rfl⟩ | ⟨j, rfl⟩
      · exact .inr ⟨[], rfl⟩
      · exact .inr ⟨.parent b ms :: j, rfl⟩

theorem tree_below {t cs : Forest α} {p r : α} (hp : p ∈ ancestors k)
    (h : zip k t = .node r cs .nil) (u : Forest α) : ∃ ds, zip k u = .node r ds .nil := by
  induction k generalizing t u with
  | nil => cases hp
  | cons c k ih =>
    cases c with
    | prev b es => exact ih hp h _
    | parent b ns =>
      rcases below_root h with ⟨rfl, rfl, -, rfl⟩ | ⟨j, rfl⟩
      · exact ⟨u, rfl⟩
      · exact ⟨zip j (.node b u ns), by rw [zip, zip_concat]; rfl⟩

theorem exists_zip {t : Forest α} {a : α} (h : a ∈ t.toList) : ∃ k cs ns, t = zip k (.node a cs ns) := by
  rw [← paths_fst []] at h
  obtain ⟨p, hp, rfl⟩ := List.mem_map.mp h
  obtain ⟨k, cs, ns, hz, -⟩ := exists_zip_of_mem_paths (k := []) hp
  exact ⟨k, cs, ns, hz.symm⟩

theorem prune_zip (hk : ∀ a ∈ around k, del a = false)
    (t : Forest α) : (zip k t).prune del = zip k (t.prune del) := by
  induction k generalizing t with
  | nil => rfl
  | cons c k ih =>
    cases c with
    | prev a cs =>
      simp only [around, List.forall_mem_cons, List.forall_mem_append] at hk
      rw [zip, ih hk.2.2, prune, hk.1, if_neg Bool.false_ne_true, prune_of_forall hk.2.1]
      rfl
    | parent a ns =>
      simp only [around, List.forall_mem_cons, List.forall_mem_append] at hk
      rw [zip, ih hk.2.2, prune, hk.1, if_neg Bool.false_ne_true, prune_of_forall hk.2.1]
      rfl

theorem prune_cut [DecidableEq α] {a : α} {cs ns : Forest α}
    (h : (zip k (.node a cs ns)).toList.Nodup) : (zip k (.node a cs ns)).prune (fun b => b = a) = zip k ns := by
  rw [(toList_zip k _).nodup_iff, List.nodup_append] at h
  obtain ⟨hn, -, hd⟩ := h
  rw [toList, List.nodup_cons, List.mem_append, not_or] at hn
  have hk : ∀ b ∈ around k, decide (b = a) = false := fun b hb =>
    decide_eq_false fun he => hd a List.mem_cons_self b hb he.symm
  have hns : ∀ b ∈ ns.toList, decide (b = a) = false := fun b hb =>
    decide_eq_false fun he => hn.1.2 (he ▸ hb)
  rw [prune_zip hk, prune, if_pos (decide_eq_true rfl), prune_of_forall hns]

end Forest

end WWindowSystem
