import Mathlib.Data.List.Perm.Basic
import Mathlib.Tactic.SplitIfs

namespace WWindowSystem

open Option

inductive Forest (α : Type) where
  | nil
  | node (w : α) (childs next : Forest α)

inductive Crumb (α : Type) where
  | prev (w : α) (childs : Forest α)
  | parent (w : α) (next : Forest α)

abbrev Context (α : Type) := List (Crumb α)

namespace Forest

variable {α β σ : Type}

def zip : Context α → Forest α → Forest α
  | [], t => t
  | .prev w cs :: k, t => zip k (.node w cs t)
  | .parent w ns :: k, t => zip k (.node w t ns)

def append : Forest α → Forest α → Forest α
  | .nil, u => u
  | .node w cs ns, u => .node w cs (ns.append u)

def past (k : Context α) : Forest α → Context α
  | .nil => k
  | .node w cs ns => past (.prev w cs :: k) ns

def toList : Forest α → List α
  | .nil => []
  | .node w cs ns => w :: (cs.toList ++ ns.toList)

def roots : Forest α → List α
  | .nil => []
  | .node w _ ns => w :: ns.roots

def map (f : α → β) : Forest α → Forest β
  | .nil => .nil
  | .node w cs ns => .node (f w) (cs.map f) (ns.map f)

/-- Preorder visit of a list of subtrees. The visitor sees where it stands, in a forest whose
earlier nodes are already updated; when it returns `true` the children of the node are skipped. -/
def visit (f : Context α → α → Forest α → α × Bool) (k : Context α) : Forest α → Forest α
  | .nil => .nil
  | .node w cs ns =>
    let r := f k w cs
    let cs' := if r.2 then cs else cs.visit f (.parent r.1 ns :: k)
    .node r.1 cs' (ns.visit f (.prev r.1 cs' :: k))

def scan (f : σ → α → σ × α) (s : σ) : Forest α → σ × Forest α
  | .nil => (s, .nil)
  | .node w cs ns =>
    let r := f s w
    let c := cs.scan f r.1
    let n := ns.scan f c.1
    (n.1, .node r.2 c.2 n.2)

def post (f : Context α → α → Forest α → α) (k : Context α) : Forest α → Forest α
  | .nil => .nil
  | .node w cs ns =>
    let cs' := cs.post f (.parent w ns :: k)
    let w' := f k w cs'
    .node w' cs' (ns.post f (.prev w' cs' :: k))

def onParent (f : Context α → α → Forest α → α) : Context α → Forest α → Context α
  | [], _ => []
  | .prev w cs :: k, t => .prev w cs :: onParent f k (.node w cs t)
  | .parent w ns :: k, t => .parent (f k w t) ns :: k

def locate (p : α → Bool) (k : Context α) : Forest α → Option (Context α × α × Forest α × Forest α)
  | .nil => none
  | .node w cs ns =>
    if p w then some (k, w, cs, ns)
    else (cs.locate p (.parent w ns :: k)).orElse fun _ => ns.locate p (.prev w cs :: k)

def mapCtx (f : α → β) : Context α → Context β
  | [] => []
  | .prev w cs :: k => .prev (f w) (cs.map f) :: mapCtx f k
  | .parent w ns :: k => .parent (f w) (ns.map f) :: mapCtx f k

def ancestors : Context α → List α
  | [] => []
  | .prev _ _ :: k => ancestors k
  | .parent w _ :: k => w :: ancestors k

def lefts : Context α → List α
  | [] => []
  | .prev w _ :: k => w :: lefts k
  | .parent _ _ :: k => lefts k

variable (k : Context α)

theorem zip_past (t u : Forest α) : zip (past k t) u = zip k (t.append u) := by
  induction t generalizing k with
  | nil => rfl
  | node w cs ns _ ihn => simp only [past, ihn, zip, append]

theorem past_append (t u : Forest α) : past k (t.append u) = past (past k t) u := by
  induction t generalizing k with
  | nil => rfl
  | node w cs ns _ ihn => simp only [append, past, ihn]

theorem append_nil (t : Forest α) : t.append .nil = t := by
  induction t with
  | nil => rfl
  | node w cs ns _ ihn => simp only [append, ihn]

theorem append_assoc (t u v : Forest α) : (t.append u).append v = t.append (u.append v) := by
  induction t with
  | nil => rfl
  | node w cs ns _ ihn => simp only [append, ihn]

theorem ancestors_past (t : Forest α) : ancestors (past k t) = ancestors k := by
  induction t generalizing k with
  | nil => rfl
  | node w cs ns _ ihn => simp only [past, ihn, ancestors]

@[simp] theorem toList_append (t u : Forest α) : (t.append u).toList = t.toList ++ u.toList := by
  induction t with
  | nil => rfl
  | node w cs ns _ ihn => simp only [append, toList, ihn, List.cons_append, List.append_assoc]

@[simp] theorem roots_append (t u : Forest α) : (t.append u).roots = t.roots ++ u.roots := by
  induction t with
  | nil => rfl
  | node w cs ns _ ihn => simp only [append, roots, ihn, List.cons_append]

theorem roots_subset (t : Forest α) : t.roots ⊆ t.toList := by
  induction t with
  | nil => exact fun _ h => h
  | node w cs ns _ ihn =>
    intro x hx
    rcases List.mem_cons.mp hx with rfl | hx
    · exact List.mem_cons_self
    · exact List.mem_cons_of_mem _ (List.mem_append_right _ (ihn hx))

@[simp] theorem toList_map (f : α → β) (t : Forest α) : (t.map f).toList = t.toList.map f := by
  induction t with
  | nil => rfl
  | node w cs ns ihc ihn => simp only [map, toList, ihc, ihn, List.map_cons, List.map_append]

@[simp] theorem roots_map (f : α → β) (t : Forest α) : (t.map f).roots = t.roots.map f := by
  induction t with
  | nil => rfl
  | node w cs ns _ ihn => simp only [map, roots, ihn, List.map_cons]

def around : Context α → List α
  | [] => []
  | .prev w cs :: k => w :: (cs.toList ++ around k)
  | .parent w ns :: k => w :: (ns.toList ++ around k)

theorem toList_zip (t : Forest α) : (zip k t).toList.Perm (t.toList ++ around k) := by
  induction k generalizing t with
  | nil => simp [zip, around]
  | cons c k ih =>
    cases c with
    | prev w cs =>
      refine (ih _).trans ?_
      simp only [toList, around, List.cons_append, List.append_assoc]
      refine (List.Perm.cons w ?_).trans List.perm_middle.symm
      rw [← List.append_assoc, ← List.append_assoc]
      exact List.perm_append_comm.append_right _
    | parent w ns =>
      refine (ih _).trans ?_
      simp only [toList, around, List.cons_append, List.append_assoc]
      exact List.perm_middle.symm

theorem zip_append_perm (w : α) (cs t u : Forest α) :
    (zip k (.node w cs (t.append u))).toList.Perm (zip k (t.append (.node w cs u))).toList := by
  refine (toList_zip _ _).trans (List.Perm.trans ?_ (toList_zip _ _).symm)
  refine List.Perm.append_right _ ?_
  simp only [toList, toList_append]
  refine List.Perm.trans (List.Perm.cons w ?_) List.perm_middle.symm
  rw [← List.append_assoc, ← List.append_assoc]
  exact List.perm_append_comm.append_right _

theorem zip_next_sublist (w : α) (cs t : Forest α) :
    ∃ l, (zip k t).toList.Perm l ∧ (toList (.node w cs t) ++ around k).Perm
      (zip k (.node w cs t)).toList ∧ l.Sublist (toList (.node w cs t) ++ around k) := by
  refine ⟨t.toList ++ around k, toList_zip k t, (toList_zip _ _).symm, ?_⟩
  refine List.Sublist.append_right ?_ _
  exact (List.sublist_append_right cs.toList t.toList).trans (List.sublist_cons_self w _)

variable {g : α → β} {w : α}

theorem zip_next_nodup {k : Context α} {cs t : Forest α}
    (h : ((zip k (.node w cs t)).toList.map g).Nodup) : ((zip k t).toList.map g).Nodup := by
  obtain ⟨l, hl, hz, hs⟩ := zip_next_sublist k w cs t
  rw [(hl.map g).nodup_iff]
  rw [← (hz.map g).nodup_iff] at h
  exact h.sublist (hs.map g)

variable {t : Forest α}

theorem mem_zip {k : Context α} : w ∈ (zip k t).toList ↔ w ∈ t.toList ∨ w ∈ around k := by
  rw [(toList_zip k t).mem_iff, List.mem_append]

variable (p : α → Bool)

theorem locate_zip (t : Forest α) (k : Context α) {k' : Context α}
    {cs ns : Forest α} (h : t.locate p k = some (k', w, cs, ns)) : zip k' (.node w cs ns) = zip k t ∧ p w = true := by
  induction t generalizing k with
  | nil => simp [locate] at h
  | node v ds ms ihc ihn =>
    rw [locate] at h
    split_ifs at h with hp
    · obtain ⟨rfl, rfl, rfl, rfl⟩ : k = k' ∧ v = w ∧ ds = cs ∧ ms = ns := by simpa using h
      exact ⟨rfl, hp⟩
    · cases hd : ds.locate p (.parent v ms :: k) with
      | some r =>
        rw [hd, orElse_some] at h
        exact ihc (.parent v ms :: k) (hd.trans h)
      | none =>
        rw [hd, orElse_none] at h
        exact ihn (.prev v ds :: k) h

theorem locate_isSome (t : Forest α) (k : Context α) (w : α) (hw : w ∈ t.toList)
    (hp : p w = true) : ∃ r, t.locate p k = some r := by
  induction t generalizing k with
  | nil => simp [toList] at hw
  | node v ds ms ihc ihn =>
    rw [locate]
    split_ifs with hv
    · exact ⟨_, rfl⟩
    · have hne : w ≠ v := by rintro rfl; exact hv hp
      cases hd : ds.locate p (.parent v ms :: k) with
      | some r => exact ⟨r, by rw [orElse_some]⟩
      | none =>
        rw [orElse_none]
        rcases List.mem_append.mp ((List.mem_cons.mp hw).resolve_left hne) with h | h
        · obtain ⟨r, hr⟩ := ihc (.parent v ms :: k) h
          rw [hd] at hr
          exact absurd hr (by simp)
        · exact ihn _ h

theorem locate_none {p : α → Bool} (h : ∀ w ∈ t.toList, p w = false) :
    t.locate p k = none := by
  induction t generalizing k with
  | nil => rfl
  | node w cs ns ihc ihn =>
    simp only [toList, List.forall_mem_cons, List.forall_mem_append] at h
    obtain ⟨hw, hc, hn⟩ := h
    rw [locate, hw, if_neg (by simp), ihc _ hc, ihn _ hn, orElse_none]

theorem locate_of_zip {p : α → Bool} {k : Context α}
    {r : Context α × α × Forest α × Forest α} (h : t.locate p k = some r)
    (hk : ∀ w ∈ around k, p w = false) : (zip k t).locate p [] = some r := by
  induction k generalizing t with
  | nil => exact h
  | cons c k ih =>
    cases c with
    | prev w cs =>
      simp only [around, List.forall_mem_cons, List.forall_mem_append] at hk
      obtain ⟨hw, hc, hk⟩ := hk
      refine ih ?_ hk
      rw [locate, hw, if_neg (by simp), locate_none _ hc, orElse_none, h]
    | parent w ns =>
      simp only [around, List.forall_mem_cons, List.forall_mem_append] at hk
      obtain ⟨hw, -, hk⟩ := hk
      refine ih ?_ hk
      rw [locate, hw, if_neg (by simp), h, orElse_some]

theorem lefts_subset : lefts k ⊆ around k := by
  induction k with
  | nil => exact fun _ h => h
  | cons c k ih =>
    cases c with
    | prev w cs =>
      refine List.cons_subset_cons w ?_
      exact List.Subset.trans ih (List.subset_append_right _ _)
    | parent w ns =>
      exact List.Subset.trans (List.Subset.trans ih (List.subset_append_right _ _))
        (List.subset_cons_self _ _)

theorem ancestors_subset : ancestors k ⊆ around k := by
  induction k with
  | nil => exact fun _ h => h
  | cons c k ih =>
    cases c with
    | prev w cs =>
      exact List.Subset.trans (List.Subset.trans ih (List.subset_append_right _ _))
        (List.subset_cons_self _ _)
    | parent w ns =>
      refine List.cons_subset_cons w ?_
      exact List.Subset.trans ih (List.subset_append_right _ _)

theorem map_map (g : β → σ) (f : α → β) (t : Forest α) : (t.map f).map g = t.map (g ∘ f) := by
  induction t with
  | nil => rfl
  | node w cs ns ihc ihn => simp only [map, ihc, ihn, Function.comp]

theorem mapCtx_mapCtx (g : β → σ) (f : α → β) (k : Context α) : mapCtx g (mapCtx f k) = mapCtx (g ∘ f) k := by
  induction k with
  | nil => rfl
  | cons c k ih => cases c <;> simp only [mapCtx, ih, map_map, Function.comp]

theorem map_congr {f g : α → β} (h : ∀ w, f w = g w) (t : Forest α) : t.map f = t.map g := by
  rw [funext h]

theorem mem_of_map_eq {f : α → β} {t u : Forest α} (h : t.map f = u.map f) :
    ∀ w ∈ t.toList, ∃ v ∈ u.toList, f w = f v := by
  intro w hw
  have hl := congrArg toList h
  rw [toList_map, toList_map] at hl
  have hm : f w ∈ u.toList.map f := hl ▸ List.mem_map_of_mem hw
  obtain ⟨v, hv, he⟩ := List.mem_map.mp hm
  exact ⟨v, hv, he.symm⟩

theorem map_append (f : α → β) (t u : Forest α) : (t.append u).map f = (t.map f).append (u.map f) := by
  induction t with
  | nil => rfl
  | node w cs ns _ ihn => simp only [append, map, ihn]

theorem map_zip (f : α → β) (k : Context α) (t : Forest α) : (zip k t).map f = zip (mapCtx f k) (t.map f) := by
  induction k generalizing t with
  | nil => rfl
  | cons c k ih => cases c <;> simp only [zip, ih, mapCtx, map]

theorem exists_zip_of_map {f : α → β} {k : Context β} {u : Forest β}
    (h : t.map f = zip k u) : ∃ k' u', t = zip k' u' ∧ mapCtx f k' = k ∧ u'.map f = u := by
  induction k generalizing u with
  | nil => exact ⟨[], t, rfl, rfl, h⟩
  | cons c k ih =>
    cases c with
    | prev w cs =>
      obtain ⟨k', u', rfl, rfl, hu⟩ := ih h
      cases u' with
      | nil => cases hu
      | node v cs' ns' =>
        simp only [map, node.injEq] at hu
        obtain ⟨rfl, rfl, rfl⟩ := hu
        exact ⟨.prev v cs' :: k', ns', rfl, rfl, rfl⟩
    | parent w ns =>
      obtain ⟨k', u', rfl, rfl, hu⟩ := ih h
      cases u' with
      | nil => cases hu
      | node v cs' ns' =>
        simp only [map, node.injEq] at hu
        obtain ⟨rfl, rfl, rfl⟩ := hu
        exact ⟨.parent v ns' :: k', cs', rfl, rfl, rfl⟩

theorem map_visit {f : Context α → α → Forest α → α × Bool}
    (h : ∀ k w cs, g (f k w cs).1 = g w) (k : Context α) (t : Forest α) : (t.visit f k).map g = t.map g := by
  induction t generalizing k with
  | nil => rfl
  | node w cs ns ihc ihn =>
    simp only [visit, map, h, ihn]
    split_ifs <;> simp only [ihc]

theorem map_scan {f : σ → α → σ × α} (h : ∀ s w, g (f s w).2 = g w) (s : σ)
    (t : Forest α) : (t.scan f s).2.map g = t.map g := by
  induction t generalizing s with
  | nil => rfl
  | node w cs ns ihc ihn => simp only [scan, map, h, ihc, ihn]

variable {f : Context α → α → Forest α → α}

theorem map_post_of_mem
    (h : ∀ w ∈ t.toList, ∀ k cs, g (f k w cs) = g w) (k : Context α) : (t.post f k).map g = t.map g := by
  induction t generalizing k with
  | nil => rfl
  | node w cs ns ihc ihn =>
    simp only [toList, List.mem_cons, List.mem_append] at h
    rw [post, map, map, h w (.inl rfl), ihc fun v hv => h v (.inr (.inl hv)),
      ihn fun v hv => h v (.inr (.inr hv))]

theorem map_post (h : ∀ k w cs, g (f k w cs) = g w)
    (k : Context α) (t : Forest α) : (t.post f k).map g = t.map g :=
  map_post_of_mem (fun w _ k cs => h k w cs) k

theorem mapCtx_onParent
    (h : ∀ k w cs, g (f k w cs) = g w) (k : Context α) (t : Forest α) : mapCtx g (onParent f k t) = mapCtx g k := by
  induction k generalizing t with
  | nil => rfl
  | cons c k ih => cases c <;> simp only [onParent, mapCtx, h, ih]

theorem roots_zip_congr {k l : Context α} {t u : Forest α}
    (h : mapCtx g k = mapCtx g l) (ht : t.roots.map g = u.roots.map g) :
    (zip k t).roots.map g = (zip l u).roots.map g := by
  induction k generalizing l t u with
  | nil =>
    cases l with
    | nil => exact ht
    | cons c l => cases c <;> simp [mapCtx] at h
  | cons c k ih =>
    cases l with
    | nil => cases c <;> simp [mapCtx] at h
    | cons d l =>
      cases c <;> cases d <;>
        simp only [mapCtx, List.cons.injEq, Crumb.prev.injEq, Crumb.parent.injEq, reduceCtorEq,
          false_and] at h
      · refine ih (l := l) h.2 ?_
        simp only [roots, List.map_cons, h.1.1, ht]
      · refine ih (l := l) h.2 ?_
        have := congrArg roots h.1.2
        rw [roots_map, roots_map] at this
        simp only [roots, List.map_cons, h.1.1, this]

theorem roots_zip_parent {k l : Context α} (t u : Forest α)
    (h : mapCtx g k = mapCtx g l) (hk : ancestors k ≠ []) : (zip k t).roots.map g = (zip l u).roots.map g := by
  induction k generalizing l t u with
  | nil => exact absurd rfl hk
  | cons c k ih =>
    cases l with
    | nil => cases c <;> simp [mapCtx] at h
    | cons d l =>
      cases c <;> cases d <;>
        simp only [mapCtx, List.cons.injEq, Crumb.prev.injEq, Crumb.parent.injEq, reduceCtorEq,
          false_and] at h
      · exact ih (l := l) _ _ h.2 hk
      · refine roots_zip_congr (k := k) (l := l) h.2 ?_
        have := congrArg roots h.1.2
        rw [roots_map, roots_map] at this
        simp only [roots, List.map_cons, h.1.1, this]

theorem mapCtx_past (f : α → β) (k : Context α) (t : Forest α) : mapCtx f (past k t) = past (mapCtx f k) (t.map f) := by
  induction t generalizing k with
  | nil => rfl
  | node w cs ns _ ihn => simp only [past, ihn, mapCtx, map]

theorem locate_map (g : α → β) (p : β → Bool) (k : Context α) (t : Forest α) : (t.map g).locate p (mapCtx g k) =
      (t.locate (fun w => p (g w)) k).map fun r =>
        (mapCtx g r.1, g r.2.1, r.2.2.1.map g, r.2.2.2.map g) := by
  induction t generalizing k with
  | nil => rfl
  | node w cs ns ihc ihn =>
    have hc := ihc (.parent w ns :: k)
    have hn := ihn (.prev w cs :: k)
    simp only [mapCtx] at hc hn
    simp only [Forest.map, locate, hc, hn]
    split_ifs
    · rfl
    · cases cs.locate (fun w => p (g w)) (.parent w ns :: k) <;> rfl

theorem ancestors_map (g : α → β) (k : Context α) : ancestors (mapCtx g k) = (ancestors k).map g := by
  induction k with
  | nil => rfl
  | cons c k ih => cases c <;> simp only [mapCtx, ancestors, ih, List.map_cons]

end Forest

end WWindowSystem
