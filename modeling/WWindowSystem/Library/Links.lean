import Mathlib.Data.List.Nodup
import Mathlib.Logic.Function.Basic
import WWindowSystem.Library.Forest

namespace WWindowSystem

open List Function

namespace Forest

variable {ι α : Type}

structure Cell (ι α : Type) where
  val : α
  parent : Option ι
  prev : Option ι
  next : Option ι
  childs : Option ι

abbrev Heap (ι α : Type) := ι → Option (Cell ι α)

def Heap.modify [DecidableEq ι] (h : Heap ι α) (a : ι) (f : Cell ι α → Cell ι α) : Option (Heap ι α) :=
  (h a).map fun c => Function.update h a (some (f c))

variable {a : ι} {h : Heap ι α}

theorem Heap.modify_eq [DecidableEq ι] {c : Cell ι α} (hc : h a = some c)
    (f : Cell ι α → Cell ι α) : h.modify a f = some (Function.update h a (some (f c))) := by
  rw [Heap.modify, hc]
  rfl

def first : Forest ι → Option ι
  | .nil => none
  | .node a _ _ => some a

def parentOf : Context ι → Option ι
  | [] => none
  | .prev _ _ :: k => parentOf k
  | .parent a _ :: _ => some a

def prevOf : Context ι → Option ι
  | [] => none
  | .prev a _ :: _ => some a
  | .parent _ _ :: _ => none

def Linked (h : Heap ι α) (val : ι → α) (p l : Option ι) : Forest ι → Prop
  | .nil => True
  | .node a cs ns => h a = some ⟨val a, p, l, first ns, first cs⟩ ∧ Linked h val (some a) none cs ∧
    Linked h val p (some a) ns

def CtxLinked (h : Heap ι α) (val : ι → α) (x : Option ι) : Context ι → Prop
  | [] => True
  | .prev a cs :: k => h a = some ⟨val a, parentOf k, prevOf k, x, first cs⟩ ∧
    Linked h val (some a) none cs ∧ CtxLinked h val (some a) k
  | .parent a ns :: k => h a = some ⟨val a, parentOf k, prevOf k, first ns, x⟩ ∧
    Linked h val (parentOf k) (some a) ns ∧ CtxLinked h val (some a) k

variable {val : ι → α}

theorem linked_zip (k : Context ι) (t : Forest ι) : Linked h val none none (zip k t) ↔
      Linked h val (parentOf k) (prevOf k) t ∧ CtxLinked h val (first t) k := by
  induction k generalizing t with
  | nil => exact ⟨fun h => ⟨h, trivial⟩, fun h => h.1⟩
  | cons c k ih =>
    cases c with
    | prev a cs =>
      rw [zip, ih, Linked, CtxLinked, parentOf, prevOf]
      simp only [first]
      tauto
    | parent a ns =>
      rw [zip, ih, Linked, CtxLinked, parentOf, prevOf]
      simp only [first]
      tauto

variable {t : Forest ι} {p l : Option ι}

theorem Linked.congr {h h' : Heap ι α} {val val' : ι → α}
    (hl : Linked h val p l t) (he : ∀ a ∈ t.toList, h' a = h a) (hv : ∀ a ∈ t.toList, val' a = val a) :
    Linked h' val' p l t := by
  induction t generalizing p l with
  | nil => trivial
  | node a cs ns ihc ihn =>
    simp only [toList, forall_mem_cons, forall_mem_append] at he hv
    obtain ⟨ha, hc, hn⟩ := hl
    refine ⟨?_, ihc hc he.2.1 hv.2.1, ihn hn he.2.2 hv.2.2⟩
    rw [he.1, hv.1]
    exact ha

variable {k : Context ι} {x : Option ι}

theorem CtxLinked.congr {h h' : Heap ι α} {val val' : ι → α}
    (hl : CtxLinked h val x k) (he : ∀ a ∈ around k, h' a = h a)
    (hv : ∀ a ∈ around k, val' a = val a) : CtxLinked h' val' x k := by
  induction k generalizing x with
  | nil => trivial
  | cons c k ih =>
    cases c with
    | prev a cs =>
      simp only [around, forall_mem_cons, forall_mem_append] at he hv
      obtain ⟨ha, hc, hk⟩ := hl
      refine ⟨?_, hc.congr he.2.1 hv.2.1, ih hk he.2.2 hv.2.2⟩
      rw [he.1, hv.1]
      exact ha
    | parent a ns =>
      simp only [around, forall_mem_cons, forall_mem_append] at he hv
      obtain ⟨ha, hc, hk⟩ := hl
      refine ⟨?_, hc.congr he.2.1 hv.2.1, ih hk he.2.2 hv.2.2⟩
      rw [he.1, hv.1]
      exact ha

theorem Linked.first
    (hl : Linked h val p l t) (ha : t.first = some a) :
    a ∈ t.toList ∧ ∃ c, h a = some c ∧ c.parent = p ∧ c.prev = l := by
  cases t with
  | nil => cases ha
  | node b cs ns =>
    obtain rfl := Option.some.inj ha
    exact ⟨mem_cons_self, _, hl.1, rfl, rfl⟩

theorem CtxLinked.prev
    (hl : CtxLinked h val x k) (ha : prevOf k = some a) : a ∈ around k ∧ ∃ c, h a = some c ∧ c.next = x := by
  cases k with
  | nil => cases ha
  | cons c k =>
    cases c with
    | prev b cs =>
      obtain rfl := Option.some.inj ha
      exact ⟨mem_cons_self, _, hl.1, rfl⟩
    | parent b ns => cases ha

theorem CtxLinked.parent
    (hl : CtxLinked h val x k) (ha : parentOf k = some a) : a ∈ around k ∧ ∃ c, h a = some c := by
  induction k generalizing x with
  | nil => cases ha
  | cons c k ih =>
    cases c with
    | prev b cs =>
      obtain ⟨hm, hc⟩ := ih hl.2.2 ha
      exact ⟨mem_cons_of_mem _ (mem_append_right _ hm), hc⟩
    | parent b ns =>
      obtain rfl := Option.some.inj ha
      exact ⟨mem_cons_self, _, hl.1⟩

theorem Linked.mem
    (hl : Linked h val p l t) (ha : a ∈ t.toList) : ∃ c, h a = some c ∧ c.val = val a := by
  induction t generalizing p l with
  | nil => cases ha
  | node b cs ns ihc ihn =>
    rw [toList, mem_cons, mem_append] at ha
    rcases ha with rfl | ha | ha
    · exact ⟨_, hl.1, rfl⟩
    · exact ihc hl.2.1 ha
    · exact ihn hl.2.2 ha

theorem Linked.parent_of_roots
    (hl : Linked h val p l t) (ha : a ∈ t.roots) : ∃ c, h a = some c ∧ c.parent = p := by
  induction t generalizing l with
  | nil => cases ha
  | node b cs ns _ ihn =>
    rcases mem_cons.mp ha with rfl | ha
    · exact ⟨_, hl.1, rfl⟩
    · exact ihn hl.2.2 ha

theorem Linked.relabel {h h' : Heap ι α} {val val' : ι → α}
    (hl : Linked h val p l t)
    (he : ∀ a ∈ t.toList, ∀ c, h a = some c → c.val = val a →
      h' a = some { c with val := val' a }) :
    Linked h' val' p l t := by
  induction t generalizing p l with
  | nil => trivial
  | node a cs ns ihc ihn =>
    simp only [toList, forall_mem_cons, forall_mem_append] at he
    obtain ⟨ha, hc, hn⟩ := hl
    exact ⟨he.1 _ ha rfl, ihc hc he.2.1, ihn hn he.2.2⟩

theorem parentOf_mem {p : ι} (h : parentOf k = some p) : p ∈ ancestors k := by
  induction k with
  | nil => cases h
  | cons c k ih =>
    cases c with
    | prev a cs => exact ih h
    | parent a ns =>
      obtain rfl := Option.some.inj h
      exact mem_cons_self

theorem parentOf_concat (k : Context ι) (a : ι) (ns : Forest ι) : ∃ p, parentOf (k ++ [.parent a ns]) = some p := by
  induction k with
  | nil => exact ⟨a, rfl⟩
  | cons c k ih =>
    cases c with
    | prev b cs => exact ih
    | parent b ms => exact ⟨b, rfl⟩

theorem first_zip {t u : Forest ι} (h : t.first = u.first) (k : Context ι) : (zip k t).first = (zip k u).first := by
  induction k generalizing t u with
  | nil => exact h
  | cons c k ih => cases c <;> exact ih rfl

theorem first_zip_below {p : ι} (hp : parentOf k = some p) (t u : Forest ι) :
    (zip k t).first = (zip k u).first := by
  cases k with
  | nil => cases hp
  | cons c k =>
    cases c with
    | prev a cs => exact first_zip (t := .node a cs t) (u := .node a cs u) rfl k
    | parent a ns => exact first_zip (t := .node a t ns) (u := .node a u ns) rfl k

theorem parentOf_past (k : Context ι) (t : Forest ι) : parentOf (past k t) = parentOf k := by
  induction t generalizing k with
  | nil => rfl
  | node a cs ns _ ihn => exact ihn _

theorem prevOf_past (k : Context ι) (t : Forest ι) : prevOf (past k t) = t.roots.getLast?.or (prevOf k) := by
  induction t generalizing k with
  | nil => rfl
  | node a cs ns _ ihn =>
    rw [past, ihn, roots, getLast?_cons, prevOf]
    cases ns.roots.getLast? <;> rfl

theorem exists_past {p : ι} (h : parentOf k = some p) : ∃ j ns l, k = past (.parent p ns :: j) l := by
  induction k with
  | nil => cases h
  | cons c k ih =>
    cases c with
    | prev a cs =>
      obtain ⟨j, ns, l, rfl⟩ := ih h
      refine ⟨j, ns, l.append (.node a cs .nil), ?_⟩
      rw [past_append]
      rfl
    | parent a ns =>
      obtain rfl := Option.some.inj h
      exact ⟨k, ns, .nil, rfl⟩

theorem around_past (k : Context ι) (t : Forest ι) : (around (past k t)).Perm (t.toList ++ around k) := by
  have h := (toList_zip (past k t) .nil).symm.trans
    ((List.Perm.of_eq (by rw [zip_past, append_nil])).trans (toList_zip k t))
  exact h

theorem nodup_zip (h : (zip k t).toList.Nodup) :
    t.toList.Nodup ∧ (around k).Nodup ∧ ∀ a ∈ t.toList, a ∉ around k := by
  rw [(toList_zip k t).nodup_iff, nodup_append] at h
  exact ⟨h.1, h.2.1, fun a ha hk => h.2.2 a ha a hk rfl⟩

variable [DecidableEq ι]

theorem Linked.update
    (hl : Linked h val p l t) (ha : a ∉ t.toList) (c : Option (Cell ι α)) :
    Linked (Function.update h a c) val p l t := by
  refine hl.congr (fun b hb => ?_) fun _ _ => rfl
  rw [update_of_ne]
  rintro rfl
  exact ha hb

theorem CtxLinked.update
    (hl : CtxLinked h val x k) (ha : a ∉ around k) (c : Option (Cell ι α)) :
    CtxLinked (Function.update h a c) val x k := by
  refine hl.congr (fun b hb => ?_) fun _ _ => rfl
  rw [update_of_ne]
  rintro rfl
  exact ha hb

def Heap.setLeft (h : Heap ι α) (l p x : Option ι) : Option (Heap ι α) :=
  match l with
  | some a => h.modify a fun c => { c with next := x }
  | none =>
    match p with
    | some a => h.modify a fun c => { c with childs := x }
    | none => some h

def Heap.setRight (h : Heap ι α) (x l : Option ι) : Option (Heap ι α) :=
  match x with
  | some a => h.modify a fun c => { c with prev := l }
  | none => some h

theorem setLeft_linked
    (hk : CtxLinked h val x k) (hn : (around k).Nodup) (y : Option ι) :
    ∃ h', h.setLeft (prevOf k) (parentOf k) y = some h' ∧ CtxLinked h' val y k ∧ ∀ a ∉ around k, h' a = h a := by
  cases k with
  | nil => exact ⟨h, rfl, trivial, fun _ _ => rfl⟩
  | cons c k =>
    cases c with
    | prev a cs =>
      obtain ⟨ha, hc, hk⟩ := hk
      rw [around, nodup_cons, mem_append, not_or] at hn
      refine ⟨_, Heap.modify_eq ha _, ⟨?_, hc.update hn.1.1 _, hk.update hn.1.2 _⟩, fun b hb => ?_⟩
      · rw [update_self]
      · rw [update_of_ne]
        rintro rfl
        exact hb mem_cons_self
    | parent a ns =>
      obtain ⟨ha, hc, hk⟩ := hk
      rw [around, nodup_cons, mem_append, not_or] at hn
      refine ⟨_, Heap.modify_eq ha _, ⟨?_, hc.update hn.1.1 _, hk.update hn.1.2 _⟩, fun b hb => ?_⟩
      · rw [update_self]
      · rw [update_of_ne]
        rintro rfl
        exact hb mem_cons_self

theorem setRight_linked
    (ht : Linked h val p l t) (hn : t.toList.Nodup) (m : Option ι) :
    ∃ h', h.setRight (first t) m = some h' ∧ Linked h' val p m t ∧ ∀ a ∉ t.toList, h' a = h a := by
  cases t with
  | nil => exact ⟨h, rfl, trivial, fun _ _ => rfl⟩
  | node a cs ns =>
    obtain ⟨ha, hc, ht⟩ := ht
    rw [toList, nodup_cons, mem_append, not_or] at hn
    refine ⟨_, Heap.modify_eq ha _, ⟨?_, hc.update hn.1.1 _, ht.update hn.1.2 _⟩, fun b hb => ?_⟩
    · rw [update_self]
    · rw [update_of_ne]
      rintro rfl
      exact hb mem_cons_self

theorem insert_linked {t cs : Forest ι}
    (hl : Linked h val none none (zip k t)) (hn : (zip k (.node a cs t)).toList.Nodup)
    (hcs : Linked h val (some a) none cs) : ∃ h', (Heap.setLeft (Function.update h a
        (some ⟨val a, parentOf k, prevOf k, first t, first cs⟩)) (prevOf k) (parentOf k)
        (some a)).bind (fun h => h.setRight (first t) (some a)) = some h' ∧
      Linked h' val none none (zip k (.node a cs t)) ∧ ∀ b ∉ (zip k (.node a cs t)).toList, h' b = h b := by
  obtain ⟨ht, hk, hd⟩ := nodup_zip hn
  obtain ⟨hlt, hlk⟩ := (linked_zip _ _).mp hl
  rw [toList, nodup_cons, mem_append, not_or, nodup_append] at ht
  obtain ⟨⟨hac, hat⟩, hnc, hnt, hct⟩ := ht
  have hak := hd a mem_cons_self
  have hck : ∀ b ∈ cs.toList, b ∉ around k := fun b hb =>
    hd b (mem_cons_of_mem _ (mem_append_left _ hb))
  have htk : ∀ b ∈ t.toList, b ∉ around k := fun b hb =>
    hd b (mem_cons_of_mem _ (mem_append_right _ hb))
  generalize hg : Function.update h a
    (some ⟨val a, parentOf k, prevOf k, first t, first cs⟩) = g
  have hkg : CtxLinked g val (first t) k := hg ▸ hlk.update hak _
  have htg : Linked g val (parentOf k) (prevOf k) t := hg ▸ hlt.update hat _
  have hcg : Linked g val (some a) none cs := hg ▸ hcs.update hac _
  obtain ⟨h1, hs1, hk1, hf1⟩ := setLeft_linked hkg hk (some a)
  have ht1 : Linked h1 val (parentOf k) (prevOf k) t :=
    htg.congr (fun b hb => hf1 b (htk b hb)) fun _ _ => rfl
  obtain ⟨h2, hs2, ht2, hf2⟩ := setRight_linked ht1 hnt (some a)
  have hc2 : Linked h2 val (some a) none cs := by
    refine hcg.congr (fun b hb => ?_) fun _ _ => rfl
    rw [hf2 b fun hb' => hct b hb b hb' rfl, hf1 b (hck b hb)]
  have hk2 : CtxLinked h2 val (some a) k :=
    hk1.congr (fun b hb => hf2 b fun hb' => htk b hb' hb) fun _ _ => rfl
  refine ⟨h2, ?_, (linked_zip _ _).mpr ⟨⟨?_, hc2, ht2⟩, hk2⟩, fun b hb => ?_⟩
  · rw [hs1, Option.bind_some, hs2]
  · rw [hf2 a hat, hf1 a hak, ← hg, update_self]
  · rw [mem_zip, toList, mem_cons, mem_append, not_or, not_or, not_or] at hb
    rw [hf2 b hb.1.2.2, hf1 b hb.2, ← hg, update_of_ne hb.1.1]

end Forest

end WWindowSystem
