import WWindowSystem.Library.Links
import WWindowSystem.Server.Tidy

namespace WWindowSystem

open Forest List

abbrev Addr := Nat

abbrev Memory := Heap Addr Owner

def wtree_remove (h : Memory) (w : Addr) : Option Memory := do
  let c ← h w
  let h ← match c.prev with
    | some prev => h.modify prev fun d => { d with next := c.next }
    | none =>
      match c.parent with
      | some parent => h.modify parent fun d => { d with childs := c.next }
      | none => some h
  let c ← h w
  match c.next with
  | some next => h.modify next fun d => { d with prev := c.prev }
  | none => some h

def wtree_add_after (h : Memory) (parent : Addr) (w : Option Addr) (neww : Addr) : Option Memory := do
  let h ← h.modify neww fun c => { c with prev := w, next := none }
  let h ← match w with
    | some w => do
      let d ← h w
      let h ← match d.next with
        | some next => do
          let h ← h.modify neww fun c => { c with next := some next }
          h.modify next fun c => { c with prev := some neww }
        | none => some h
      h.modify w fun c => { c with next := some neww }
    | none => some h
  let h ← h.modify neww fun c => { c with parent := some parent }
  let c ← h neww
  match c.prev with
  | some _ => some h
  | none => h.modify parent fun c => { c with childs := some neww }

def wtree_add_before (h : Memory) (parent : Addr) (w : Option Addr) (neww : Addr) : Option Memory := do
  let h ← h.modify neww fun c => { c with next := w, prev := none }
  let h ← match w with
    | some w => do
      let d ← h w
      let h ← match d.prev with
        | some prev => do
          let h ← h.modify neww fun c => { c with prev := some prev }
          h.modify prev fun c => { c with next := some neww }
        | none => some h
      h.modify w fun c => { c with prev := some neww }
    | none => some h
  let h ← h.modify neww fun c => { c with parent := some parent }
  let c ← h neww
  match c.prev with
  | some _ => some h
  | none => h.modify parent fun c => { c with childs := some neww }

theorem wtree_remove_eq (h : Memory) (w : Addr) : wtree_remove h w =
    (h w).bind fun c => (h.setLeft c.prev c.parent c.next).bind fun h =>
      (h w).bind fun c => h.setRight c.next c.prev := by
  rw [wtree_remove]
  cases h w with
  | none => rfl
  | some c =>
    rcases c with ⟨v, parent, prev, next, childs⟩
    have hr (x l : Option Addr) (h : Memory) : h.setRight x l =
        match x with
        | some next => h.modify next fun d => { d with prev := l }
        | none => some h := by cases x <;> rfl
    cases prev with
    | some prev => simp only [Heap.setLeft, hr, Option.bind_eq_bind, Option.bind_some]
    | none =>
      cases parent <;> simp only [Heap.setLeft, hr, Option.bind_eq_bind, Option.bind_some]

variable {k : Context Addr} {val : Addr → Owner} {h : Memory}

theorem wtree_remove_linked {w : Addr}
    {cs ns : Forest Addr} (hl : Linked h val none none (zip k (.node w cs ns)))
    (hn : (zip k (.node w cs ns)).toList.Nodup) :
    ∃ h', wtree_remove h w = some h' ∧ Linked h' val none none (zip k ns) ∧ ∀ a ∉ (zip k ns).toList, h' a = h a := by
  obtain ⟨ht, hk, hd⟩ := nodup_zip hn
  obtain ⟨⟨hw, hc, hns⟩, hctx⟩ := (linked_zip _ _).mp hl
  rw [toList, nodup_cons, mem_append, not_or] at ht
  have hwk := hd w mem_cons_self
  obtain ⟨h1, hs1, hk1, hf1⟩ := setLeft_linked hctx hk (first ns)
  have hns1 : Linked h1 val (parentOf k) (some w) ns :=
    hns.congr (fun a ha => hf1 a (hd a (mem_cons_of_mem _ (mem_append_right _ ha))))
      fun _ _ => rfl
  obtain ⟨h2, hs2, hns2, hf2⟩ := setRight_linked hns1 (nodup_append.mp ht.2).2.1 (prevOf k)
  have hk2 : CtxLinked h2 val (first ns) k := by
    refine hk1.congr (fun a ha => hf2 a fun hm => ?_) fun _ _ => rfl
    exact hd a (mem_cons_of_mem _ (mem_append_right _ hm)) ha
  refine ⟨h2, ?_, (linked_zip _ _).mpr ⟨hns2, hk2⟩, fun a ha => ?_⟩
  · rw [wtree_remove_eq, hw]
    simp only [Option.bind_some, hs1, hf1 w hwk, hw, hs2]
  · rw [mem_zip, not_or] at ha
    rw [hf2 a ha.1, hf1 a ha.2]

variable {p neww : Addr}

theorem wtree_add_before_eq {c e : Cell Addr Owner} {x l : Option Addr}
    (hw : h neww = some c) (hp : h p = some e) (hpw : p ≠ neww) (hpx : ∀ a, x = some a → p ≠ a)
    (hx : ∀ a, x = some a → ∃ d, h a = some d ∧ d.prev = l ∧ a ≠ neww) (hx0 : x = none → l = none)
    (hl : ∀ b, l = some b → ∃ d, h b = some d ∧ b ≠ neww ∧ ∀ a, x = some a → b ≠ a) : wtree_add_before h p x neww =
      (Heap.setLeft (Function.update h neww (some ⟨c.val, some p, l, x, c.childs⟩)) l (some p)
        (some neww)).bind fun h => h.setRight x (some neww) := by
  cases x with
  | none =>
    obtain rfl := hx0 rfl
    simp [wtree_add_before, Heap.setLeft, Heap.setRight, Heap.modify, hw, hp, hpw]
  | some a =>
    obtain ⟨d, ha, hd, haw⟩ := hx a rfl
    have hpa := hpx a rfl
    cases l with
    | none =>
      simp [wtree_add_before, Heap.setLeft, Heap.setRight, Heap.modify, hw, hp, ha, hd, haw, hpw,
        hpa, hpa.symm, haw.symm]
      funext b
      simp only [Function.update_apply]
      split_ifs <;> simp_all
    | some b =>
      obtain ⟨f, hb, hbw, hba⟩ := hl b rfl
      have hba := hba a rfl
      simp [wtree_add_before, Heap.setLeft, Heap.setRight, Heap.modify, hw, ha, hd, hb, haw, hbw,
        hba.symm, hbw.symm, haw.symm]
      funext b
      simp only [Function.update_apply]
      split_ifs <;> simp_all

theorem wtree_add_after_eq {p neww a : Addr} {c d : Cell Addr Owner} {x : Option Addr}
    (hw : h neww = some c) (ha : h a = some d) (hd : d.next = x) (haw : a ≠ neww)
    (hx : ∀ b, x = some b → ∃ e, h b = some e ∧ b ≠ neww ∧ b ≠ a) : wtree_add_after h p (some a) neww =
      (Heap.setLeft (Function.update h neww (some ⟨c.val, some p, some a, x, c.childs⟩)) (some a)
        (some p) (some neww)).bind fun h => h.setRight x (some neww) := by
  cases x with
  | none =>
    simp [wtree_add_after, Heap.setLeft, Heap.setRight, Heap.modify, hw, ha, hd, haw, haw.symm]
    funext b
    simp only [Function.update_apply]
    split_ifs <;> simp_all
  | some b =>
    obtain ⟨e, hb, hbw, hba⟩ := hx b rfl
    simp [wtree_add_after, Heap.setLeft, Heap.setRight, Heap.modify, hw, ha, hd, hb, haw, haw.symm,
      hbw, hbw.symm, hba, hba.symm]
    funext b
    simp only [Function.update_apply]
    split_ifs <;> simp_all

variable {c : Cell Addr Owner} {t cs : Forest Addr}

theorem wtree_add_before_linked
    (hl : Linked h val none none (zip k t))
    (hn : (zip k (.node neww cs t)).toList.Nodup) (hp : parentOf k = some p)
    (hw : h neww = some c) (hv : c.val = val neww) (hc : c.childs = first cs)
    (hcs : Linked h val (some neww) none cs) (ht : first t = none → prevOf k = none) :
    ∃ h', wtree_add_before h p (first t) neww = some h' ∧ Linked h' val none none (zip k (.node neww cs t)) ∧
      ∀ a ∉ (zip k (.node neww cs t)).toList, h' a = h a := by
  obtain ⟨hnt, -, hd⟩ := nodup_zip hn
  rw [toList, nodup_cons, mem_append, not_or] at hnt
  have hwk := hd neww mem_cons_self
  have htk : ∀ a ∈ t.toList, a ∉ around k := fun a ha =>
    hd a (mem_cons_of_mem _ (mem_append_right _ ha))
  obtain ⟨hlt, hlk⟩ := (linked_zip _ _).mp hl
  obtain ⟨hpk, e, he⟩ := hlk.parent hp
  rw [wtree_add_before_eq hw he (fun h => hwk (h ▸ hpk)) (l := prevOf k)]
  · rw [hv, hc, ← hp]
    exact insert_linked hl hn hcs
  · intro a ha hpa
    exact htk p (hpa ▸ (hlt.first ha).1) hpk
  · intro a ha
    obtain ⟨hat, d, hd, -, hprev⟩ := hlt.first ha
    exact ⟨d, hd, hprev, fun h => hnt.1.2 (h ▸ hat)⟩
  · exact ht
  · intro b hb
    obtain ⟨hbk, d, hd, -⟩ := hlk.prev hb
    exact ⟨d, hd, fun h => hwk (h ▸ hbk), fun a ha h => htk a (hlt.first ha).1 (h ▸ hbk)⟩

theorem wtree_add_after_linked
    {p a neww : Addr}
    (hl : Linked h val none none (zip k t)) (hn : (zip k (.node neww cs t)).toList.Nodup)
    (hp : parentOf k = some p) (ha : prevOf k = some a) (hw : h neww = some c)
    (hv : c.val = val neww) (hc : c.childs = first cs) (hcs : Linked h val (some neww) none cs) :
    ∃ h', wtree_add_after h p (some a) neww = some h' ∧ Linked h' val none none (zip k (.node neww cs t)) ∧
      ∀ b ∉ (zip k (.node neww cs t)).toList, h' b = h b := by
  obtain ⟨hnt, -, hd⟩ := nodup_zip hn
  rw [toList, nodup_cons, mem_append, not_or] at hnt
  have hwk := hd neww mem_cons_self
  obtain ⟨hlt, hlk⟩ := (linked_zip _ _).mp hl
  obtain ⟨hak, d, hda, hnext⟩ := hlk.prev ha
  rw [wtree_add_after_eq hw hda hnext fun h => hwk (h ▸ hak)]
  · rw [hv, hc, ← hp, ← ha]
    exact insert_linked hl hn hcs
  · intro b hb
    obtain ⟨hbt, e, he, -⟩ := hlt.first hb
    refine ⟨e, he, fun h => hnt.1.2 (h ▸ hbt), fun h => ?_⟩
    exact hd b (mem_cons_of_mem _ (mem_append_right _ hbt)) (h ▸ hak)

end WWindowSystem
