import Mathlib

namespace WWindowSystem

section Snapshot

variable {ι κ α : Type} {src dst : ι → κ} {S T : Set ι} {m m' m'' : κ → α}

/-- The cells of `dst` have got the old values of the cells of `src` with the same index. -/
structure Snapshot (src dst : ι → κ) (S : Set ι) (m m' : κ → α) : Prop where
  moved : ∀ i ∈ S, m' (dst i) = m (src i)
  frame : ∀ c, (∀ i ∈ S, c ≠ dst i) → m' c = m c

theorem Snapshot.empty : Snapshot src dst ∅ m m :=
  ⟨fun _ hi => hi.elim, fun _ _ => rfl⟩

theorem Snapshot.union (h : Snapshot src dst S m m') (h' : Snapshot src dst T m' m'')
    (hapart : ∀ i ∈ S, ∀ k ∈ T, src k ≠ dst i ∧ dst k ≠ dst i) : Snapshot src dst (S ∪ T) m m'' := by
  constructor
  · rintro i (hi | hi)
    · rw [h'.frame _ fun k hk => (hapart i hi k hk).2.symm]
      exact h.moved i hi
    · rw [h'.moved i hi]
      exact h.frame _ fun k hk => (hapart k hk i hi).1
  · intro c hc
    rw [h'.frame c fun i hi => hc i (.inr hi)]
    exact h.frame c fun i hi => hc i (.inl hi)

theorem Snapshot.image {ι' : Type} {f : ι' → ι} {S : Set ι'} (h : Snapshot (src ∘ f) (dst ∘ f) S m m') :
    Snapshot src dst (f '' S) m m' := by
  constructor
  · rintro _ ⟨i, hi, rfl⟩
    exact h.moved i hi
  · intro c hc
    exact h.frame c fun i hi => hc (f i) (Set.mem_image_of_mem f hi)

theorem Snapshot.of_eq {src' dst' : ι → κ} (h : Snapshot src dst S m m') (hs : ∀ i ∈ S, src' i = src i)
    (hd : ∀ i ∈ S, dst' i = dst i) : Snapshot src' dst' S m m' := by
  constructor
  · intro i hi
    rw [hd i hi, hs i hi]
    exact h.moved i hi
  · intro c hc
    exact h.frame c fun i hi => hd i hi ▸ hc i hi

end Snapshot

section Runs

variable {κ α : Type} {src dst : Int → κ} {lo mid hi : Int} {m m' m'' : κ → α}

theorem Snapshot.nothing (h : hi ≤ lo) : Snapshot src dst (Set.Ico lo hi) m m := by
  rw [Set.Ico_eq_empty (by omega)]
  exact .empty

theorem Snapshot.forward (h : Snapshot src dst (Set.Ico lo mid) m m') (h' : Snapshot src dst (Set.Ico mid hi) m' m'')
    (hlo : lo ≤ mid) (hhi : mid ≤ hi) (hread : ∀ i k, lo ≤ i → i < k → k < hi → src k ≠ dst i)
    (hdst : Function.Injective dst) : Snapshot src dst (Set.Ico lo hi) m m'' := by
  rw [← Set.Ico_union_Ico_eq_Ico hlo hhi]
  apply h.union h'
  rintro i ⟨hi, hi'⟩ k ⟨hk, hk'⟩
  exact ⟨hread i k hi (by omega) hk', hdst.ne (by omega)⟩

theorem Snapshot.backward (h : Snapshot src dst (Set.Ico mid hi) m m') (h' : Snapshot src dst (Set.Ico lo mid) m' m'')
    (hlo : lo ≤ mid) (hhi : mid ≤ hi) (hread : ∀ i k, lo ≤ i → i < k → k < hi → src i ≠ dst k)
    (hdst : Function.Injective dst) : Snapshot src dst (Set.Ico lo hi) m m'' := by
  rw [← Set.Ico_union_Ico_eq_Ico hlo hhi, Set.union_comm]
  apply h.union h'
  rintro i ⟨hi, hi'⟩ k ⟨hk, hk'⟩
  exact ⟨hread k i hk (by omega) hi', hdst.ne (by omega)⟩

theorem Snapshot.shift (h : Snapshot src dst (Set.Ico lo hi) m m') (c : Int) :
    Snapshot (fun i => src (i + c)) (fun i => dst (i + c)) (Set.Ico (lo - c) (hi - c)) m m' := by
  constructor
  · rintro i ⟨hi, hi'⟩
    exact h.moved _ ⟨by omega, by omega⟩
  · intro a ha
    apply h.frame
    rintro i ⟨hi, hi'⟩
    have := ha (i - c) ⟨by omega, by omega⟩
    rwa [sub_add_cancel] at this

end Runs

section Bits

variable {w : Nat}

def bitOf (m : Int → BitVec w) (c : Int × Nat) : Bool := (m c.1).getMsbD c.2

def bitCell (w : Nat) (ptr step i : Int) : Int × Nat := (ptr + i / w * step, (i % w).toNat)

def blendAt (m : Int → BitVec w) (ptr : Int) (mask new : BitVec w) : Int → BitVec w :=
  Function.update m ptr ((m ptr &&& ~~~mask) ||| (new &&& mask))

theorem blendAt_allOnes (m : Int → BitVec w) (ptr : Int) (new : BitVec w) :
    blendAt m ptr (BitVec.allOnes w) new = Function.update m ptr new := by
  unfold blendAt
  rw [BitVec.not_allOnes, BitVec.and_zero, BitVec.zero_or, BitVec.and_allOnes]

theorem bitCell_inj (hw : 0 < w) {ptr step : Int} (hstep : step ≠ 0) : Function.Injective (bitCell w ptr step) := by
  intro i k h
  unfold bitCell at h
  obtain ⟨hq, hr⟩ := Prod.mk.inj h
  have hq : i / w = k / w := mul_right_cancel₀ hstep (by omega)
  have hi := Int.emod_nonneg i (show (w : Int) ≠ 0 by omega)
  have hk := Int.emod_nonneg k (show (w : Int) ≠ 0 by omega)
  rw [← Int.mul_ediv_add_emod i w, ← Int.mul_ediv_add_emod k w, hq]
  omega

theorem blendAt_snapshot {m : Int → BitVec w} {src dst : Int → Int × Nat} {ptr lo : Int} {d t : Nat} {mask new : BitVec w}
    (ht : d + t ≤ w) (hmask : ∀ j < w, mask.getMsbD j = decide (d ≤ j ∧ j < d + t))
    (hdst : ∀ i, lo ≤ i → i < lo + t → dst i = (ptr, (d + (i - lo)).toNat))
    (hnew : ∀ i, lo ≤ i → i < lo + t → new.getMsbD (d + (i - lo)).toNat = bitOf m (src i)) :
    Snapshot src dst (Set.Ico lo (lo + t)) (bitOf m) (bitOf (blendAt m ptr mask new)) := by
  have hbit : ∀ j < w, (blendAt m ptr mask new ptr).getMsbD j =
      if d ≤ j ∧ j < d + t then new.getMsbD j else (m ptr).getMsbD j := by
    intro j hj
    unfold blendAt
    rw [Function.update_self, BitVec.getMsbD_or, BitVec.getMsbD_and, BitVec.getMsbD_and, BitVec.getMsbD_not, hmask j hj]
    split_ifs with h <;> simp [h, hj]
  constructor
  · rintro i ⟨hi, hi'⟩
    rw [hdst i hi hi', ← hnew i hi hi', bitOf, hbit _ (by omega), if_pos (by omega)]
  · rintro ⟨a, j⟩ hc
    by_cases ha : a = ptr
    · subst ha
      unfold bitOf
      by_cases hj : j < w
      · rw [hbit j hj, if_neg]
        rintro ⟨h1, h2⟩
        apply hc (lo + (j - d)) ⟨by omega, by omega⟩
        rw [hdst _ (by omega) (by omega)]
        congr 1
        omega
      · rw [BitVec.getMsbD_of_ge _ _ (by omega), BitVec.getMsbD_of_ge _ _ (by omega)]
    · unfold bitOf blendAt
      rw [Function.update_of_ne ha]

end Bits

end WWindowSystem
