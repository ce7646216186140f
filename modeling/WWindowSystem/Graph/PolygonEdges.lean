import WWindowSystem.Graph.Polygon

namespace WWindowSystem.Graph.Polygon

open Bool

def cross (p q r : Vertex) : Int := (q.x - p.x) * (r.y - p.y) - (r.x - p.x) * (q.y - p.y)

def Side (left : Bool) (p q : Vertex) (x y : Int) : Prop :=
  if left then 0 ≤ (p.y - q.y).sign * cross p q ⟨x, y⟩ else (p.y - q.y).sign * cross p q ⟨x, y⟩ ≤ 0

def Outer (left : Bool) (c x : Int) : Prop := if left then c ≤ x else x ≤ c

def Covers (p q : Vertex) (y : Int) : Prop := p.y ≤ y ∧ y ≤ q.y ∧ p.y < q.y ∨ q.y ≤ y ∧ y ≤ p.y ∧ q.y < p.y

def Rising (p q : Vertex) : Prop := 0 < (q.x - p.x) * (q.y - p.y) ∧ |q.y - p.y| < |q.x - p.x|

variable {left : Bool} {num den k x y c z : Int} {p q r : Vertex}

theorem cross_swap (p q r : Vertex) : cross q p r = -cross p q r := by
  unfold cross
  ring

theorem Side.swap : Side left p q x y ↔ Side left q p x y := by
  have : (p.y - q.y).sign * cross p q ⟨x, y⟩ = (q.y - p.y).sign * cross q p ⟨x, y⟩ := by
    rw [cross_swap p q, show p.y - q.y = -(q.y - p.y) by omega, Int.sign_neg]
    ring
  unfold Side
  rw [this]

theorem Covers.swap : Covers p q y ↔ Covers q p y := by
  unfold Covers
  omega

theorem Rising.swap : Rising p q ↔ Rising q p := by
  unfold Rising
  rw [abs_sub_comm q.y, abs_sub_comm q.x, show (q.x - p.x) * (q.y - p.y) = (p.x - q.x) * (p.y - q.y) by ring]

theorem rounded_outer (hd : 0 < den) (left : Bool) (num k z : Int) :
    Outer left (rounded left num den k) z ↔ if left then k * num ≤ z * den else z * den ≤ k * num := by
  cases left with
  | true =>
    simp only [Outer, rounded, if_true]
    rw [← Int.lt_add_one_iff, Int.ediv_lt_iff_lt_mul hd, add_mul, one_mul]
    omega
  | false =>
    simp only [Outer, rounded, false_eq_true, if_false]
    rw [sub_self, zero_add, Int.le_ediv_iff_mul_le hd]

theorem side_steep (hy : p.y ≠ q.y) (left : Bool) (x k : Int) : Side left p q x (p.y + (q.y - p.y).sign * k) ↔
      if left then k * (q.x - p.x) ≤ (x - p.x) * |q.y - p.y| else (x - p.x) * |q.y - p.y| ≤ k * (q.x - p.x) := by
  unfold Side cross
  simp only
  rcases lt_or_gt_of_ne hy with h | h
  · rw [Int.sign_eq_one_of_pos (show 0 < q.y - p.y by omega), Int.sign_eq_neg_one_of_neg (show p.y - q.y < 0 by omega),
      abs_of_pos (by omega), show -1 * ((q.x - p.x) * (p.y + 1 * k - p.y) - (x - p.x) * (q.y - p.y)) =
        (x - p.x) * (q.y - p.y) - k * (q.x - p.x) by ring]
    split_ifs <;> omega
  · rw [Int.sign_eq_neg_one_of_neg (show q.y - p.y < 0 by omega), Int.sign_eq_one_of_pos (show 0 < p.y - q.y by omega),
      abs_of_neg (by omega), show 1 * ((q.x - p.x) * (p.y + -1 * k - p.y) - (x - p.x) * (q.y - p.y)) =
        (x - p.x) * -(q.y - p.y) - k * (q.x - p.x) by ring]
    split_ifs <;> omega

theorem side_flat (hy : p.y < q.y) (left : Bool) (x j : Int) : Side left p q x (p.y + j) ↔
      if left then (q.x - p.x) * j ≤ (x - p.x) * (q.y - p.y) else (x - p.x) * (q.y - p.y) ≤ (q.x - p.x) * j := by
  unfold Side cross
  simp only
  rw [Int.sign_eq_neg_one_of_neg (show p.y - q.y < 0 by omega),
    show -1 * ((q.x - p.x) * (p.y + j - p.y) - (x - p.x) * (q.y - p.y)) = (x - p.x) * (q.y - p.y) - (q.x - p.x) * j by ring]
  split_ifs <;> omega

theorem outer_shift (left : Bool) (a c x : Int) : Outer left (a + c) x ↔ Outer left c (x - a) := by
  unfold Outer
  split_ifs <;> omega

structure EdgeSpec (left : Bool) (p q : Vertex) (marks : Marks) : Prop where
  rows : ∀ y c, (y, c) ∈ marks → Covers p q y
  reach : ∀ y, Covers p q y → ∃ c, (y, c) ∈ marks ∧ ∀ x, Side left p q x y → Outer left c x
  exact : ¬ Rising p q → ∀ y c, (y, c) ∈ marks → Side left p q c y
  rising : Rising p q → ∃ y c, (y, c) ∈ marks ∧ ¬ Side left p q c y

theorem EdgeSpec.swap {marks : Marks} (h : EdgeSpec left q p marks) : EdgeSpec left p q marks where
  rows y c hm := Covers.swap.mp (h.rows y c hm)
  reach y hc := by
    obtain ⟨c, hm, hx⟩ := h.reach y (Covers.swap.mp hc)
    exact ⟨c, hm, fun x hs => hx x (Side.swap.mp hs)⟩
  exact hr y c hm := Side.swap.mp (h.exact (fun hr' => hr (Rising.swap.mp hr')) y c hm)
  rising hr := by
    obtain ⟨y, c, hm, hs⟩ := h.rising (Rising.swap.mp hr)
    exact ⟨y, c, hm, fun hs' => hs (Side.swap.mp hs')⟩

theorem steep_spec (hx : p.x ≤ q.x) (hy : p.y ≠ q.y) (hs : q.x - p.x ≤ |q.y - p.y|) (left : Bool) :
    EdgeSpec left p q (steepMarks left p q) := by
  have hden : 0 < |q.y - p.y| := abs_pos.mpr (by omega)
  have habs : |q.y - p.y| = ((q.y - p.y).natAbs : Int) := (Int.natCast_natAbs _).symm
  have hmark : ∀ y c, (y, c) ∈ steepMarks left p q ↔ ∃ k : Nat, k < (q.y - p.y).natAbs + 1 ∧
      y = p.y + (q.y - p.y).sign * k ∧ c = p.x + rounded left (q.x - p.x) |q.y - p.y| k := by
    intro y c
    simp only [steepMarks, List.mem_map, List.mem_range, Prod.mk.injEq, eq_comm]
  have houter : ∀ (k : Nat) x, Outer left (p.x + rounded left (q.x - p.x) |q.y - p.y| k) x ↔
      Side left p q x (p.y + (q.y - p.y).sign * k) := by
    intro k x
    rw [outer_shift, rounded_outer hden, side_steep hy]
  refine ⟨?_, ?_, ?_, ?_⟩
  · intro y c hm
    obtain ⟨k, hk, rfl, -⟩ := (hmark y c).mp hm
    unfold Covers
    rcases lt_or_gt_of_ne hy with h | h
    · rw [Int.sign_eq_one_of_pos (by omega)]
      omega
    · rw [Int.sign_eq_neg_one_of_neg (by omega)]
      omega
  · intro y hc
    refine ⟨_, (hmark _ _).mpr ⟨(y - p.y).natAbs, ?_, ?_, rfl⟩, ?_⟩
    · unfold Covers at hc
      omega
    · unfold Covers at hc
      rcases lt_or_gt_of_ne hy with h | h
      · rw [Int.sign_eq_one_of_pos (by omega)]
        omega
      · rw [Int.sign_eq_neg_one_of_neg (by omega)]
        omega
    · intro x hside
      rw [houter]
      have : p.y + (q.y - p.y).sign * ((y - p.y).natAbs : Int) = y := by
        unfold Covers at hc
        rcases lt_or_gt_of_ne hy with h | h
        · rw [Int.sign_eq_one_of_pos (by omega)]
          omega
        · rw [Int.sign_eq_neg_one_of_neg (by omega)]
          omega
      rwa [this]
  · intro _ y c hm
    obtain ⟨k, hk, rfl, rfl⟩ := (hmark y c).mp hm
    rw [← houter]
    unfold Outer
    split_ifs <;> exact le_rfl
  · rintro ⟨-, hr⟩
    rw [abs_of_nonneg (show 0 ≤ q.x - p.x by omega)] at hr
    omega

theorem rounded_eq (hd : 0 < den) {j : Int} : rounded left num den k = j ↔
    if left then (j - 1) * den < k * num ∧ k * num ≤ j * den else j * den ≤ k * num ∧ k * num < (j + 1) * den := by
  have hj := rounded_outer hd left num k j
  have hj' := rounded_outer hd left num k (if left then j - 1 else j + 1)
  cases left with
  | true =>
    simp only [Outer, if_true] at hj hj' ⊢
    omega
  | false =>
    simp only [Outer, false_eq_true, if_false] at hj hj' ⊢
    omega

theorem exists_step (left : Bool) {N j D : Int} (hN : 0 < N) (hj : 0 ≤ j) (hj' : j ≤ N) (hD : 0 < D) :
    ∃ K : Nat, (K : Int) ≤ D ∧ if left then K * N ≤ j * D ∧ j * D < K * N + N else j * D ≤ K * N ∧ K * N < j * D + N := by
  have h0 : 0 ≤ j * D := mul_nonneg hj hD.le
  have h1 : j * D ≤ D * N := by
    rw [mul_comm D]
    exact mul_le_mul_of_nonneg_right hj' hD.le
  cases left with
  | true =>
    have hdiv := Int.mul_ediv_add_emod (j * D) N
    have hlo := Int.emod_nonneg (j * D) hN.ne'
    have hhi := Int.emod_lt_of_pos (j * D) hN
    have hK : 0 ≤ j * D / N := Int.ediv_nonneg h0 hN.le
    rw [mul_comm] at hdiv
    refine ⟨(j * D / N).toNat, ?_, ?_⟩
    · rw [Int.toNat_of_nonneg hK]
      exact Int.ediv_le_of_le_mul hN h1
    · rw [Int.toNat_of_nonneg hK, if_pos rfl]
      omega
  | false =>
    have hdiv := Int.mul_ediv_add_emod (j * D + N - 1) N
    have hlo := Int.emod_nonneg (j * D + N - 1) hN.ne'
    have hhi := Int.emod_lt_of_pos (j * D + N - 1) hN
    have hK : 0 ≤ (j * D + N - 1) / N := Int.ediv_nonneg (by omega) hN.le
    rw [mul_comm] at hdiv
    refine ⟨((j * D + N - 1) / N).toNat, ?_, ?_⟩
    · rw [Int.toNat_of_nonneg hK, ← Int.lt_add_one_iff, Int.ediv_lt_iff_lt_mul hN, add_mul]
      omega
    · rw [Int.toNat_of_nonneg hK, if_neg (by simp)]
      omega

theorem flat_spec (hy : p.y < q.y) (hs : q.y - p.y < |q.x - p.x|) (left : Bool) :
    EdgeSpec left p q (flatMarks left p q) := by
  have hden : 0 < |q.x - p.x| := by omega
  have habs : |q.x - p.x| = ((q.x - p.x).natAbs : Int) := (Int.natCast_natAbs _).symm
  have hsign : (q.x - p.x).sign * |q.x - p.x| = q.x - p.x := Int.sign_mul_abs _
  have hone : (q.x - p.x).sign = 1 ∨ (q.x - p.x).sign = -1 := by
    rcases lt_trichotomy (q.x - p.x) 0 with h | h | h
    · exact .inr (Int.sign_eq_neg_one_of_neg h)
    · rw [h, abs_zero] at hden
      omega
    · exact .inl (Int.sign_eq_one_of_pos h)
  have hmark : ∀ y c, (y, c) ∈ flatMarks left p q ↔ ∃ k : Nat, k < (q.x - p.x).natAbs + 1 ∧
      y = p.y + rounded left (q.y - p.y) |q.x - p.x| k ∧ c = p.x + (q.x - p.x).sign * k := by
    intro y c
    simp only [flatMarks, List.mem_map, List.mem_range, Prod.mk.injEq, eq_comm]
  generalize hD : |q.x - p.x| = D at *
  generalize hN : q.y - p.y = N at *
  generalize hT : (q.x - p.x).sign = T at *
  -- the rows of the marks, and the inner side of the edge on them
  have hside : ∀ x j, Side left p q x (p.y + j) ↔
      if left then T * D * j ≤ (x - p.x) * N else (x - p.x) * N ≤ T * D * j := by
    intro x j
    rw [side_flat hy, hsign, hN]
  have hrow : ∀ k : Nat, (k : Int) ≤ D → 0 ≤ rounded left N D k ∧ rounded left N D k ≤ N := by
    intro k hk
    have h1 : (k : Int) * N ≤ N * D := by
      rw [mul_comm N]
      exact mul_le_mul_of_nonneg_right hk (by omega)
    have h0 : 0 ≤ (k : Int) * N := mul_nonneg (by omega) (by omega)
    have hr := (rounded_eq hden).mp (Eq.refl (rounded left N D k))
    generalize rounded left N D k = j at *
    cases left with
    | true =>
      simp only [if_true] at hr
      constructor
      · by_contra hneg
        have := mul_le_mul_of_nonneg_right (show j ≤ -1 by omega) hden.le
        omega
      · by_contra hbig
        have := mul_le_mul_of_nonneg_right (show N ≤ j - 1 by omega) hden.le
        omega
    | false =>
      simp only [false_eq_true, if_false] at hr
      constructor
      · by_contra hneg
        have := mul_le_mul_of_nonneg_right (show j + 1 ≤ 0 by omega) hden.le
        omega
      · by_contra hbig
        have := mul_le_mul_of_nonneg_right (show N + 1 ≤ j by omega) hden.le
        rw [add_mul] at this
        omega
  refine ⟨?_, ?_, ?_, ?_⟩
  · intro y c hm
    obtain ⟨k, hk, rfl, -⟩ := (hmark y c).mp hm
    have := hrow k (by omega)
    exact .inl ⟨by omega, by omega, hy⟩
  · intro y hc
    obtain ⟨j, rfl⟩ : ∃ j, y = p.y + j := ⟨y - p.y, by omega⟩
    have hj : 0 ≤ j ∧ j ≤ N := by
      unfold Covers at hc
      omega
    obtain ⟨K, hKD, hK⟩ := exists_step left (show 0 < N by omega) hj.1 hj.2 hden
    refine ⟨p.x + T * K, (hmark _ _).mpr ⟨K, by omega, ?_, rfl⟩, ?_⟩
    · congr 1
      refine ((rounded_eq hden).mpr ?_).symm
      cases left with
      | true =>
        simp only [if_true] at hK ⊢
        rw [sub_mul]
        omega
      | false =>
        simp only [false_eq_true, if_false] at hK ⊢
        rw [add_mul]
        omega
    · intro x hx
      rw [hside] at hx
      rw [outer_shift]
      unfold Outer
      cases left with
      | true =>
        simp only [if_true] at hx hK ⊢
        rcases hone with rfl | rfl
        · rw [one_mul, mul_comm D] at hx
          have := le_of_mul_le_mul_right (hK.1.trans hx) (show 0 < N by omega)
          omega
        · have hlt : (p.x - x) * N < (K + 1) * N := by
            rw [add_mul, one_mul]
            have : (p.x - x) * N = -((x - p.x) * N) := by ring
            have : -1 * D * j = -(j * D) := by ring
            omega
          have := lt_of_mul_lt_mul_right hlt (show 0 ≤ N by omega)
          omega
      | false =>
        simp only [false_eq_true, if_false] at hx hK ⊢
        rcases hone with rfl | rfl
        · rw [one_mul, mul_comm D] at hx
          have := le_of_mul_le_mul_right (hx.trans hK.1) (show 0 < N by omega)
          omega
        · have hlt : (K - 1) * N < (p.x - x) * N := by
            rw [sub_mul, one_mul]
            have : (p.x - x) * N = -((x - p.x) * N) := by ring
            have : -1 * D * j = -(j * D) := by ring
            omega
          have := lt_of_mul_lt_mul_right hlt (show 0 ≤ N by omega)
          omega
  · intro hr y c hm
    obtain ⟨k, hk, rfl, rfl⟩ := (hmark y c).mp hm
    -- an edge that falls runs to the left
    have hfall : T = -1 := by
      rcases hone with rfl | h
      · refine absurd ⟨?_, ?_⟩ hr
        · exact mul_pos (Int.sign_eq_one_iff_pos.mp hT) (by omega)
        · rw [hD, hN, abs_of_pos (show 0 < N by omega)]
          exact hs
      · exact h
    subst hfall
    rw [hside]
    have hj := (rounded_eq hden).mp (Eq.refl (rounded left N D k))
    generalize rounded left N D k = j at *
    have hc : (p.x + -1 * (k : Int) - p.x) * N = -(k * N) := by ring
    have hd : -1 * D * j = -(j * D) := by ring
    rw [hc, hd]
    cases left with
    | true =>
      simp only [if_true] at hj ⊢
      omega
    | false =>
      simp only [false_eq_true, if_false] at hj ⊢
      omega
  · rintro ⟨hpos, -⟩
    rw [hN] at hpos
    have hrise : T = 1 := by
      have := (mul_pos_iff_of_pos_right (show 0 < N by omega)).mp hpos
      rw [← hT]
      exact Int.sign_eq_one_of_pos this
    subst hrise
    cases left with
    | true =>
      refine ⟨p.y + 1, p.x + 1 * (1 : Nat), (hmark _ _).mpr ⟨1, by omega, ?_, rfl⟩, ?_⟩
      · congr 1
        refine ((rounded_eq hden).mpr ?_).symm
        simp only [if_true]
        push_cast
        omega
      · rw [hside]
        simp only [if_true]
        have : (p.x + 1 * ((1 : Nat) : Int) - p.x) * N = N := by
          push_cast
          ring
        omega
    | false =>
      have hk : ((D - 1).toNat : Int) = D - 1 := by omega
      have hexp : (D - 1) * N = D * N - N := by ring
      have hexp' : (N - 1) * D = D * N - D := by ring
      refine ⟨p.y + (N - 1), p.x + 1 * ((D - 1).toNat : Int), (hmark _ _).mpr ⟨(D - 1).toNat, by omega, ?_, rfl⟩, ?_⟩
      · congr 1
        refine ((rounded_eq hden).mpr ?_).symm
        simp only [false_eq_true, if_false]
        rw [hk, hexp, hexp', sub_add_cancel, mul_comm N]
        omega
      · rw [hside, hk]
        simp only [false_eq_true, if_false]
        have hc : (p.x + 1 * (D - 1) - p.x) * N = D * N - N := by ring
        have hd : 1 * D * (N - 1) = D * N - D := by ring
        omega

theorem edge_spec (hy : p.y ≠ q.y) (left : Bool) : EdgeSpec left p q (edgeMarks left p q) := by
  unfold edgeMarks
  rw [if_neg hy]
  by_cases hs : |q.x - p.x| ≤ |q.y - p.y|
  · rw [if_pos hs]
    split_ifs with hx
    · apply EdgeSpec.swap
      apply steep_spec (by omega) (Ne.symm hy)
      rw [abs_sub_comm p.y]
      rw [abs_sub_comm] at hs
      exact (le_abs_self _).trans hs
    · exact steep_spec (by omega) hy ((le_abs_self _).trans hs) left
  · rw [if_neg hs]
    split_ifs with hflip
    · apply EdgeSpec.swap
      apply flat_spec hflip
      rw [abs_sub_comm p.x]
      have := le_abs_self (p.y - q.y)
      rw [abs_sub_comm p.y] at this
      omega
    · have := le_abs_self (q.y - p.y)
      exact flat_spec (by omega) (by omega) left

end WWindowSystem.Graph.Polygon
