import Mathlib.Algebra.Order.Ring.Int
import Mathlib.Data.List.Basic
import Mathlib.Logic.Function.Basic
import Mathlib.Tactic.Linarith
import Mathlib.Tactic.Ring

namespace WWindowSystem

namespace Ring

variable {α : Type}

def next (n i : Nat) : Nat := if i + 1 = n then 0 else i + 1

def Holds (n : Nat) (slots : Nat → α) : Nat → List α → Prop
  | _, [] => True
  | r, a :: l => slots r = a ∧ Holds n slots (next n r) l

theorem next_lt {n i : Nat} (h : i < n) : next n i < n := by
  unfold next
  split_ifs <;> omega

def slot (n r k : Nat) : Nat := (r + k) % n

theorem slot_lt {n : Nat} (hn : 0 < n) (r k : Nat) : slot n r k < n := Nat.mod_lt _ hn

variable {n r : Nat}

theorem slot_zero (h : r < n) : slot n r 0 = r := Nat.mod_eq_of_lt h

theorem next_slot {n : Nat} (hn : 0 < n) (r k : Nat) : next n (slot n r k) = slot n r (k + 1) := by
  unfold next slot
  have hlt := Nat.mod_lt (r + k) hn
  rw [← Nat.add_assoc, ← Nat.mod_add_mod (r + k) n 1]
  split_ifs with h
  · rw [h, Nat.mod_self]
  · exact (Nat.mod_eq_of_lt (show (r + k) % n + 1 < n by omega)).symm

theorem slot_next (h : r < n) (k : Nat) : slot n (next n r) k = slot n r (k + 1) := by
  have hn : 0 < n := by omega
  have h1 : next n r = slot n r 1 := by
    rw [← next_slot hn, slot_zero h]
  rw [h1, slot, slot, slot, Nat.mod_add_mod, Nat.add_assoc, Nat.add_comm 1]

theorem slot_ne {n r i j : Nat} (hij : i < j) (hj : j < i + n) : slot n r i ≠ slot n r j := by
  unfold slot
  intro h
  have hd : n ∣ (r + j) - (r + i) := Nat.dvd_of_mod_eq_zero (Nat.sub_mod_eq_zero_of_mod_eq h.symm)
  have hle := Nat.le_of_dvd (by omega) hd
  omega

theorem slot_slot (n r j k : Nat) : slot n (slot n r j) k = slot n r (j + k) := by
  unfold slot
  rw [Nat.mod_add_mod, Nat.add_assoc]

variable {slots : Nat → α}

theorem Holds.append {l m : List α} (h : r < n) :
    Holds n slots r (l ++ m) ↔ Holds n slots r l ∧ Holds n slots (slot n r l.length) m := by
  induction l generalizing r with
  | nil => simp only [List.nil_append, Holds, true_and, List.length_nil, slot_zero h]
  | cons a l ih =>
    rw [List.cons_append, Holds, Holds, ih (next_lt h), List.length_cons, slot_next h, and_assoc]

theorem Holds.update {n r p : Nat} {a : α} {l : List α} (hr : r < n)
    (h : Holds n slots r l) (hp : ∀ k < l.length, slot n r k ≠ p) : Holds n (Function.update slots p a) r l := by
  induction l generalizing r with
  | nil => trivial
  | cons b l ih =>
    obtain ⟨hb, hl⟩ := h
    constructor
    · have h0 := hp 0 (by simp)
      rw [slot_zero hr] at h0
      rw [Function.update_of_ne h0, hb]
    · apply ih (next_lt hr) hl
      intro k hk
      rw [slot_next hr]
      apply hp
      rw [List.length_cons]
      omega

theorem Holds.push {a : α} {l : List α} (hr : r < n)
    (h : Holds n slots r l) (hl : l.length < n) :
    Holds n (Function.update slots (slot n r l.length) a) r (l ++ [a]) := by
  rw [Holds.append hr]
  constructor
  · apply h.update hr
    intro k hk
    exact slot_ne hk (by omega)
  · exact ⟨Function.update_self .., trivial⟩

end Ring

end WWindowSystem

namespace WWindowSystem

/-- Rows of `W` cells that stand one behind another in a ring of `H` rows: where row `k` starts. -/
def rowStart (W H k : Int) : Int := k % H * W

variable {W H : Int}

theorem rowStart_congr {k k' : Int} (h : k % H = k' % H) : rowStart W H k = rowStart W H k' := by
  rw [rowStart, rowStart, h]

theorem rowStart_of_lt {k : Int} (h0 : 0 ≤ k) (h : k < H) : rowStart W H k = k * W := by
  rw [rowStart, Int.emod_eq_of_lt h0 h]

theorem rowStart_period (k : Int) : rowStart W H (k + H) = rowStart W H k :=
  rowStart_congr (by rw [Int.add_emod_right])

theorem rowStart_inside (hH : 0 < H) (k : Int) {x : Int} (h0 : 0 ≤ x) (hx : x < W) :
    0 ≤ rowStart W H k + x ∧ rowStart W H k + x < W * H := by
  have h1 := Int.emod_nonneg k (show H ≠ 0 by omega)
  have h2 := Int.emod_lt_of_pos k hH
  unfold rowStart
  constructor
  · nlinarith
  · nlinarith

theorem emod_of_sum {k r : Int} (h0 : 0 ≤ r) (h : r < H) (q : Int) (hk : k = r + H * q) : k % H = r := by
  rw [hk, Int.add_mul_emod_self_left, Int.emod_eq_of_lt h0 h]

theorem rowStart_next (hW : 0 < W) (hH : 0 < H) (k : Int) :
    (if rowStart W H k + W ≥ W * H then rowStart W H k + W - W * H else rowStart W H k + W) = rowStart W H (k + 1) := by
  have h1 := Int.emod_nonneg k (show H ≠ 0 by omega)
  have h2 := Int.emod_lt_of_pos k hH
  have hk := Int.emod_add_mul_ediv k H
  unfold rowStart
  generalize k % H = r at *
  by_cases hlast : r + 1 = H
  · have hz : (k + 1) % H = 0 := by
      apply emod_of_sum (le_refl 0) hH (k / H + 1)
      linarith
    have hr : r * W + W = W * H := by rw [← hlast]; ring
    rw [hz, if_pos (by omega), hr]
    ring
  · have hz : (k + 1) % H = r + 1 := by
      apply emod_of_sum (by omega) (by omega) (k / H)
      omega
    have hr : r * W + W < W * H := by nlinarith [show r + 1 < H by omega]
    rw [hz, if_neg (by omega)]
    ring

theorem rowStart_prev (hW : 0 < W) (hH : 0 < H) (k : Int) :
    (if rowStart W H k - 1 < 0 then rowStart W H k - 1 + W * H else rowStart W H k - 1) =
      rowStart W H (k - 1) + (W - 1) := by
  have h1 := Int.emod_nonneg k (show H ≠ 0 by omega)
  have h2 := Int.emod_lt_of_pos k hH
  have hk := Int.emod_add_mul_ediv k H
  unfold rowStart
  generalize k % H = r at *
  by_cases hfirst : r = 0
  · have hz : (k - 1) % H = H - 1 := by
      apply emod_of_sum (by omega) (by omega) (k / H - 1)
      linarith
    rw [hz, hfirst, if_pos (by omega)]
    ring
  · have hz : (k - 1) % H = r - 1 := by
      apply emod_of_sum (by omega) (by omega) (k / H)
      omega
    have hr : 0 < r * W := Int.mul_pos (by omega) hW
    rw [hz, if_neg (by omega)]
    ring

theorem row_inj {k k' : Int} (h : k % H = k' % H) (h1 : k - k' < H) (h2 : k' - k < H) : k = k' := by
  have e1 := Int.emod_add_mul_ediv k H
  have e2 := Int.emod_add_mul_ediv k' H
  have hd : k - k' = H * (k / H - k' / H) := by rw [Int.mul_sub]; omega
  have hz : k / H - k' / H = 0 := by
    by_contra hne
    obtain hp | hn : 1 ≤ k / H - k' / H ∨ k / H - k' / H ≤ -1 := by omega
    · nlinarith
    · nlinarith
  rw [hz, Int.mul_zero] at hd
  omega

theorem cell_inj {k k' x x' : Int} (hx0 : 0 ≤ x) (hx : x < W) (hx0' : 0 ≤ x') (hx' : x' < W) :
    rowStart W H k + x = rowStart W H k' + x' ↔ k % H = k' % H ∧ x = x' := by
  unfold rowStart
  generalize k % H = r
  generalize k' % H = r'
  constructor
  · intro he
    have hd : (r - r') * W = x' - x := by rw [Int.sub_mul]; omega
    have hz : r - r' = 0 := by
      by_contra hne
      obtain hp | hn : 1 ≤ r - r' ∨ r - r' ≤ -1 := by omega
      · nlinarith
      · nlinarith
    rw [hz, Int.zero_mul] at hd
    omega
  · rintro ⟨rfl, rfl⟩
    rfl

theorem row_window (hH : 0 < H) (lo k : Int) : ∃ k', lo ≤ k' ∧ k' < lo + H ∧ k' % H = k % H := by
  refine ⟨lo + (k - lo) % H, ?_, ?_, ?_⟩
  · have := Int.emod_nonneg (k - lo) (show H ≠ 0 by omega)
    omega
  · have := Int.emod_lt_of_pos (k - lo) hH
    omega
  · rw [Int.add_emod_emod]
    congr 1
    omega

end WWindowSystem
