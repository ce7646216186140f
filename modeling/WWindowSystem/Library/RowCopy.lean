import Mathlib.Algebra.Order.Ring.Int
import Mathlib.Tactic.Linarith
import Mathlib.Tactic.Ring

namespace WWindowSystem

variable {α : Type}

def moveCells (src dst n : Int) (mem : Int → α) : Int → α :=
  fun a => if dst ≤ a ∧ a < dst + n then mem (src + (a - dst)) else mem a

def moveRows (n sstep dstep : Int) : Nat → Int → Int → (Int → α) → Int → α
  | 0, _, _, mem => mem
  | h + 1, src, dst, mem => moveRows n sstep dstep h (src + sstep) (dst + dstep) (moveCells src dst n mem)

def RowsApart (n sstep dstep src dst : Int) (h : Nat) : Prop :=
  ∀ k k' : Nat, k < k' → k' < h → ∀ i i', 0 ≤ i → i < n → 0 ≤ i' → i' < n →
    src + k' * sstep + i ≠ dst + k * dstep + i' ∧ dst + k' * dstep + i ≠ dst + k * dstep + i'

variable {n sstep dstep src dst : Int} {h : Nat}

theorem RowsApart.next (hr : RowsApart n sstep dstep src dst (h + 1)) :
    RowsApart n sstep dstep (src + sstep) (dst + dstep) h := by
  intro k k' hk hk' i i' h1 h2 h3 h4
  have := hr (k + 1) (k' + 1) (by omega) (by omega) i i' h1 h2 h3 h4
  push_cast at this
  constructor
  · intro he
    apply this.1
    linarith
  · intro he
    apply this.2
    linarith

theorem moveRows_frame {mem : Int → α} {a : Int}
    (ha : ∀ k : Nat, k < h → ∀ i, 0 ≤ i → i < n → a ≠ dst + k * dstep + i) :
    moveRows n sstep dstep h src dst mem a = mem a := by
  induction h generalizing src dst mem with
  | zero => rfl
  | succ h ih =>
    rw [moveRows, ih]
    · have hfirst := ha 0 (by omega)
      unfold moveCells
      rw [if_neg]
      rintro ⟨hlo, hhi⟩
      exact hfirst (a - dst) (by omega) (by omega) (by push_cast; omega)
    · intro k hk i h0 hi he
      apply ha (k + 1) (by omega) i h0 hi
      push_cast
      linarith

theorem moveRows_cell {mem : Int → α} (hr : RowsApart n sstep dstep src dst h) {k : Nat} (hk : k < h) {i : Int}
    (h0 : 0 ≤ i) (hi : i < n) :
    moveRows n sstep dstep h src dst mem (dst + k * dstep + i) = mem (src + k * sstep + i) := by
  induction h generalizing src dst mem k with
  | zero => omega
  | succ h ih =>
    rw [moveRows]
    cases k with
    | zero =>
      rw [moveRows_frame]
      · simp only [Nat.cast_zero, zero_mul, add_zero, moveCells]
        rw [if_pos (by omega), add_sub_cancel_left]
      · intro k hk i' h0' hi' he
        apply (hr 0 (k + 1) (by omega) (by omega) i' i h0' hi' h0 hi).2
        push_cast at he ⊢
        linarith
    | succ k =>
      have he : dst + ((k + 1 : Nat) : Int) * dstep + i = dst + dstep + k * dstep + i := by
        push_cast
        ring
      have hs : src + ((k + 1 : Nat) : Int) * sstep + i = src + sstep + k * sstep + i := by
        push_cast
        ring
      rw [he, ih hr.next (by omega), ← hs, moveCells, if_neg]
      rintro ⟨hlo, hhi⟩
      exact (hr 0 (k + 1) (by omega) (by omega) i (src + ((k + 1 : Nat) : Int) * sstep + i - dst) h0 hi (by omega)
        (by omega)).1 (by push_cast; ring)

theorem row_major {w x x' y y' : Int} (hx : 0 ≤ x) (hxw : x < w) (hx' : 0 ≤ x') (hxw' : x' < w)
    (h : y * w + x = y' * w + x') : y = y' ∧ x = x' := by
  have hw : 0 < w := by omega
  have hy : y = y' := by
    rcases lt_trichotomy y y' with hlt | heq | hgt
    · have := mul_le_mul_of_nonneg_right (show y + 1 ≤ y' by omega) hw.le
      rw [add_mul, one_mul] at this
      omega
    · exact heq
    · have := mul_le_mul_of_nonneg_right (show y' + 1 ≤ y by omega) hw.le
      rw [add_mul, one_mul] at this
      omega
  subst hy
  exact ⟨rfl, by omega⟩

end WWindowSystem
