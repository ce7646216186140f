import Mathlib.Data.Nat.Log
import Mathlib.Tactic.Linarith
import Mathlib.Tactic.Ring

namespace WWindowSystem

open Option

/-- An `ulong` takes the exact result of an operation, or the operation has left the range. -/
def inUlong (z : Int) : Option Nat := if 0 ≤ z ∧ z < 2 ^ 64 then some z.toNat else none

def toUlong (z : Int) : Option Nat := some (z % 2 ^ 64).toNat

def belowZero (z : Int) : Option Nat := if z = -1 then toUlong z else inUlong z

def inLong (z : Int) : Option Nat := if 0 ≤ z ∧ z < 2 ^ 63 then some z.toNat else none

variable (word count : Int → Option Nat)

def isqrt_bits : Nat → Nat → Nat → Option Nat
  | 0, _, _ => none
  | fuel + 1, u, l2 =>
    let u := u >>> 2
    if u = 0 then some l2 else do
      let l2 ← word (l2 + 1)
      isqrt_bits fuel u l2

/-- `while(l2--) { .. }`, where `count` takes the decrement of `l2` and `word` all other results. -/
def isqrt_turns (N : Nat) : Nat → Nat → Nat → Nat → Nat → Option Nat
  | 0, _, _, _, _ => none
  | fuel + 1, l2, u, v, u2 => do
    let left ← count (l2 - 1)
    if l2 = 0 then some u else
      let v := v >>> 1
      let twice ← word (u + u)
      let sum ← word (twice + v)
      let n ← word ((sum <<< left : Nat))
      let n ← word (n + u2)
      if n ≤ N then do
        let u ← word (u + v)
        isqrt_turns N fuel left u v n
      else isqrt_turns N fuel left u v u2

def isqrt (N : Nat) : Option Nat :=
  if 2 > N then some N else do
    let l2 ← isqrt_bits word 64 N 0
    let u ← inLong ((1 <<< l2 : Nat))
    let u2 ← word ((u <<< l2 : Nat))
    isqrt_turns word count N 64 l2 u u u2

def KeepsUlong (word : Int → Option Nat) : Prop := ∀ n : Nat, n < 2 ^ 64 → word n = some n

theorem inUlong_keeps : KeepsUlong inUlong := by
  intro n hn
  have h : (0 : Int) ≤ n ∧ (n : Int) < 2 ^ 64 := by omega
  rw [inUlong, if_pos h, Int.toNat_natCast]

theorem toUlong_keeps : KeepsUlong toUlong := by
  intro n hn
  have h : ((n : Int) % 2 ^ 64) = n := by omega
  rw [toUlong, h, Int.toNat_natCast]

theorem belowZero_keeps : KeepsUlong belowZero := by
  intro n hn
  rw [belowZero, if_neg (by omega), inUlong_keeps n hn]

theorem inLong_one {l : Nat} (hl : l ≤ 31) : inLong ((1 <<< l : Nat)) = some (2 ^ l) := by
  have hp : 2 ^ l ≤ 2 ^ 31 := Nat.pow_le_pow_right (by decide) hl
  have h : (0 : Int) ≤ ((2 ^ l : Nat) : Int) ∧ ((2 ^ l : Nat) : Int) < 2 ^ 63 := ⟨Int.natCast_nonneg _, by omega⟩
  rw [Nat.one_shiftLeft, inLong, if_pos h, Int.toNat_natCast]

theorem isqrt_bits_eq {word : Int → Option Nat} (hw : KeepsUlong word) {fuel u l2 : Nat} (hu : u < 4 ^ fuel) (hpos : 0 < u) (hl : l2 + fuel ≤ 64) :
    ∃ k, isqrt_bits word fuel u l2 = some (l2 + k) ∧ 4 ^ k ≤ u ∧ u < 4 ^ (k + 1) := by
  induction fuel generalizing u l2 with
  | zero => omega
  | succ fuel ih =>
    have hs : u >>> 2 = u / 4 := Nat.shiftRight_eq_div_pow u 2
    unfold isqrt_bits
    rw [hs]
    by_cases h0 : u / 4 = 0
    · exact ⟨0, by simp [h0], by omega, by omega⟩
    · have hn : u / 4 < 4 ^ fuel := by
        rw [Nat.pow_succ] at hu
        omega
      have hl' : l2 + 1 + fuel ≤ 64 := by omega
      obtain ⟨k, hk, hlo, hhi⟩ := ih hn (by omega) hl'
      have hone : word ((l2 : Int) + 1) = some (l2 + 1) := hw (l2 + 1) (by omega)
      refine ⟨k + 1, ?_, ?_, ?_⟩
      · simp only [h0, if_false, hone]
        rw [show l2 + (k + 1) = l2 + 1 + k by omega]
        exact hk
      · rw [Nat.pow_succ]
        omega
      · rw [Nat.pow_succ]
        omega

theorem isqrt_turns_eq {word count : Int → Option Nat} (hw : KeepsUlong word)
    (hc : KeepsUlong count) (hend : (count (-1)).isSome) {N fuel l2 u : Nat} (hf : l2 < fuel) (hl : l2 < 2 ^ 64)
    (hlo : u * u ≤ N) (hhi : N < (u + 2 ^ l2) * (u + 2 ^ l2)) (hroom : u + 2 ^ l2 ≤ 2 ^ 32) :
    ∃ r, isqrt_turns word count N fuel l2 u (2 ^ l2) (u * u) = some r ∧ r * r ≤ N ∧ N < (r + 1) * (r + 1) := by
  induction l2 generalizing fuel u with
  | zero =>
    obtain ⟨fuel, rfl⟩ : ∃ k, fuel = k + 1 := ⟨fuel - 1, by omega⟩
    obtain ⟨w, hwrap⟩ := isSome_iff_exists.mp hend
    refine ⟨u, ?_, hlo, hhi⟩
    simp [isqrt_turns, hwrap]
  | succ l ih =>
    obtain ⟨fuel, rfl⟩ : ∃ k, fuel = k + 1 := ⟨fuel - 1, by omega⟩
    have hv : 2 ^ (l + 1) >>> 1 = 2 ^ l := by
      rw [Nat.shiftRight_eq_div_pow, Nat.pow_succ, Nat.pow_one, Nat.mul_div_cancel _ (by decide)]
    have hp : 2 ^ (l + 1) = 2 * 2 ^ l := by ring
    have hone : 1 ≤ 2 ^ l := Nat.one_le_two_pow
    rw [hp] at hhi hroom
    -- the next candidate, whose square the shifts and additions build
    have hsquare : (u + u + 2 ^ l) * 2 ^ l + u * u = (u + 2 ^ l) * (u + 2 ^ l) := by ring
    have hn : (u + 2 ^ l) * (u + 2 ^ l) < 2 ^ 64 := by
      have h : u + 2 ^ l < 2 ^ 32 := by omega
      calc (u + 2 ^ l) * (u + 2 ^ l) < 2 ^ 32 * 2 ^ 32 := Nat.mul_lt_mul'' h h
        _ = 2 ^ 64 := by norm_num
    have hleft : count (((l + 1 : Nat) : Int) - 1) = some l := by
      rw [show ((l + 1 : Nat) : Int) - 1 = (l : Int) by omega]
      exact hc l (by omega)
    have htwice : word ((u : Int) + u) = some (u + u) := hw (u + u) (by omega)
    have hsum : word (((u + u : Nat) : Int) + ((2 ^ l : Nat) : Int)) = some (u + u + 2 ^ l) := hw (u + u + 2 ^ l) (by omega)
    have hshift : word (((u + u + 2 ^ l) <<< l : Nat) : Int) = some ((u + u + 2 ^ l) * 2 ^ l) := by
      rw [Nat.shiftLeft_eq]
      exact hw _ (by omega)
    have hnext : word ((((u + u + 2 ^ l) * 2 ^ l : Nat) : Int) + ((u * u : Nat) : Int)) = some ((u + 2 ^ l) * (u + 2 ^ l)) := by
      rw [← hsquare] at hn ⊢
      exact hw _ hn
    have hadd : word ((u : Int) + ((2 ^ l : Nat) : Int)) = some (u + 2 ^ l) := hw (u + 2 ^ l) (by omega)
    unfold isqrt_turns
    simp only [hleft, hv, htwice, hsum, hshift, hnext, hadd, bind_eq_bind, bind_some, Nat.succ_ne_zero, if_false]
    by_cases hle : (u + 2 ^ l) * (u + 2 ^ l) ≤ N
    · rw [if_pos hle]
      refine ih (by omega) (by omega) hle ?_ (by omega)
      rwa [show u + 2 ^ l + 2 ^ l = u + 2 * 2 ^ l by omega]
    · rw [if_neg hle]
      exact ih (by omega) (by omega) hlo (by omega) (by omega)

theorem isqrt_eq {word count : Int → Option Nat} (hw : KeepsUlong word) (hc : KeepsUlong count)
    (hend : (count (-1)).isSome) {N : Nat} (hN : N < 2 ^ 64) :
    ∃ r, isqrt word count N = some r ∧ r * r ≤ N ∧ N < (r + 1) * (r + 1) := by
  unfold isqrt
  by_cases h2 : 2 > N
  · refine ⟨N, if_pos h2, ?_⟩
    obtain rfl | rfl : N = 0 ∨ N = 1 := by omega
    · decide
    · decide
  · rw [if_neg h2]
    have hN4 : N < 4 ^ 64 := hN.trans (by norm_num)
    obtain ⟨l, hbits, hlo, hhi⟩ := isqrt_bits_eq hw hN4 (by omega) (Nat.zero_add 64).le
    rw [Nat.zero_add] at hbits
    have hl : l ≤ 31 := by
      by_contra hbig
      have h : 4 ^ 32 ≤ 4 ^ l := Nat.pow_le_pow_right (by decide) (by omega)
      have h32 : 4 ^ 32 = 2 ^ 64 := by norm_num
      omega
    have hfour : 4 ^ l = 2 ^ l * 2 ^ l := by rw [← Nat.mul_pow]
    have hp : 2 ^ l ≤ 2 ^ 31 := Nat.pow_le_pow_right (by decide) hl
    have hu2 : word ((2 ^ l <<< l : Nat) : Int) = some (2 ^ l * 2 ^ l) := by
      rw [Nat.shiftLeft_eq]
      exact hw _ (by omega)
    have hnext : N < (2 ^ l + 2 ^ l) * (2 ^ l + 2 ^ l) := by
      calc N < 4 ^ (l + 1) := hhi
        _ = (2 ^ l + 2 ^ l) * (2 ^ l + 2 ^ l) := by rw [Nat.pow_succ, hfour]; ring
    obtain ⟨r, hr, hroot⟩ := isqrt_turns_eq hw hc hend (show l < 64 by omega) (by omega) (by omega) hnext (by omega)
    refine ⟨r, bind_eq_some_iff.mpr ⟨l, hbits, ?_⟩, hroot⟩
    exact bind_eq_some_iff.mpr ⟨_, inLong_one hl, bind_eq_some_iff.mpr ⟨_, hu2, hr⟩⟩

/-- `isqrt` returns the integer square root, and the only result that leaves the range of its type is `l2--` at 0,
which ends the loop. -/
theorem isqrt_root (N : Nat) (hN : N < 2 ^ 64) :
    ∃ r, isqrt inUlong belowZero N = some r ∧ isqrt toUlong toUlong N = some r ∧ r * r ≤ N ∧ N < (r + 1) * (r + 1) := by
  obtain ⟨r, hr, hlo, hhi⟩ := isqrt_eq inUlong_keeps belowZero_keeps rfl hN
  obtain ⟨q, hq, hqlo, hqhi⟩ := isqrt_eq toUlong_keeps toUlong_keeps rfl hN
  have hqr : q = r := by
    apply Nat.le_antisymm
    · exact Nat.lt_succ_iff.mp (Nat.mul_self_lt_mul_self_iff.mp (hqlo.trans_lt hhi))
    · exact Nat.lt_succ_iff.mp (Nat.mul_self_lt_mul_self_iff.mp (hlo.trans_lt hqhi))
  exact ⟨r, hr, hqr ▸ hq, hlo, hhi⟩

theorem isqrt_root_top : ∃ r, isqrt inUlong belowZero (2 ^ 64 - 1) = some r ∧ isqrt toUlong toUlong (2 ^ 64 - 1) = some r ∧
    r * r ≤ 2 ^ 64 - 1 ∧ 2 ^ 64 - 1 < (r + 1) * (r + 1) := isqrt_root (2 ^ 64 - 1) (by decide)

/-- The counter is 0 when the loop ends, and `l2--` then takes it below. -/
theorem isqrt_counter_wraps : isqrt toUlong toUlong 2 = some 1 ∧ isqrt inUlong inUlong 2 = none := by decide

end WWindowSystem
