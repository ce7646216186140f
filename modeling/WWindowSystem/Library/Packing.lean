import Mathlib.Data.BitVec
import Mathlib.Data.List.GetD

namespace WWindowSystem.Packing

open List

def bitAt (words : List (BitVec 32)) (i : Nat) : Bool := (words.getD (i / 32) 0).getMsbD (i % 32)

def TOP : BitVec 32 := 0x80000000

structure Stream where
  out : List (BitVec 32)
  cdata : BitVec 32
  cbit : BitVec 32

def Stream.start : Stream := ⟨[], 0, TOP⟩

def Stream.put (s : Stream) (b : Bool) : Stream :=
  let cdata := if b then s.cdata ||| s.cbit else s.cdata
  if s.cbit >>> 1 = 0 then ⟨s.out ++ [cdata], 0, TOP⟩ else ⟨s.out, cdata, s.cbit >>> 1⟩

def Stream.flush (s : Stream) : List (BitVec 32) := if s.cbit ≠ TOP then s.out ++ [s.cdata] else s.out

structure Holds (s : Stream) (bits : List Bool) : Prop where
  length : s.out.length = bits.length / 32
  cbit : s.cbit = TOP >>> (bits.length % 32)
  bit : ∀ i, bitAt (s.out ++ [s.cdata]) i = bits.getD i false

variable {s : Stream} {bits : List Bool}

variable {i : Nat}

theorem bitAt_past {words : List (BitVec 32)} (h : words.length ≤ i / 32) : bitAt words i = false := by
  rw [bitAt, getD_eq_default _ _ h]
  simp

variable {l l' : List (BitVec 32)}

theorem bitAt_left (h : i / 32 < l.length) : bitAt (l ++ l') i = bitAt l i := by
  rw [bitAt, getD_append _ _ _ _ h, bitAt]

theorem bitAt_right (h : l.length ≤ i / 32) : bitAt (l ++ l') i = bitAt l' (i - 32 * l.length) := by
  have hword : i / 32 - l.length = (i - 32 * l.length) / 32 := by omega
  have hplace : i % 32 = (i - 32 * l.length) % 32 := by omega
  rw [bitAt, getD_append_right _ _ _ _ h, bitAt, hword, hplace]

theorem bitAt_zero (words : List (BitVec 32)) (i : Nat) : bitAt (words ++ [0]) i = bitAt words i := by
  rcases Nat.lt_or_ge (i / 32) words.length with h | h
  · exact bitAt_left h
  · rw [bitAt_right h, bitAt_past h, bitAt]
    rcases Nat.eq_zero_or_pos ((i - 32 * words.length) / 32) with h0 | h0
    · rw [h0]
      simp
    · rw [getD_eq_default _ _ (by rw [length_singleton]; exact h0)]
      simp

theorem top_bit : ∀ r < 32, ∀ j < 32, (TOP >>> r).getMsbD j = decide (j = r) := by decide +kernel

theorem top_shift (r : Nat) : (TOP >>> r) >>> 1 = TOP >>> (r + 1) := (BitVec.shiftRight_add TOP r 1).symm

theorem top_end : ∀ r < 32, (TOP >>> (r + 1) = 0 ↔ r = 31) := by decide +kernel

theorem top_full : ∀ r < 32, (TOP >>> r = TOP ↔ r = 0) := by decide +kernel

theorem Holds.start : Holds .start [] := by
  refine ⟨rfl, rfl, fun i => ?_⟩
  change bitAt ([] ++ [0]) i = _
  rw [bitAt_zero, bitAt_past (Nat.zero_le _)]
  simp

theorem Holds.word_bit (h : Holds s bits) (b : Bool) (i : Nat) :
    bitAt (s.out ++ [if b then s.cdata ||| s.cbit else s.cdata]) i = (bits ++ [b]).getD i false := by
  have hr : bits.length % 32 < 32 := Nat.mod_lt _ (by decide)
  have hold := h.bit i
  rcases Nat.lt_or_ge (i / 32) s.out.length with hlt | hge
  · rw [bitAt_left hlt] at hold ⊢
    have hi : i < bits.length := by
      have hl := h.length
      omega
    rw [hold, getD_append _ _ _ _ hi]
  · rw [bitAt_right hge] at hold ⊢
    have hl := h.length
    have hi32 : (i - 32 * s.out.length) % 32 = i % 32 := by omega
    rcases Nat.eq_zero_or_pos ((i - 32 * s.out.length) / 32) with h0 | h0
    · rw [bitAt, h0, hi32] at hold ⊢
      simp only [getD_cons_zero] at hold ⊢
      have hbit : (if b then s.cdata ||| s.cbit else s.cdata).getMsbD (i % 32) =
          (s.cdata.getMsbD (i % 32) || (b && decide (i % 32 = bits.length % 32))) := by
        cases b with
        | false => simp
        | true =>
          rw [if_pos rfl, BitVec.getMsbD_or, h.cbit]
          rw [top_bit _ hr _ (Nat.mod_lt _ (by decide))]
          simp
      rw [hbit, hold]
      rcases Nat.lt_trichotomy i bits.length with hi | hi | hi
      · rw [getD_append _ _ _ _ hi]
        have hne : ¬ i % 32 = bits.length % 32 := by omega
        simp [hne]
      · rw [getD_append_right _ _ _ _ (by omega), getD_eq_default _ _ (by omega)]
        simp [hi]
      · rw [getD_append_right _ _ _ _ (by omega), getD_eq_default _ _ (by omega), getD_eq_default _ _ (by simp; omega)]
        have hne : ¬ i % 32 = bits.length % 32 := by omega
        simp [hne]
    · rw [bitAt_past (by rw [length_singleton]; exact h0)]
      rw [getD_append_right _ _ _ _ (by omega), getD_eq_default _ _ (by simp; omega)]

theorem Holds.put (h : Holds s bits) (b : Bool) : Holds (s.put b) (bits ++ [b]) := by
  have hr : bits.length % 32 < 32 := Nat.mod_lt _ (by decide)
  have hnext : s.cbit >>> 1 = TOP >>> (bits.length % 32 + 1) := by
    rw [h.cbit]
    exact top_shift _
  have hl := h.length
  unfold Stream.put
  dsimp only
  by_cases hfull : s.cbit >>> 1 = 0
  · rw [if_pos hfull]
    rw [hnext] at hfull
    have hlast := (top_end _ hr).mp hfull
    refine ⟨?_, ?_, fun i => ?_⟩
    · simp only [length_append, length_singleton]
      omega
    · have hz : (bits ++ [b]).length % 32 = 0 := by
        rw [length_append, length_singleton]
        omega
      rw [hz]
      rfl
    · dsimp only
      rw [bitAt_zero]
      exact h.word_bit b i
  · rw [if_neg hfull]
    rw [hnext] at hfull
    have hlast : bits.length % 32 ≠ 31 := fun he => hfull ((top_end _ hr).mpr he)
    have hlen : (bits ++ [b]).length % 32 = bits.length % 32 + 1 := by
      rw [length_append, length_singleton]
      omega
    refine ⟨?_, ?_, fun i => h.word_bit b i⟩
    · simp only [length_append, length_singleton]
      omega
    · rw [hlen]
      exact hnext

theorem Holds.puts (h : Holds s bits) (l : List Bool) : Holds (l.foldl Stream.put s) (bits ++ l) := by
  induction l generalizing s bits with
  | nil => simpa using h
  | cons b l ih => simpa using ih (h.put b)

theorem Holds.flush (h : Holds s bits) :
    s.flush.length = (bits.length + 31) / 32 ∧ ∀ i, bitAt s.flush i = bits.getD i false := by
  have hr : bits.length % 32 < 32 := Nat.mod_lt _ (by decide)
  have hl := h.length
  unfold Stream.flush
  by_cases hfull : s.cbit ≠ TOP
  · rw [if_pos hfull]
    rw [h.cbit] at hfull
    have hpart : bits.length % 32 ≠ 0 := fun he => hfull ((top_full _ hr).mpr he)
    refine ⟨?_, h.bit⟩
    rw [length_append, length_singleton]
    omega
  · rw [if_neg hfull]
    rw [h.cbit, not_not] at hfull
    have hpart := (top_full _ hr).mp hfull
    refine ⟨by omega, fun i => ?_⟩
    rcases Nat.lt_or_ge (i / 32) s.out.length with hlt | hge
    · rw [← h.bit i, bitAt_left hlt]
    · rw [bitAt_past hge, getD_eq_default _ _ (by omega)]

end WWindowSystem.Packing
