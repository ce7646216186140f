import Mathlib.Data.Nat.Bitwise
import Mathlib.Tactic.Ring

namespace WWindowSystem.Bits

open List

def value : List Bool → Nat
  | [] => 0
  | b :: l => b.toNat + 2 * value l

def low : Nat → Nat → List Bool
  | 0, _ => []
  | w + 1, n => decide (n % 2 = 1) :: low w (n / 2)

@[simp] theorem low_length (w n : Nat) : (low w n).length = w := by
  induction w generalizing n with
  | zero => rfl
  | succ w ih => simp [low, ih]

theorem value_low (w n : Nat) : value (low w n) = n % 2 ^ w := by
  induction w generalizing n with
  | zero => simp [low, value, Nat.mod_one]
  | succ w ih =>
    have hbit : (decide (n % 2 = 1)).toNat = n % 2 := by
      rcases Nat.mod_two_eq_zero_or_one n with h | h <;> simp [h]
    rw [low, value, ih, hbit, Nat.pow_succ, Nat.mul_comm (2 ^ w) 2, Nat.mod_mul]

theorem value_low_of_lt {w n : Nat} (h : n < 2 ^ w) : value (low w n) = n := by
  rw [value_low, Nat.mod_eq_of_lt h]

theorem value_append (l l' : List Bool) : value (l ++ l') = value l + 2 ^ l.length * value l' := by
  induction l with
  | nil => simp [value]
  | cons b l ih =>
    rw [cons_append, value, ih, value, length_cons, Nat.pow_succ]
    ring

theorem value_lt (l : List Bool) : value l < 2 ^ l.length := by
  induction l with
  | nil => simp [value]
  | cons b l ih =>
    have hb : b.toNat ≤ 1 := Bool.toNat_le b
    rw [value, length_cons, Nat.pow_succ]
    omega

theorem value_drop (k : Nat) (l : List Bool) : value (l.drop k) = value l / 2 ^ k := by
  rcases Nat.le_total k l.length with hk | hk
  · have htake := value_lt (l.take k)
    have hlen : (l.take k).length = k := length_take_of_le hk
    have happend := value_append (l.take k) (l.drop k)
    rw [take_append_drop, hlen] at happend
    rw [hlen] at htake
    rw [happend, Nat.add_mul_div_left _ _ (Nat.two_pow_pos k), Nat.div_eq_of_lt htake, Nat.zero_add]
  · rw [drop_of_length_le hk]
    have hlt := value_lt l
    have hpow : 2 ^ l.length ≤ 2 ^ k := Nat.pow_le_pow_right (by decide) hk
    rw [Nat.div_eq_of_lt (by omega)]
    rfl

theorem value_take (k : Nat) (l : List Bool) : value (l.take k) = value l % 2 ^ k := by
  rcases Nat.le_total k l.length with hk | hk
  · have htake := value_lt (l.take k)
    have hlen : (l.take k).length = k := length_take_of_le hk
    have happend := value_append (l.take k) (l.drop k)
    rw [take_append_drop, hlen] at happend
    rw [hlen] at htake
    rw [happend, Nat.add_mul_mod_self_left, Nat.mod_eq_of_lt htake]
  · rw [take_of_length_le hk]
    have hlt := value_lt l
    have hpow : 2 ^ l.length ≤ 2 ^ k := Nat.pow_le_pow_right (by decide) hk
    rw [Nat.mod_eq_of_lt (by omega)]

theorem value_low_append {w n : Nat} (hn : n < 2 ^ w) (l : List Bool) : value ((low w n ++ l).take w) = n := by
  rw [take_left' (low_length w n), value_low_of_lt hn]

def ofBytes (s : List (BitVec 8)) : List Bool := s.flatMap fun b => low 8 b.toNat

@[simp] theorem ofBytes_cons (b : BitVec 8) (s : List (BitVec 8)) : ofBytes (b :: s) = low 8 b.toNat ++ ofBytes s :=
  flatMap_cons

theorem ofBytes_length (s : List (BitVec 8)) : (ofBytes s).length = 8 * s.length := by
  induction s with
  | nil => rfl
  | cons b s ih =>
    rw [ofBytes_cons, length_append, low_length, ih, length_cons]
    omega

theorem value_or (l : List Bool) (b : BitVec 8) : value l ||| b.toNat <<< l.length = value (l ++ low 8 b.toNat) := by
  rw [value_append, value_low_of_lt b.isLt, Nat.or_comm, ← Nat.shiftLeft_add_eq_or_of_lt (value_lt l), Nat.shiftLeft_eq]
  ring

end WWindowSystem.Bits
