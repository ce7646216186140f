import Mathlib.Algebra.Order.Ring.Int
import Mathlib.Data.BitVec
import Mathlib.Tactic.IntervalCases

namespace WWindowSystem

open BitVec

def short (z : Int) : Int := (z + 32768) % 65536 - 32768

theorem short_of_range {z : Int} (h : -32768 ≤ z) (h' : z < 32768) : short z = z := by
  unfold short
  omega

def toint (z : Int) : Int := (z + 2 ^ 31) % 2 ^ 32 - 2 ^ 31

theorem toint_range (z : Int) : -2147483648 ≤ toint z ∧ toint z ≤ 2147483647 := by
  unfold toint
  omega

theorem toint_of_range {z : Int} (h : -2147483648 ≤ z) (h' : z ≤ 2147483647) : toint z = z := by
  unfold toint
  omega

structure Access where
  size : Int
  index : Int
  deriving DecidableEq

def Access.Inside (a : Access) : Prop := 0 ≤ a.index ∧ a.index < a.size

def ntohs (big : Bool) (x : BitVec 16) : BitVec 16 :=
  if big then x else x <<< 8 ||| x >>> 8

def ntohl (big : Bool) (x : BitVec 32) : BitVec 32 :=
  if big then x
  else x <<< 24 ||| (x <<< 8 &&& 0x00ff0000) ||| (x >>> 8 &&& 0x0000ff00) ||| x >>> 24

abbrev Byte := BitVec 8

instance : LawfulBEq Byte := inferInstance

def storeShort (big : Bool) (x : BitVec 16) : List Byte :=
  if big then [x.extractLsb' 8 8, x.extractLsb' 0 8] else [x.extractLsb' 0 8, x.extractLsb' 8 8]

def storeLong (big : Bool) (x : BitVec 32) : List Byte :=
  if big then [x.extractLsb' 24 8, x.extractLsb' 16 8, x.extractLsb' 8 8, x.extractLsb' 0 8]
  else [x.extractLsb' 0 8, x.extractLsb' 8 8, x.extractLsb' 16 8, x.extractLsb' 24 8]

def loadShort (big : Bool) : List Byte → Option (BitVec 16 × List Byte)
  | a :: b :: s => some (if big then a ++ b else b ++ a, s)
  | _ => none

def loadLong (big : Bool) : List Byte → Option (BitVec 32 × List Byte)
  | a :: b :: c :: d :: s => some (if big then a ++ b ++ c ++ d else d ++ c ++ b ++ a, s)
  | _ => none

variable (big : Bool)

@[simp] theorem length_storeShort (x : BitVec 16) : (storeShort big x).length = 2 := by
  cases big <;> rfl

@[simp] theorem length_storeLong (x : BitVec 32) : (storeLong big x).length = 4 := by
  cases big <;> rfl

theorem append_bytes (x : BitVec 32) :
    x.extractLsb' 24 8 ++ x.extractLsb' 16 8 ++ x.extractLsb' 8 8 ++ x.extractLsb' 0 8 = x := by
  apply eq_of_getLsbD_eq
  intro i hi
  simp only [getLsbD_append, getLsbD_extractLsb']
  by_cases h : i < 8
  · simp [h]
  · by_cases h1 : i < 16
    · simp [h, show i - 8 < 8 by omega, show 8 + (i - 8) = i by omega]
    · by_cases h2 : i < 24
      · simp [h, show ¬ i - 8 < 8 by omega, show i - 8 - 8 < 8 by omega,
          show 16 + (i - 8 - 8) = i by omega]
      · simp [h, show ¬ i - 8 < 8 by omega, show ¬ i - 8 - 8 < 8 by omega,
          show i - 8 - 8 - 8 < 8 by omega, show 24 + (i - 8 - 8 - 8) = i by omega]

theorem bytes_append (a b c d : Byte) (i : Nat) (hi : i < 8) : (a ++ b ++ c ++ d).getLsbD (24 + i) = a.getLsbD i ∧
      (a ++ b ++ c ++ d).getLsbD (16 + i) = b.getLsbD i ∧ (a ++ b ++ c ++ d).getLsbD (8 + i) = c.getLsbD i ∧
      (a ++ b ++ c ++ d).getLsbD i = d.getLsbD i := by
  simp only [getLsbD_append]
  refine ⟨?_, ?_, ?_, ?_⟩ <;> split_ifs <;> first | omega | (congr 1 <;> omega)

theorem extract_bytes (a b c d : Byte) : (a ++ b ++ c ++ d : BitVec 32).extractLsb' 24 8 = a ∧
      (a ++ b ++ c ++ d : BitVec 32).extractLsb' 16 8 = b ∧ (a ++ b ++ c ++ d : BitVec 32).extractLsb' 8 8 = c ∧
      (a ++ b ++ c ++ d : BitVec 32).extractLsb' 0 8 = d := by
  refine ⟨?_, ?_, ?_, ?_⟩ <;>
    (apply eq_of_getLsbD_eq
     intro i hi
     have h := bytes_append a b c d i hi
     simp [hi, h])

theorem load_storeShort (x : BitVec 16) (s : List Byte) :
    loadShort big (storeShort big x ++ s) = some (x, s) := by
  have hx : x.extractLsb' 8 8 ++ x.extractLsb' 0 8 = x := extractLsb'_append_extractLsb'
  cases big <;> simp [storeShort, loadShort, hx]

theorem load_storeLong (x : BitVec 32) (s : List Byte) :
    loadLong big (storeLong big x ++ s) = some (x, s) := by
  cases big <;> simp [storeLong, loadLong, append_bytes x]

variable {s t : List Byte}

theorem store_loadShort {big : Bool} {x : BitVec 16}
    (h : loadShort big t = some (x, s)) : t = storeShort big x ++ s := by
  match t with
  | [] => cases h
  | [_] => cases h
  | a :: b :: s =>
    cases h
    have hl (x y : Byte) : (x ++ y : BitVec 16).extractLsb' 8 8 = x := extractLsb'_append_eq_left
    have hr (x y : Byte) : (x ++ y : BitVec 16).extractLsb' 0 8 = y := extractLsb'_append_eq_right
    cases big with
    | true =>
      change a :: b :: s = [BitVec.extractLsb' 8 8 (a ++ b), BitVec.extractLsb' 0 8 (a ++ b)] ++ s
      rw [hl, hr]
      rfl
    | false =>
      change a :: b :: s = [BitVec.extractLsb' 0 8 (b ++ a), BitVec.extractLsb' 8 8 (b ++ a)] ++ s
      rw [hl, hr]
      rfl

theorem store_loadLong {big : Bool} {x : BitVec 32}
    (h : loadLong big t = some (x, s)) : t = storeLong big x ++ s := by
  match t with
  | [] => cases h
  | [_] => cases h
  | [_, _] => cases h
  | [_, _, _] => cases h
  | a :: b :: c :: d :: s =>
    cases h
    cases big with
    | true =>
      obtain ⟨ha, hb, hc, hd⟩ := extract_bytes a b c d
      change a :: b :: c :: d :: s = [BitVec.extractLsb' 24 8 (a ++ b ++ c ++ d),
        BitVec.extractLsb' 16 8 (a ++ b ++ c ++ d), BitVec.extractLsb' 8 8 (a ++ b ++ c ++ d),
        BitVec.extractLsb' 0 8 (a ++ b ++ c ++ d)] ++ s
      rw [ha, hb, hc, hd]
      rfl
    | false =>
      obtain ⟨hd, hc, hb, ha⟩ := extract_bytes d c b a
      change a :: b :: c :: d :: s = [BitVec.extractLsb' 0 8 (d ++ c ++ b ++ a),
        BitVec.extractLsb' 8 8 (d ++ c ++ b ++ a), BitVec.extractLsb' 16 8 (d ++ c ++ b ++ a),
        BitVec.extractLsb' 24 8 (d ++ c ++ b ++ a)] ++ s
      rw [ha, hb, hc, hd]
      rfl

theorem ntohl_ntohl (x : BitVec 32) : ntohl big (ntohl big x) = x := by
  cases big with
  | true => rfl
  | false =>
    apply eq_of_getLsbD_eq
    intro i hi
    interval_cases i <;> simp [ntohl]

end WWindowSystem
