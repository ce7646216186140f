import Mathlib.Data.Nat.Size
import WWindowSystem.Library.Bits

namespace WWindowSystem.Lzw

open Bits

variable {α : Type}

/-- The alphabet of a coding and the widths of its codes. The codes of the letters come first, then the one that clears
the dictionary and the one that ends a text. -/
structure Coding (α : Type) where
  letter : Nat → α
  size : Nat
  maxWidth : Nat

namespace Coding

variable (C : Coding α)

def clear : Nat := 2 ^ C.size

def ending : Nat := C.clear + 1

def base : Nat := C.clear + 2

def word (D : List (List α)) (c : Nat) : Option (List α) :=
  if c < C.clear then some [C.letter c] else if C.base ≤ c then D[c - C.base]? else none

def extend (D : List (List α)) (last w : List α) : List (List α) :=
  if C.base + D.length < 2 ^ C.maxWidth then D ++ [last ++ w.take 1] else D

/-- The state of a coding is a dictionary and the last word, or `none` after it was cleared. -/
abbrev State (α : Type) := Option (List (List α) × List α)

def width : State α → Nat
  | none => C.size + 1
  | some (D, _) => min C.maxWidth (Nat.size (C.base + D.length))

inductive Codes : State α → List Nat → List Bool → List α → Prop
  | ending (st : State α) : Codes st [C.ending] (low (C.width st) C.ending) []
  | clear {codes : List Nat} {bits : List Bool} {text : List α} (st : State α) (h : Codes none codes bits text) :
      Codes st (C.clear :: codes) (low (C.width st) C.clear ++ bits) text
  | first {codes : List Nat} {bits : List Bool} {text : List α} {c : Nat} (hc : c < C.clear)
      (h : Codes (some ([], [C.letter c])) codes bits text) :
      Codes none (c :: codes) (low (C.width none) c ++ bits) (C.letter c :: text)
  | known {codes : List Nat} {bits : List Bool} {text : List α} {c : Nat} {D : List (List α)} {last w : List α}
      (hw : C.word D c = some w) (h : Codes (some (C.extend D last w, w)) codes bits text) :
      Codes (some (D, last)) (c :: codes) (low (C.width (some (D, last))) c ++ bits) (w ++ text)
  | next {codes : List Nat} {bits : List Bool} {text : List α} {D : List (List α)} {last w : List α}
      (hc : C.base + D.length < 2 ^ C.maxWidth) (hw : w = last ++ last.take 1)
      (h : Codes (some (C.extend D last w, w)) codes bits text) :
      Codes (some (D, last)) ((C.base + D.length) :: codes) (low (C.width (some (D, last))) (C.base + D.length) ++ bits) (w ++ text)

variable {C}

theorem width_none_lt {c : Nat} (hc : c < C.base) (hsize : 1 ≤ C.size) : c < 2 ^ C.width none := by
  unfold width
  unfold base clear at hc
  have hpow : 2 ≤ 2 ^ C.size := by
    calc 2 = 2 ^ 1 := rfl
      _ ≤ 2 ^ C.size := Nat.pow_le_pow_right (by decide) hsize
  rw [Nat.pow_succ]
  omega

theorem width_some_lt {D : List (List α)} {last : List α} {c : Nat} (hc : c ≤ C.base + D.length) (hmax : c < 2 ^ C.maxWidth) :
    c < 2 ^ C.width (some (D, last)) := by
  unfold width
  dsimp only
  rcases Nat.le_total C.maxWidth (Nat.size (C.base + D.length)) with hle | hle
  · rw [Nat.min_eq_left hle]
    exact hmax
  · rw [Nat.min_eq_right hle]
    have hlt := Nat.lt_size_self (C.base + D.length)
    omega

end Coding

end WWindowSystem.Lzw
