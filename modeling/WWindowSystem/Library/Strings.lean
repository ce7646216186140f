import Mathlib.Data.List.TakeWhile
import Mathlib.Data.Nat.Digits.Defs
import WWindowSystem.Library.Words

namespace WWindowSystem

open List

/-! The strings of C, without the zero byte at their end. -/

def cstring (s : String) : List Byte := s.toList.map fun c => BitVec.ofNat 8 c.toNat

def cstr (s : List Byte) : List Byte := s.takeWhile fun c => c ≠ 0

theorem cstr_length (s : List Byte) : (cstr s).length ≤ s.length := (takeWhile_sublist _).length_le

theorem cstr_append_nul {s : List Byte} (h : 0 ∉ s) (t : List Byte) : cstr (s ++ 0 :: t) = s := by
  unfold cstr
  rw [takeWhile_append_of_pos]
  · simp
  · intro c hc
    simpa using ne_of_mem_of_not_mem hc h

theorem cstr_of_nul {s : List Byte} (h : 0 ∉ s) : cstr s = s := by
  unfold cstr
  rw [takeWhile_eq_self_iff]
  intro c hc
  simpa using ne_of_mem_of_not_mem hc h

theorem cstr_nul_free (s : List Byte) : 0 ∉ cstr s := by
  intro h
  have hne := mem_takeWhile_imp h
  simp at hne

def strcmp : List Byte → List Byte → Int
  | [], [] => 0
  | [], c :: _ => -c.toNat
  | c :: _, [] => c.toNat
  | c :: s, d :: t => if c = d then strcmp s t else (c.toNat : Int) - d.toNat

def isspace (c : Byte) : Bool := c.toNat = 32 ∨ 9 ≤ c.toNat ∧ c.toNat ≤ 13

def isdigit (c : Byte) : Bool := 48 ≤ c.toNat ∧ c.toNat ≤ 57

def tolower (c : Byte) : Byte := if 65 ≤ c.toNat ∧ c.toNat ≤ 90 then c + 32 else c

def strcasecmp (s t : List Byte) : Int := strcmp (s.map tolower) (t.map tolower)

def strtol (longMax : Int) (s : List Byte) : Int :=
  let s := s.dropWhile isspace
  let digits := if s.head? = some 45 ∨ s.head? = some 43 then s.tail else s
  let v := (digits.takeWhile isdigit).foldl (fun v c => 10 * v + ((c.toNat : Int) - 48)) (0 : Int)
  if s.head? = some 45 then max (-v) (-longMax - 1) else min v longMax

def strncasecmp (s t : List Byte) (n : Nat) : Int := strcasecmp (s.take n) (t.take n)

def decimal (n : Nat) : List Byte := (Nat.digits 10 n).reverse.map fun d => BitVec.ofNat 8 (48 + d)

theorem byte_toNat_ne_zero {c : Byte} (h : c ≠ 0) : c.toNat ≠ 0 := fun hc => h (BitVec.eq_of_toNat_eq hc)

theorem strcmp_eq_zero {s t : List Byte} (hs : 0 ∉ s) (ht : 0 ∉ t) : strcmp s t = 0 ↔ s = t := by
  induction s generalizing t with
  | nil =>
    cases t with
    | nil => simp [strcmp]
    | cons d t =>
      have hd := byte_toNat_ne_zero (ne_of_not_mem_cons ht).symm
      simp only [strcmp, reduceCtorEq, iff_false]
      omega
  | cons c s ih =>
    cases t with
    | nil =>
      have hc := byte_toNat_ne_zero (ne_of_not_mem_cons hs).symm
      simp only [strcmp, reduceCtorEq, iff_false]
      omega
    | cons d t =>
      have ih := ih (not_mem_of_not_mem_cons hs) (not_mem_of_not_mem_cons ht)
      by_cases h : c = d
      · simp [strcmp, h, ih]
      · have hne : c.toNat ≠ d.toNat := fun hcd => h (BitVec.eq_of_toNat_eq hcd)
        rw [strcmp, if_neg h]
        constructor
        · intro hzero
          omega
        · intro heq
          cases heq
          exact absurd rfl h

theorem tolower_eq_zero {c : Byte} : tolower c = 0 ↔ c = 0 := by
  revert c
  decide

theorem zero_mem_lower {s : List Byte} : 0 ∈ s.map tolower ↔ 0 ∈ s := by
  constructor
  · intro h
    obtain ⟨c, hc, hzero⟩ := mem_map.mp h
    rwa [← tolower_eq_zero.mp hzero]
  · intro h
    exact mem_map.mpr ⟨0, h, rfl⟩

theorem strncasecmp_eq_zero {s t : List Byte} {n : Nat} (hs : 0 ∉ s) (ht : 0 ∉ t.take n) :
    strncasecmp s t n = 0 ↔ (s.take n).map tolower = (t.take n).map tolower := by
  apply strcmp_eq_zero
  · rw [zero_mem_lower]
    exact fun h => hs (mem_of_mem_take h)
  · rw [zero_mem_lower]
    exact ht

theorem foldl_decimal (n : Nat) : (decimal n).foldl (fun v c => 10 * v + ((c.toNat : Int) - 48)) (0 : Int) = n := by
  induction n using Nat.strong_induction_on with
  | _ n ih =>
    unfold decimal
    by_cases h : n = 0
    · subst h
      rfl
    · have hdigit : n % 10 < 10 := Nat.mod_lt _ (by omega)
      have hlt : n / 10 < n := Nat.div_lt_self (by omega) (by omega)
      have ih := ih (n / 10) hlt
      unfold decimal at ih
      rw [Nat.digits_def' (by decide : 1 < 10) (by omega), reverse_cons, map_append, foldl_append, ih]
      simp only [map_cons, map_nil, foldl_cons, foldl_nil, BitVec.toNat_ofNat]
      omega

theorem isdigit_decimal (n : Nat) : ∀ c ∈ decimal n, isdigit c = true := by
  intro c hc
  obtain ⟨d, hd, rfl⟩ := mem_map.mp hc
  have hd := Nat.digits_lt_base (by decide : 1 < 10) (mem_reverse.mp hd)
  simp only [isdigit, BitVec.toNat_ofNat, decide_eq_true_eq]
  omega

theorem strtol_decimal {longMax : Int} {n : Nat} (hn : 0 < n) (hle : n ≤ longMax) {rest : List Byte}
    (hrest : ∀ c ∈ rest.head?, isdigit c = false) : strtol longMax (decimal n ++ rest) = n := by
  obtain ⟨c, s, hc⟩ : ∃ c s, decimal n = c :: s := by
    apply exists_cons_of_ne_nil
    intro hnil
    have hzero := foldl_decimal n
    rw [hnil, foldl_nil] at hzero
    omega
  have hdigit := isdigit_decimal n c (by rw [hc]; exact mem_cons_self)
  have hspace : isspace c = false := by
    simp only [isdigit, isspace, decide_eq_true_eq, decide_eq_false_iff_not] at hdigit ⊢
    omega
  have hsign : c ≠ 45 ∧ c ≠ 43 := by
    constructor
    · rintro rfl
      exact absurd hdigit (by decide)
    · rintro rfl
      exact absurd hdigit (by decide)
  have hskip : (decimal n ++ rest).dropWhile isspace = decimal n ++ rest := by
    rw [hc, cons_append, dropWhile_cons_of_neg (by simp [hspace])]
  have hhead : (decimal n ++ rest).head? = some c := by rw [hc]; rfl
  have htake : (decimal n ++ rest).takeWhile isdigit = decimal n := by
    rw [takeWhile_append_of_pos (isdigit_decimal n)]
    cases rest with
    | nil => simp
    | cons d rest => simp [hrest d rfl]
  unfold strtol
  dsimp only
  have hminus : ¬ (some c = some (45 : Byte)) := fun h => hsign.1 (Option.some.inj h)
  have hplus : ¬ (some c = some (43 : Byte)) := fun h => hsign.2 (Option.some.inj h)
  rw [hskip, hhead, if_neg hminus, if_neg (not_or.mpr ⟨hminus, hplus⟩), htake, foldl_decimal]
  exact min_eq_left hle

end WWindowSystem
