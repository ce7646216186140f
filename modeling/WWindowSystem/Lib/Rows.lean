import Mathlib.Data.List.GetD
import WWindowSystem.Lib.Planes

namespace WWindowSystem

open List

/-- The loop of `w_convertBitmap` and `w_putblock` over the rows; `line` is the memory from the
current source line on. It is `none` also when the pointer gets in front of the memory. -/
def convertRows (conv : Nat → Converter) (src dst : BITMAP) :
    Nat → Nat → List Byte → Option (List (List (Option Byte)))
  | _, 0, _ => some []
  | row, height + 1, line => do
    let (out, n) ← conv row src dst line
    if n < 0 then none
    else
      let rest ← convertRows conv src dst (row + 1) height (line.drop n.toNat)
      some (out :: rest)

def Reads {α : Type} (n : Nat) (p : List Byte → Option (α × List Byte)) : Prop :=
  ∀ s, s.length = n → ∃ a, ∀ rest, p (s ++ rest) = some (a, rest)

theorem split_at (s : List Byte) {m n : Nat} (h : s.length = m + n) :
    ∃ t u, s = t ++ u ∧ t.length = m ∧ u.length = n := by
  refine ⟨s.take m, s.drop m, (take_append_drop m s).symm, ?_, ?_⟩
  · rw [length_take]
    omega
  · rw [length_drop]
    omega

theorem getByte_reads : Reads 1 getByte := by
  intro s hs
  obtain ⟨b, rfl⟩ := length_eq_one_iff.mp hs
  exact ⟨b, fun rest => rfl⟩

theorem grayTruecolor_reads : Reads 3 grayTruecolor := by
  intro s hs
  obtain ⟨r, g, b, rfl⟩ := length_eq_three.mp hs
  exact ⟨_, fun rest => rfl⟩

variable {s : List Byte} (big : Bool)

theorem loadShort_reads (hs : s.length = 2) :
    ∃ x, s = storeShort big x ∧ ∀ rest, loadShort big (s ++ rest) = some (x, rest) := by
  obtain ⟨a, b, rfl⟩ := length_eq_two.mp hs
  have h : loadShort big [a, b] = some (if big then a ++ b else b ++ a, []) := rfl
  have hst := store_loadShort h
  rw [append_nil] at hst
  exact ⟨_, hst, fun rest => rfl⟩

variable {gray : List Byte → Option (Byte × List Byte)}

theorem ditherShort_reads {D : Dither} {u : Nat}
    (hg : Reads u gray) (n mat : Nat) (bit result : BitVec 16) :
    Reads (u * n) (ditherShort D gray n mat bit result) := by
  induction n generalizing mat bit result with
  | zero =>
    intro s hs
    obtain rfl := eq_nil_of_length_eq_zero hs
    exact ⟨result, fun rest => rfl⟩
  | succ n ih =>
    intro s hs
    obtain ⟨t, v, rfl, ht, hv⟩ := split_at s (m := u) (n := u * n) (by rw [hs]; ring)
    obtain ⟨g, hg⟩ := hg t ht
    obtain ⟨x, hx⟩ := ih (mat + 1) (bit >>> 1)
      (if D.Graymap g < D.matrix mat then result ||| bit else result) v hv
    refine ⟨x, fun rest => ?_⟩
    rw [ditherShort, append_assoc, hg]
    exact hx rest

theorem ditherShorts_reads {D : Dither}
    {u : Nat} (hg : Reads u gray) (last n : Nat) (hs : s.length = u * (16 * n + last)) :
    ∃ d, d.length = 2 * (n + 1) ∧ ∀ rest, ditherShorts big D gray last n (s ++ rest) = some d := by
  induction n generalizing s with
  | zero =>
    obtain ⟨x, hx⟩ := ditherShort_reads (D := D) hg last 0 0x8000 0 s (by rw [hs]; ring)
    refine ⟨storeShort big (ntohs big x), length_storeShort big _, fun rest => ?_⟩
    rw [ditherShorts, hx]
    rfl
  | succ n ih =>
    obtain ⟨t, v, rfl, ht, hv⟩ := split_at s (m := u * 16) (n := u * (16 * n + last)) (by rw [hs]; ring)
    obtain ⟨x, hx⟩ := ditherShort_reads (D := D) hg 16 0 0x8000 0 t ht
    obtain ⟨d, hdl, hd⟩ := ih hv
    refine ⟨storeShort big (ntohs big x) ++ d, ?_, fun rest => ?_⟩
    · rw [length_append, length_storeShort, hdl]
      ring
    · rw [ditherShorts, append_assoc, hx]
      change (ditherShorts big D gray last n (v ++ rest)).bind _ = _
      rw [hd]
      rfl

def monoBit (line : List Byte) (x : Nat) : Bool := (line.getD (x / 8) 0).getLsbD (7 - x % 8)

variable {j : Nat}

theorem byte_mask (b : Byte) (hj : j < 8) : decide (b &&& (0x80#8) >>> j ≠ 0) = b.getLsbD (7 - j) := by
  have hm (k : Nat) : ((0x80#8) >>> j).getLsbD k = decide (k = 7 - j) := by
    have h : (0x80#8) = BitVec.twoPow 8 7 := by decide
    rw [h, BitVec.getLsbD_ushiftRight, BitVec.getLsbD_twoPow]
    by_cases hk : k = 7 - j
    · simp [hk, show j + (7 - j) = 7 by omega]
    · simp [hk, show ¬ 7 = j + k by omega]
  rw [Bool.eq_iff_iff, decide_eq_true_iff]
  exact and_ne_zero hm

theorem byte_mask_zero (hj : j < 8) : (0x80#8) >>> j ≠ 0 := by
  interval_cases j <;> decide

theorem monoBit_cons (b : Byte) (s : List Byte) (x : Nat) : monoBit (b :: s) (8 + x) = monoBit s x := by
  rw [monoBit, monoBit, show (8 + x) / 8 = x / 8 + 1 by omega, Nat.add_mod_left, getD_cons_succ]

variable (pixel : Bool → List Byte)

theorem monoLoop_reads (count : Nat) (hj : j ≤ 8) (b : Byte)
    (hs : j + count ≤ 8 * (s.length + 1)) (rest : List Byte) :
    monoLoop pixel count b ((0x80#8) >>> j) (s ++ rest) =
      some ((List.range count).flatMap fun i => pixel (monoBit (b :: s) (j + i))) := by
  induction count generalizing j b s with
  | zero => rfl
  | succ count ih =>
    rw [range_succ_eq_map, flatMap_cons, flatMap_map]
    by_cases hj8 : j = 8
    · -- The next byte is fetched.
      subst hj8
      cases s with
      | nil =>
        rw [length_nil] at hs
        omega
      | cons b' s =>
        rw [length_cons] at hs
        have hstep := ih (j := 1) (by omega) b' (s := s) (by omega)
        have hz : (0x80#8) >>> 8 = 0 := by decide
        rw [monoLoop, if_pos hz]
        change ((monoLoop pixel count b' ((0x80#8) >>> 1) (s ++ rest)).bind fun r =>
          some (pixel (decide (b' &&& (0x80#8) >>> 0 ≠ 0)) ++ r)) = _
        rw [hstep, Option.bind_some, byte_mask b' (by omega), monoBit_cons]
        congr 2
        apply flatMap_congr
        intro i _
        rw [monoBit_cons, Nat.add_comm 1 i]
    · have hstep := ih (j := j + 1) (by omega) b (s := s) (by omega)
      rw [monoLoop, if_neg (byte_mask_zero (by omega))]
      change ((monoLoop pixel count b ((0x80#8) >>> j >>> 1) (s ++ rest)).bind fun r =>
        some (pixel (decide (b &&& (0x80#8) >>> j ≠ 0)) ++ r)) = _
      rw [← BitVec.shiftRight_add, hstep, Option.bind_some, byte_mask b (by omega)]
      have hbit : monoBit (b :: s) (j + 0) = b.getLsbD (7 - j) := by
        rw [monoBit, Nat.add_zero, Nat.div_eq_of_lt (by omega), Nat.mod_eq_of_lt (by omega)]
        rfl
      rw [hbit]
      congr 2
      apply flatMap_congr
      intro i _
      rw [Nat.add_assoc, Nat.add_comm 1 i]

theorem mono2_reads {src dst : BITMAP}
    (hw : 0 < s.length) (hs : dst.width ≤ 8 * s.length) (rest : List Byte) : mono2 pixel src dst (s ++ rest) =
      some (((List.range dst.width).flatMap fun x => pixel (monoBit s x)).map some, src.linesize) := by
  cases s with
  | nil =>
    rw [length_nil] at hw
    omega
  | cons b s =>
    rw [length_cons] at hs
    have h := monoLoop_reads pixel dst.width (j := 0) (by omega) b (s := s) (by omega) rest
    have hz : (0x80#8) >>> 0 = 0x80#8 := by decide
    rw [hz] at h
    simp only [Nat.zero_add] at h
    change (monoLoop pixel dst.width b (0x80#8) (s ++ rest)).bind _ = _
    rw [h]
    rfl

/-- The bit of a line of `PACKEDCOLOR` for a pixel and a plane: the planes of 16 pixels follow each
other as shorts. -/
def planeBit (planes : Nat) (line : List Byte) (x p : Nat) : Bool :=
  (line.getD (2 * (x / 16 * planes + p) + x % 16 / 8) 0).getLsbD (7 - x % 8)

variable {t : List Byte}

theorem monoBit_left (ht : t.length = 2) (v : List Byte) {x : Nat} (hx : x < 16) :
    monoBit (t ++ v) x = monoBit t x := by
  rw [monoBit, monoBit, getD_append _ _ _ _ (by omega)]

theorem monoBit_right (ht : t.length = 2) (v : List Byte) (x : Nat) :
    monoBit (t ++ v) (16 + x) = monoBit v x := by
  rw [monoBit, monoBit, getD_append_right _ _ _ _ (by omega)]
  congr 2 <;> omega

variable {planes : Nat}

theorem planeBit_left (ht : t.length = 2 * planes) (v : List Byte)
    {x p : Nat} (hx : x < 16) (hp : p < planes) : planeBit planes (t ++ v) x p = planeBit planes t x p := by
  rw [planeBit, planeBit, Nat.div_eq_of_lt hx, Nat.zero_mul, getD_append _ _ _ _ (by omega)]

theorem planeBit_right (ht : t.length = 2 * planes) (v : List Byte)
    (x p : Nat) : planeBit planes (t ++ v) (16 + x) p = planeBit planes v x p := by
  have hi : 2 * ((16 + x) / 16 * planes + p) + (16 + x) % 16 / 8 =
      2 * planes + (2 * (x / 16 * planes + p) + x % 16 / 8) := by
    rw [show (16 + x) / 16 = x / 16 + 1 by omega, Nat.add_mod_left, Nat.add_mul]
    ring
  rw [planeBit, planeBit, hi, getD_append_right _ _ _ _ (by omega), ht, Nat.add_sub_cancel_left]
  congr 1
  omega

theorem planeBit_first {x p : Nat} (hx : x < 16) :
    planeBit planes t x p = (t.getD (2 * p + x / 8) 0).getLsbD (7 - x % 8) := by
  rw [planeBit, Nat.div_eq_of_lt hx, Nat.zero_mul, Nat.zero_add, Nat.mod_eq_of_lt hx]

theorem zero_planes (n : Nat) :
    (List.replicate n (storeShort big 0)).flatten = List.replicate (n * 2) 0 := by
  have h : storeShort big 0 = List.replicate 2 0 := by cases big <;> rfl
  rw [h, flatten_replicate_replicate]

theorem mono2packedLoop_reads (hp : 0 < planes) (count : Nat)
    (hs : s.length = 2 * count) : ∃ d, d.length = 2 * planes * count ∧
      (∀ x < 16 * count, ∀ p < planes, planeBit planes d x p = (decide (p = 0) && monoBit s x)) ∧
      ∀ rest, mono2packedLoop big planes count (s ++ rest) = some d := by
  induction count generalizing s with
  | zero =>
    refine ⟨[], rfl, fun x hx => ?_, fun rest => rfl⟩
    omega
  | succ count ih =>
    obtain ⟨t, v, rfl, ht, hv⟩ := split_at s (m := 2) (n := 2 * count) (by omega)
    obtain ⟨w, hw, hload⟩ := loadShort_reads big ht
    obtain ⟨d, hdl, hbits, hd⟩ := ih hv
    generalize hz : List.replicate ((planes - 1) * 2) (0 : Byte) = z
    have hzl : z.length = (planes - 1) * 2 := by rw [← hz, length_replicate]
    have htz : (t ++ z).length = 2 * planes := by
      rw [length_append]
      omega
    refine ⟨t ++ z ++ d, ?_, fun x hx p hpl => ?_, fun rest => ?_⟩
    · rw [length_append, htz, hdl]
      ring
    · by_cases hx16 : x < 16
      · rw [planeBit_left htz _ hx16 hpl, planeBit_first hx16, monoBit_left ht _ hx16]
        by_cases hp0 : p = 0
        · subst hp0
          rw [Nat.mul_zero, Nat.zero_add, getD_append _ _ _ _ (by omega)]
          simp [monoBit]
        · rw [getD_append_right _ _ _ _ (by omega), ← hz, getD_replicate _ (by omega)]
          simp [hp0]
      · obtain ⟨y, rfl⟩ := Nat.exists_eq_add_of_le (Nat.le_of_not_lt hx16)
        rw [planeBit_right htz, monoBit_right ht, hbits y (by omega) p hpl]
    · rw [mono2packedLoop, append_assoc, hload]
      change (mono2packedLoop big planes count (v ++ rest)).bind _ = _
      rw [hd, Option.bind_some, zero_planes, hz, ← hw]

theorem mono2packed_reads (src : BITMAP) {dst : BITMAP} (hp : 0 < dst.planes)
    (hs : 2 * ((dst.width + 15) / 16) ≤ s.length) : ∃ d, d.length = 2 * dst.planes * ((dst.width + 15) / 16) ∧
      (∀ x < dst.width, ∀ p < dst.planes, planeBit dst.planes d x p = (decide (p = 0) && monoBit s x)) ∧
      ∀ rest, mono2packed big src dst (s ++ rest) = some (d.map some, src.linesize) := by
  obtain ⟨t, v, rfl, ht, -⟩ := split_at s (m := 2 * ((dst.width + 15) / 16))
    (n := s.length - 2 * ((dst.width + 15) / 16)) (by omega)
  obtain ⟨d, hdl, hbits, hd⟩ := mono2packedLoop_reads big hp _ ht
  refine ⟨d, hdl, fun x hx p hpl => ?_, fun rest => ?_⟩
  · rw [hbits x (by omega) p hpl, monoBit, monoBit, getD_append _ _ _ _ (by omega)]
  · rw [mono2packed, append_assoc, hd]
    rfl

theorem monoBit_or (a b : BitVec 16) {x : Nat} (hx : x < 16) :
    monoBit (storeShort big (a ||| b)) x = (monoBit (storeShort big a) x || monoBit (storeShort big b) x) := by
  have h : x / 8 = 0 ∨ x / 8 = 1 := by omega
  cases big <;> obtain h | h := h <;>
    simp [monoBit, storeShort, h, BitVec.getLsbD_extractLsb', BitVec.getLsbD_or, Bool.and_or_distrib_left]

theorem orPlanes_reads (n : Nat) (d : BitVec 16) (hs : s.length = 2 * n) :
    ∃ r, (∀ x < 16, monoBit (storeShort big r) x = true ↔ monoBit (storeShort big d) x = true ∨
        ∃ p < n, (s.getD (2 * p + x / 8) 0).getLsbD (7 - x % 8) = true) ∧
      ∀ rest, orPlanes big n d (s ++ rest) = some (r, rest) := by
  induction n generalizing d s with
  | zero =>
    obtain rfl := eq_nil_of_length_eq_zero hs
    exact ⟨d, by simp, fun rest => rfl⟩
  | succ n ih =>
    obtain ⟨t, v, rfl, ht, hv⟩ := split_at s (m := 2) (n := 2 * n) (by omega)
    obtain ⟨w, hw, hload⟩ := loadShort_reads big ht
    obtain ⟨r, hbits, hr⟩ := ih (d ||| w) hv
    refine ⟨r, fun x hx => ?_, fun rest => ?_⟩
    · have hfirst : ((t ++ v).getD (2 * 0 + x / 8) 0).getLsbD (7 - x % 8) = monoBit t x := by
        rw [Nat.mul_zero, Nat.zero_add, getD_append _ _ _ _ (by omega), monoBit]
      have hnext (p : Nat) : (t ++ v).getD (2 * (p + 1) + x / 8) 0 = v.getD (2 * p + x / 8) 0 := by
        rw [getD_append_right _ _ _ _ (by omega)]
        congr 1
        omega
      rw [hbits x hx, monoBit_or big d w hx, ← hw, Bool.or_eq_true, or_assoc]
      apply or_congr Iff.rfl
      constructor
      · rintro (h | ⟨p, hp, h⟩)
        · exact ⟨0, by omega, by rwa [hfirst]⟩
        · exact ⟨p + 1, by omega, by rwa [hnext]⟩
      · rintro ⟨p, hp, h⟩
        cases p with
        | zero => exact Or.inl (by rwa [hfirst] at h)
        | succ p => exact Or.inr ⟨p, by omega, by rwa [hnext] at h⟩
    · rw [orPlanes, append_assoc, hload]
      exact hr rest

theorem packed2monoLine_reads (hp : 0 < planes) (count : Nat)
    (hs : s.length = 2 * planes * count) : ∃ d, d.length = 2 * count ∧
      (∀ x < 16 * count, monoBit d x = true ↔ ∃ p < planes, planeBit planes s x p = true) ∧
      ∀ rest, packed2monoLine big planes count (s ++ rest) = some (d, rest) := by
  induction count generalizing s with
  | zero =>
    obtain rfl := eq_nil_of_length_eq_zero hs
    refine ⟨[], rfl, fun x hx => ?_, fun rest => rfl⟩
    omega
  | succ count ih =>
    obtain ⟨t, v, rfl, ht, hv⟩ := split_at s (m := 2 * planes) (n := 2 * planes * count)
      (by rw [hs]; ring)
    obtain ⟨t1, t2, rfl, ht1, ht2⟩ := split_at t (m := 2) (n := 2 * (planes - 1)) (by omega)
    obtain ⟨w, hw, hload⟩ := loadShort_reads big ht1
    obtain ⟨r, hrbits, hr⟩ := orPlanes_reads big (planes - 1) w ht2
    obtain ⟨d, hdl, hbits, hd⟩ := ih hv
    refine ⟨storeShort big r ++ d, ?_, fun x hx => ?_, fun rest => ?_⟩
    · rw [length_append, length_storeShort, hdl]
      ring
    · by_cases hx16 : x < 16
      · rw [monoBit_left (length_storeShort big r) _ hx16, hrbits x hx16, ← hw]
        have hfirst : planeBit planes ((t1 ++ t2) ++ v) x 0 = monoBit t1 x := by
          rw [planeBit_left ht _ hx16 hp, planeBit_first hx16, Nat.mul_zero, Nat.zero_add,
            getD_append _ _ _ _ (by omega), monoBit]
        have hnext (p : Nat) (hpl : p + 1 < planes) : planeBit planes ((t1 ++ t2) ++ v) x (p + 1) =
            (t2.getD (2 * p + x / 8) 0).getLsbD (7 - x % 8) := by
          rw [planeBit_left ht _ hx16 hpl, planeBit_first hx16,
            getD_append_right _ _ _ _ (by omega)]
          congr 2
          omega
        constructor
        · rintro (h | ⟨p, hpl, h⟩)
          · exact ⟨0, hp, by rwa [hfirst]⟩
          · exact ⟨p + 1, by omega, by rwa [hnext p (by omega)]⟩
        · rintro ⟨p, hpl, h⟩
          cases p with
          | zero => exact Or.inl (by rwa [hfirst] at h)
          | succ p => exact Or.inr ⟨p, by omega, by rwa [hnext p hpl] at h⟩
      · obtain ⟨y, rfl⟩ := Nat.exists_eq_add_of_le (Nat.le_of_not_lt hx16)
        rw [monoBit_right (length_storeShort big r), hbits y (by omega)]
        simp only [planeBit_right ht]
    · rw [packed2monoLine, append_assoc, append_assoc, hload]
      change ((orPlanes big (planes - 1) w (t2 ++ (v ++ rest))).bind _) = _
      rw [hr]
      change ((packed2monoLine big planes count (v ++ rest)).bind _) = _
      rw [hd]
      rfl

theorem direct2truecolorLoop_reads (color : Byte → Rgb) (count : Nat)
    (hs : count ≤ s.length) (rest : List Byte) :
    direct2truecolorLoop color count (s ++ rest) = some ((s.take count).flatMap fun v =>
      [(color v).red, (color v).green, (color v).blue]) := by
  induction count generalizing s with
  | zero => rfl
  | succ count ih =>
    cases s with
    | nil =>
      rw [length_nil] at hs
      omega
    | cons v s =>
      rw [length_cons] at hs
      change (direct2truecolorLoop color count (s ++ rest)).bind _ = _
      rw [ih (by omega)]
      rfl

theorem flush_of_length (n : Nat) (hs : s.length = 4 * n) :
    ∃ d, d.length = n ∧ s = flushPlanes big d := by
  induction n generalizing s with
  | zero => exact ⟨[], rfl, eq_nil_of_length_eq_zero hs⟩
  | succ n ih =>
    obtain ⟨t, v, rfl, ht, hv⟩ := split_at s (m := 4) (n := 4 * n) (by omega)
    obtain ⟨d, hdl, rfl⟩ := ih hv
    obtain ⟨x, hx⟩ : ∃ x, loadLong big t = some (x, []) := by
      match t, ht with
      | [_, _, _, _], _ => exact ⟨_, rfl⟩
    have hst := store_loadLong hx
    rw [append_nil] at hst
    refine ⟨ntohl big x :: d, by rw [length_cons, hdl], ?_⟩
    change t ++ flushPlanes big d = storeLong big (ntohl big (ntohl big x)) ++ flushPlanes big d
    rw [ntohl_ntohl, ← hst]

theorem packeddirectLoop_reads (masks : List (Byte × Byte)) (width : Nat)
    (hs : s.length = 4 * masks.length * ((width + 15) / 16)) : ∃ d, d.length = width ∧
      ∀ himask e rest, packeddirectLoop big masks width himask 0 e (s ++ rest) = some d := by
  induction width using Nat.strong_induction_on generalizing s with
  | _ width ih =>
    by_cases h0 : width = 0
    · subst h0
      exact ⟨[], rfl, fun _ _ _ => rfl⟩
    obtain ⟨n, hn, hnw⟩ : ∃ n, n + 1 = min width 16 ∧ n < 16 := ⟨min width 16 - 1, by omega, by omega⟩
    have hgroups : (width + 15) / 16 = 1 + (width - (n + 1) + 15) / 16 := by omega
    obtain ⟨t, v, rfl, ht, hv⟩ := split_at s (m := 4 * masks.length)
      (n := 4 * masks.length * ((width - (n + 1) + 15) / 16)) (by rw [hs, hgroups]; ring)
    obtain ⟨d, hdl, rfl⟩ := flush_of_length big masks.length ht
    obtain ⟨r, hrl, hr⟩ := ih (width - (n + 1)) (by omega) hv
    refine ⟨(List.range (n + 1)).map (fun i => byteOf masks (groupBits d i)) ++ r, ?_,
      fun himask e rest => ?_⟩
    · rw [length_append, length_map, length_range, hrl]
      omega
    · have hgrp := packeddirectLoop_group big hdl (v ++ rest) (width - (n + 1)) hnw himask e
      rw [show n + 1 + (width - (n + 1)) = width by omega] at hgrp
      rw [append_assoc]
      refine hgrp.trans ?_
      by_cases h16 : width ≤ 16
      · -- The last group.
        have hz : width - (n + 1) = 0 := by omega
        rw [hz] at hrl ⊢
        obtain rfl := eq_nil_of_length_eq_zero hrl
        rfl
      · have h15 : n = 15 := by omega
        subst h15
        have hz : (0x8000#32) >>> (15 + 1) = 0 := by decide
        rw [hz, hr]
        rfl

def Headed (planes : Nat) (bm : BITMAP) : Prop :=
  match bm.type with
  | .packedmono => bm.upl = short ((bm.width + 31) / 32) ∧ bm.unitsize = 4
  | .packedcolor => bm.planes = planes ∧
      bm.upl = short ((bm.width + 15) / 16 * 16 * planes / 16) ∧ bm.unitsize = 2
  | .direct8 => bm.upl = short ((bm.width + 3) / 4 * 4) ∧ bm.unitsize = 1
  | .direct24 => bm.upl = short bm.width ∧ bm.unitsize = 3
  | .packedcolormono => False

theorem headed {bm head : BITMAP} (h : w_bmheader planes bm = some head) :
    Headed planes head ∧ head.width = bm.width ∧ head.height = bm.height := by
  cases ht : bm.type <;> simp only [w_bmheader, ht] at h <;> cases h <;>
    simp [Headed, M_UNIT]

def lineBytes (planes width : Nat) : BitmapType → Nat
  | .packedmono => 4 * ((width + 31) / 32)
  | .packedcolor => 2 * ((width + 15) / 16 * planes)
  | .direct8 => (width + 3) / 4 * 4
  | .direct24 => 3 * width
  | .packedcolormono => 0

theorem short_nonneg {n : Nat} (hn : n < 65536) (h : 0 ≤ short n) : short n = n := by
  rw [short] at h ⊢
  omega

theorem linesize_neg {bm : BITMAP} (hb : Headed planes bm) : bm.linesize < 0 ↔ bm.upl < 0 := by
  rw [BITMAP.linesize]
  cases ht : bm.type <;> simp only [Headed, ht] at hb
  · rw [hb.2]
    omega
  · rw [hb.2]
    omega
  · rw [hb.2.2]
    omega
  · rw [hb.2]
    omega

theorem linesize_eq {bm : BITMAP} (hb : Headed planes bm) (hw : bm.width < 32768)
    (hp : planes < 32) (h0 : 0 ≤ bm.upl) : bm.linesize = lineBytes planes bm.width bm.type := by
  rw [BITMAP.linesize]
  cases ht : bm.type <;> simp only [Headed, ht] at hb
  · rw [hb.2, hb.1, short_of_range (by omega) (by omega), lineBytes]
    push_cast
    rfl
  · obtain ⟨hu, hs⟩ := hb
    rw [hu] at h0
    have h := short_nonneg (n := (bm.width + 3) / 4 * 4) (by omega) (by push_cast; exact h0)
    push_cast at h
    rw [hs, hu, h, lineBytes]
    push_cast
    omega
  · obtain ⟨-, hu, hs⟩ := hb
    have hb : (bm.width + 15) / 16 * planes ≤ 2048 * 31 := Nat.mul_le_mul (by omega) (by omega)
    have hz : (bm.width + 15) / 16 * 16 * planes / 16 = (bm.width + 15) / 16 * planes := by
      rw [Nat.mul_right_comm, Nat.mul_div_cancel _ (by decide)]
    rw [hu] at h0
    have h := short_nonneg (n := (bm.width + 15) / 16 * 16 * planes / 16) (by omega)
      (by push_cast; exact h0)
    rw [hz] at h
    have hz' : ((bm.width : Int) + 15) / 16 * 16 * planes / 16 = ((bm.width + 15) / 16 * planes : Nat) := by
      rw [← hz]
      push_cast
      rfl
    rw [hs, hu, hz', h, lineBytes]
    push_cast
    rfl
  · rw [hb.2, hb.1, short_of_range (by omega) (by omega), lineBytes]
    push_cast
    rfl

end WWindowSystem
