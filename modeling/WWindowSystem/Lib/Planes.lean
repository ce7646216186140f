import Mathlib.Tactic.Ring
import WWindowSystem.Lib.Convert

namespace WWindowSystem

open List

theorem hi_bit (i j : Nat) : ((0x80000000#32) >>> j).getLsbD i = decide (i + j = 31) := by
  have h : (0x80000000#32) = BitVec.twoPow 32 31 := by decide
  rw [h, BitVec.getLsbD_ushiftRight, BitVec.getLsbD_twoPow, Nat.add_comm]
  by_cases hij : i + j = 31 <;> simp [hij, eq_comm]

theorem lo_bit (i j : Nat) : ((0x8000#32) >>> j).getLsbD i = decide (i + j = 15) := by
  have h : (0x8000#32) = BitVec.twoPow 32 15 := by decide
  rw [h, BitVec.getLsbD_ushiftRight, BitVec.getLsbD_twoPow, Nat.add_comm]
  by_cases hij : i + j = 15 <;> simp [hij, eq_comm]

variable {i : Nat}

theorem and_ne_zero {w : Nat} {d m : BitVec w} (hm : ∀ k, m.getLsbD k = decide (k = i)) :
    d &&& m ≠ 0 ↔ d.getLsbD i = true := by
  constructor
  · intro h
    by_contra hd
    apply h
    apply BitVec.eq_of_getLsbD_eq
    intro k _
    rw [BitVec.getLsbD_and, hm]
    by_cases hk : k = i
    · simpa [hk] using hd
    · simp [hk]
  · intro h he
    have := congrArg (fun x => x.getLsbD i) he
    simp [hm, h] at this

variable {j : Nat}

theorem and_hi {d : BitVec 32} (hj : j < 16) :
    d &&& (0x80000000#32) >>> j ≠ 0 ↔ d.getLsbD (31 - j) = true := by
  apply and_ne_zero
  intro k
  rw [hi_bit]
  congr 1
  rw [eq_iff_iff]
  omega

theorem and_lo {d : BitVec 32} (hj : j < 16) : d &&& (0x8000#32) >>> j ≠ 0 ↔ d.getLsbD (15 - j) = true := by
  apply and_ne_zero
  intro k
  rw [lo_bit]
  congr 1
  rw [eq_iff_iff]
  omega

theorem lo_zero (hj : j ≤ 16) : (0x8000#32) >>> j = 0 ↔ j = 16 := by
  interval_cases j <;> decide

theorem lo_start (hj : j < 16) : (0x8000#32) >>> j = 0x8000#32 ↔ j = 0 := by
  interval_cases j <;> decide

def bitsOf (masks : List (Byte × Byte)) (p : Byte) : List (Bool × Bool) :=
  masks.map fun m => (decide (p &&& m.1 ≠ 0), decide (p &&& m.2 ≠ 0))

def byteOf (masks : List (Byte × Byte)) (b : List (Bool × Bool)) : Byte :=
  (List.zipWith (fun (m : Byte × Byte) (b : Bool × Bool) =>
    (if b.1 then m.1 else 0) ||| (if b.2 then m.2 else 0)) masks b).foldr (· ||| ·) 0

def groupBits (d : List (BitVec 32)) (j : Nat) : List (Bool × Bool) :=
  d.map fun d => (d.getLsbD (31 - j), d.getLsbD (15 - j))

theorem pixelOf_eq (masks : List (Byte × Byte)) (d : List (BitVec 32)) (hj : j < 16) :
    pixelOf masks ((0x80000000#32) >>> j) ((0x8000#32) >>> j) d = byteOf masks (groupBits d j) := by
  rw [pixelOf, byteOf, groupBits, zipWith_map_right]
  simp only [and_hi hj, and_lo hj]

variable {masks : List (Byte × Byte)} {d : List (BitVec 32)}

theorem length_addPixel {lo hi : BitVec 32} {p : Byte}
    (hd : d.length = masks.length) : (addPixel masks lo hi p d).length = masks.length := by
  rw [addPixel, length_zipWith, hd, Nat.min_self]

def collect (masks : List (Byte × Byte)) : Nat → List (BitVec 32) → List Byte → List (BitVec 32)
  | _, d, [] => d
  | j, d, p :: g =>
    collect masks (j + 1) (addPixel masks ((0x80000000#32) >>> j) ((0x8000#32) >>> j) p d) g

variable {g : List Byte}

theorem length_collect
    (hd : d.length = masks.length) : (collect masks j d g).length = masks.length := by
  induction g generalizing j d with
  | nil => exact hd
  | cons p g ih => exact ih (length_addPixel hd)

def orBits (a b : List (Bool × Bool)) : List (Bool × Bool) :=
  List.zipWith (fun a b => (a.1 || b.1, a.2 || b.2)) a b

theorem addBits {d : BitVec 32} {s t : Bool} {i j : Nat} (hi : i < 16) (hj : j < 16) :
    let d1 := if s then d ||| (0x80000000#32) >>> j else d
    let d2 := if t then d1 ||| (0x8000#32) >>> j else d1
    (d2.getLsbD (31 - i), d2.getLsbD (15 - i)) =
      if i = j then (d.getLsbD (31 - i) || s, d.getLsbD (15 - i) || t)
      else (d.getLsbD (31 - i), d.getLsbD (15 - i)) := by
  have h1 : (31 - i + j = 31) = (i = j) := propext (by omega)
  have h2 : (31 - i + j = 15) = False := eq_false (by omega)
  have h3 : (15 - i + j = 31) = False := eq_false (by omega)
  have h4 : (15 - i + j = 15) = (i = j) := propext (by omega)
  cases s <;> cases t <;>
    simp only [Bool.false_eq_true, if_false, if_true, BitVec.getLsbD_or, hi_bit, lo_bit, h1, h2, h3,
      h4, decide_false, Bool.or_false, Bool.or_true] <;>
    split_ifs with he <;> simp [he]

theorem groupBits_addPixel {p : Byte}
    (hd : d.length = masks.length) {j i : Nat} (hj : j < 16) (hi : i < 16) :
    groupBits (addPixel masks ((0x80000000#32) >>> j) ((0x8000#32) >>> j) p d) i =
      if i = j then orBits (groupBits d i) (bitsOf masks p) else groupBits d i := by
  induction masks generalizing d with
  | nil =>
    obtain rfl := length_eq_zero_iff.mp hd
    split_ifs <;> rfl
  | cons m masks ih =>
    cases d with
    | nil => cases hd
    | cons x d =>
      have hx := addBits (d := x) (s := decide (p &&& m.1 ≠ 0)) (t := decide (p &&& m.2 ≠ 0)) hi hj
      have hrest := ih (Nat.succ.inj hd)
      simp only [decide_eq_true_eq] at hx
      simp only [addPixel, groupBits, zipWith_cons_cons, map_cons] at hrest ⊢
      rw [hx, hrest]
      split_ifs <;> rfl

theorem groupBits_collect {j i : Nat}
    (hd : d.length = masks.length) (hg : j + g.length ≤ 16) (hi : i < 16) :
    groupBits (collect masks j d g) i =
      if j ≤ i ∧ i - j < g.length then orBits (groupBits d i) (bitsOf masks (g.getD (i - j) 0)) else groupBits d i := by
  induction g generalizing j d with
  | nil => rw [collect, if_neg (by simp)]
  | cons p g ih =>
    rw [length_cons] at hg ⊢
    rw [collect, ih (length_addPixel hd) (by omega), groupBits_addPixel hd (by omega) hi]
    by_cases he : i = j
    · rw [if_neg (by omega), if_pos he, if_pos (by omega), he, Nat.sub_self, getD_cons_zero]
    · rw [if_neg he]
      by_cases hlt : j + 1 ≤ i ∧ i - (j + 1) < g.length
      · have hs : i - j = i - (j + 1) + 1 := by omega
        rw [if_pos hlt, if_pos (by omega), hs, getD_cons_succ]
      · rw [if_neg hlt, if_neg (by omega)]

theorem orBits_false {m : Nat} {b : List (Bool × Bool)} (hb : b.length = m) :
    orBits (List.replicate m (false, false)) b = b := by
  subst hb
  induction b with
  | nil => rfl
  | cons x b ih =>
    rw [orBits] at ih
    rw [orBits, length_cons, replicate_succ, zipWith_cons_cons, ih]
    rfl

theorem groupBits_zero (masks : List (Byte × Byte)) (i : Nat) :
    groupBits (masks.map fun _ => 0) i = List.replicate masks.length (false, false) := by
  simp [groupBits, map_const']

theorem length_bitsOf (masks : List (Byte × Byte)) (p : Byte) : (bitsOf masks p).length = masks.length :=
  length_map _

theorem groupBits_group (hg : g.length ≤ 16) (hi : i < 16) :
    groupBits (collect masks 0 (masks.map fun _ => 0) g) i = if i < g.length then bitsOf masks (g.getD i 0)
      else List.replicate masks.length (false, false) := by
  rw [groupBits_collect (length_map _) (by omega) hi, groupBits_zero]
  by_cases h : i < g.length
  · rw [if_pos ⟨Nat.zero_le _, by omega⟩, if_pos h, orBits_false (length_bitsOf _ _), Nat.sub_zero]
  · rw [if_neg (by omega), if_neg h]

variable (big : Bool)

theorem directpackedLoop_part (masks : List (Byte × Byte)) {j n : Nat}
    (d : List (BitVec 32)) (s : List Byte) (hg : j + g.length < 16) :
    directpackedLoop big masks (g.length + n) ((0x80000000#32) >>> j) ((0x8000#32) >>> j) d (g ++ s) =
      directpackedLoop big masks n ((0x80000000#32) >>> (j + g.length))
        ((0x8000#32) >>> (j + g.length)) (collect masks j d g) s := by
  induction g generalizing j d with
  | nil =>
    rw [length_nil, Nat.zero_add]
    rfl
  | cons p g ih =>
    rw [length_cons] at hg ⊢
    have hlo : (0x8000#32) >>> (j + 1) ≠ 0 := fun h => by
      have := (lo_zero (by omega)).mp h
      omega
    rw [Nat.add_right_comm, directpackedLoop]
    simp only [cons_append, getByte, Option.bind_eq_bind, Option.bind_some,
      ← BitVec.shiftRight_add, hlo, if_false]
    rw [ih _ (by omega), collect, Nat.add_right_comm, Nat.add_assoc]

theorem collect_append (masks : List (Byte × Byte)) (j : Nat) (d : List (BitVec 32)) (g h : List Byte) :
    collect masks j d (g ++ h) = collect masks (j + g.length) (collect masks j d g) h := by
  induction g generalizing j d with
  | nil => rfl
  | cons p g ih =>
    rw [cons_append, collect, collect, ih, length_cons, Nat.add_right_comm, Nat.add_assoc]

theorem directpackedLoop_full (masks : List (Byte × Byte))
    (hg : g.length = 16) (n : Nat) (s : List Byte) :
    directpackedLoop big masks (g.length + n) 0x80000000 0x8000 (masks.map fun _ => 0) (g ++ s) =
      (directpackedLoop big masks n 0x80000000 0x8000 (masks.map fun _ => 0) s).map fun rest =>
        flushPlanes big (collect masks 0 (masks.map fun _ => 0) g) ++ rest := by
  obtain ⟨g, p, rfl⟩ : ∃ h p, g = h ++ [p] := by
    rcases eq_nil_or_concat g with rfl | ⟨h, p, rfl⟩
    · cases hg
    · exact ⟨h, p, concat_eq_append⟩
  rw [length_append, length_singleton] at hg
  have h15 : g.length = 15 := by omega
  have hpart := directpackedLoop_part big masks (j := 0) (n := n + 1) (masks.map fun _ => 0) (p :: s)
    (g := g) (by omega)
  rw [collect_append, append_assoc, length_append, length_singleton, Nat.add_assoc,
    Nat.add_comm 1 n, singleton_append]
  refine hpart.trans ?_
  rw [h15, directpackedLoop]
  simp only [getByte, Option.bind_eq_bind, Option.bind_some, ← BitVec.shiftRight_add]
  rw [if_pos (by decide), collect, collect]
  cases directpackedLoop big masks n 0x80000000 0x8000 (masks.map fun _ => 0) s <;> rfl

theorem fetch_flush (d : List (BitVec 32)) (s : List Byte) :
    fetchPlanes big d.length (flushPlanes big d ++ s) = some (d, s) := by
  induction d with
  | nil => rfl
  | cons x d ih =>
    rw [flushPlanes] at ih
    rw [flushPlanes, flatMap_cons, append_assoc, length_cons, fetchPlanes,
      load_storeLong]
    simp only [Option.bind_eq_bind, Option.bind_some, ih, ntohl_ntohl]

theorem length_flush (d : List (BitVec 32)) : (flushPlanes big d).length = 4 * d.length := by
  induction d with
  | nil => rfl
  | cons x d ih =>
    rw [flushPlanes] at ih
    rw [flushPlanes, flatMap_cons, length_append, ih, length_storeLong, length_cons]
    omega

theorem packeddirectLoop_part (masks : List (Byte × Byte)) (d : List (BitVec 32))
    (s : List Byte) {j n : Nat} (c : Nat) (hj : j + n ≤ 16) :
    packeddirectLoop big masks (n + c) ((0x80000000#32) >>> j) ((0x8000#32) >>> j) d s =
      (packeddirectLoop big masks c ((0x80000000#32) >>> (j + n)) ((0x8000#32) >>> (j + n)) d s).map
        fun rest => (List.range' j n).map (fun i => byteOf masks (groupBits d i)) ++ rest := by
  induction n generalizing j with
  | zero =>
    rw [Nat.zero_add, Nat.add_zero]
    cases packeddirectLoop big masks c ((0x80000000#32) >>> j) ((0x8000#32) >>> j) d s <;> rfl
  | succ n ih =>
    have hlo : (0x8000#32) >>> j ≠ 0 := fun h => by
      have := (lo_zero (by omega)).mp h
      omega
    rw [Nat.add_right_comm, packeddirectLoop, if_neg hlo]
    simp only [Option.bind_eq_bind, Option.bind_some]
    rw [← BitVec.shiftRight_add, ← BitVec.shiftRight_add, ih (by omega), pixelOf_eq masks d (by omega),
      show j + 1 + n = j + (n + 1) by omega, range'_succ, map_cons]
    cases packeddirectLoop big masks c ((0x80000000#32) >>> (j + (n + 1)))
      ((0x8000#32) >>> (j + (n + 1))) d s <;> rfl

theorem packeddirectLoop_group
    (hd : d.length = masks.length) (s : List Byte) {n : Nat} (c : Nat) (hn : n < 16)
    (himask : BitVec 32) (e : List (BitVec 32)) :
    packeddirectLoop big masks (n + 1 + c) himask 0 e (flushPlanes big d ++ s) =
      (packeddirectLoop big masks c ((0x80000000#32) >>> (n + 1)) ((0x8000#32) >>> (n + 1)) d s).map
        fun rest => (List.range (n + 1)).map (fun i => byteOf masks (groupBits d i)) ++ rest := by
  rw [Nat.add_right_comm, packeddirectLoop, if_pos rfl, ← hd, fetch_flush]
  simp only [Option.map_some, Option.bind_eq_bind, Option.bind_some]
  rw [packeddirectLoop_part big masks d s (j := 1) c (by omega), Nat.add_comm 1 n]
  have h0 := pixelOf_eq masks d (j := 0) (by decide)
  rw [BitVec.ushiftRight_zero, BitVec.ushiftRight_zero] at h0
  rw [h0, range_eq_range', range'_succ, map_cons]
  cases packeddirectLoop big masks c ((0x80000000#32) >>> (n + 1)) ((0x8000#32) >>> (n + 1)) d s <;>
    rfl

theorem range_group (masks umasks : List (Byte × Byte)) (hg : g.length ≤ 16) :
    (List.range g.length).map (fun i =>
      byteOf umasks (groupBits (collect masks 0 (masks.map fun _ => 0) g) i)) =
      g.map fun p => byteOf umasks (bitsOf masks p) := by
  apply ext_getElem
  · rw [length_map, length_range, length_map]
  · intro i hi hi'
    rw [length_map, length_range] at hi
    rw [getElem_map, getElem_range, getElem_map, groupBits_group hg (by omega),
      if_pos hi, getD_eq_getElem?_getD, getElem?_eq_getElem hi, Option.getD_some]

theorem direct_round {masks umasks : List (Byte × Byte)}
    (hm : masks.length = umasks.length) (px : List Byte) :
    ∃ out, (∀ s, directpackedLoop big masks px.length 0x80000000 0x8000 (masks.map fun _ => 0) (px ++ s) = some out) ∧
      out.length = 4 * masks.length * ((px.length + 15) / 16) ∧
      ∀ himask e s, packeddirectLoop big umasks px.length himask 0 e (out ++ s) =
        some (px.map fun p => byteOf umasks (bitsOf masks p)) := by
  induction hn : px.length using Nat.strong_induction_on generalizing px with
  | _ n ih =>
    subst hn
    have hlen : ∀ g : List Byte, (collect masks 0 (masks.map fun _ => 0) g).length = masks.length :=
      fun g => length_collect (length_map _)
    by_cases hfull : 16 ≤ px.length
    · -- A full group and what follows it.
      have hg : (px.take 16).length = 16 := by rw [length_take]; omega
      have hr : (px.drop 16).length = px.length - 16 := length_drop
      obtain ⟨out, hout, hl, hback⟩ := ih (px.drop 16).length (by omega) (px.drop 16) rfl
      generalize hgd : px.take 16 = g at hg
      generalize hrd : px.drop 16 = r at hr hout hl hback
      have hpx : px = g ++ r := by rw [← hgd, ← hrd, take_append_drop]
      subst hpx
      refine ⟨flushPlanes big (collect masks 0 (masks.map fun _ => 0) g) ++ out, fun s => ?_, ?_,
        fun himask e s => ?_⟩
      · rw [length_append, append_assoc, directpackedLoop_full big masks hg, hout]
        rfl
      · rw [length_append, length_flush, hlen, hl, length_append, hg]
        have : (16 + r.length + 15) / 16 = 1 + (r.length + 15) / 16 := by omega
        rw [this]
        ring
      · have hgrp := packeddirectLoop_group big ((hlen g).trans hm) (out ++ s) (n := 15) r.length
          (by decide) himask e
        rw [length_append, hg, append_assoc]
        refine hgrp.trans ?_
        have h16 : (0x8000#32) >>> (15 + 1) = 0 := by decide
        rw [h16, hback]
        have hrange := range_group masks umasks hg.le
        rw [hg] at hrange
        rw [hrange, Option.map_some, map_append]
    · cases px with
      | nil =>
        refine ⟨[], fun s => rfl, by simp, fun himask e s => rfl⟩
      | cons p px =>
        -- The last group, which is not full.
        generalize hgd : p :: px = g at hfull
        have hg0 : 0 < g.length := by rw [← hgd]; exact Nat.succ_pos _
        refine ⟨flushPlanes big (collect masks 0 (masks.map fun _ => 0) g), fun s => ?_, ?_,
          fun himask e s => ?_⟩
        · have hpart := directpackedLoop_part big masks (j := 0) (n := 0) (masks.map fun _ => 0) s
            (g := g) (by omega)
          refine hpart.trans ?_
          have hne : (0x8000#32) >>> (0 + g.length) ≠ 0x8000#32 := fun h => by
            have := (lo_start (by omega)).mp h
            omega
          rw [directpackedLoop]
          exact congrArg some (if_pos hne)
        · rw [length_flush, hlen, show (g.length + 15) / 16 = 1 by omega]
          omega
        · have hgrp := packeddirectLoop_group big ((hlen g).trans hm) s (n := g.length - 1) 0
            (by omega) himask e
          rw [show g.length - 1 + 1 = g.length by omega] at hgrp
          rw [hgrp, packeddirectLoop, Option.map_some, append_nil, range_group masks umasks (by omega)]

def swapHalves (d : BitVec 32) : BitVec 32 := d.extractLsb' 0 16 ++ d.extractLsb' 16 16

def mirror (d : List (BitVec 32)) : List (BitVec 32) := (d.map swapHalves).reverse

theorem groupBits_mirror (d : List (BitVec 32)) (hi : i < 16) :
    groupBits (mirror d) i = ((groupBits d i).map Prod.swap).reverse := by
  have hs : ∀ x : BitVec 32, ((swapHalves x).getLsbD (31 - i), (swapHalves x).getLsbD (15 - i)) =
      (x.getLsbD (15 - i), x.getLsbD (31 - i)) := by
    intro x
    simp only [swapHalves, BitVec.getLsbD_append, BitVec.getLsbD_extractLsb']
    rw [if_neg (by omega), if_pos (by omega)]
    simp [show 31 - i - 16 = 15 - i by omega, show 15 - i < 16 by omega,
      show 16 + (15 - i) = 31 - i by omega]
  rw [groupBits, mirror, groupBits, map_reverse, map_map, map_map]
  congr 1
  exact map_congr_left fun x _ => hs x

theorem groupBits_ext {d e : List (BitVec 32)} (hl : d.length = e.length)
    (h : ∀ i < 16, groupBits d i = groupBits e i) : d = e := by
  apply ext_getElem hl
  intro w hw hw'
  apply BitVec.eq_of_getLsbD_eq
  intro k hk
  have hb : ∀ i < 16, (d[w].getLsbD (31 - i), d[w].getLsbD (15 - i)) =
      (e[w].getLsbD (31 - i), e[w].getLsbD (15 - i)) := by
    intro i hi
    have hg := congrArg (fun l => l[w]?) (h i hi)
    simpa [groupBits, hw, hw'] using hg
  by_cases hk' : k < 16
  · have := congrArg Prod.snd (hb (15 - k) (by omega))
    rwa [show 15 - (15 - k) = k by omega] at this
  · have := congrArg Prod.fst (hb (31 - k) (by omega))
    rwa [show 31 - (31 - k) = k by omega] at this

def Padded (width : Nat) (groups : List (List (BitVec 32))) : Prop :=
  ∀ k d, groups[k]? = some d → ∀ i < 16, width ≤ 16 * k + i →
    groupBits d i = List.replicate d.length (false, false)

variable {groups : List (List (BitVec 32))}

theorem packed_round {masks umasks : List (Byte × Byte)} (hm : masks.length = umasks.length)
    (hmir : ∀ b : List (Bool × Bool), b.length = masks.length →
      bitsOf masks (byteOf umasks b) = (b.map Prod.swap).reverse)
    {width : Nat} (hl : groups.length = (width + 15) / 16)
    (hd : ∀ d ∈ groups, d.length = masks.length) (hp : Padded width groups) : ∃ px, px.length = width ∧
      (∀ himask e s, packeddirectLoop big umasks width himask 0 e (groups.flatMap (flushPlanes big) ++ s) = some px) ∧
      ∀ s, directpackedLoop big masks width 0x80000000 0x8000 (masks.map fun _ => 0) (px ++ s) =
        some ((groups.map mirror).flatMap (flushPlanes big)) := by
  induction groups generalizing width with
  | nil =>
    obtain rfl : width = 0 := by
      rw [length_nil] at hl
      omega
    exact ⟨[], rfl, fun _ _ _ => rfl, fun _ => rfl⟩
  | cons d groups ih =>
    rw [length_cons] at hl
    obtain ⟨hdl, hd⟩ := forall_mem_cons.mp hd
    obtain ⟨n, hn, hnw⟩ : ∃ n, n + 1 = min width 16 ∧ n < 16 := ⟨min width 16 - 1, by omega, by omega⟩
    generalize hg : (List.range (n + 1)).map (fun i => byteOf umasks (groupBits d i)) = g
    have hgl : g.length = n + 1 := by rw [← hg, length_map, length_range]
    have hcol : collect masks 0 (masks.map fun _ => 0) g = mirror d := by
      apply groupBits_ext
      · rw [length_collect (length_map _), mirror, length_reverse, length_map, hdl]
      · intro i hi
        rw [groupBits_group (by omega) hi, groupBits_mirror d hi]
        split_ifs with hig
        · have hgi : g.getD i 0 = byteOf umasks (groupBits d i) := by
            rw [← hg, getD_eq_getElem?_getD, getElem?_map,
              getElem?_range (by omega)]
            rfl
          rw [hgi, hmir _ (by rw [groupBits, length_map, hdl])]
        · rw [hp 0 d rfl i hi (by omega), hdl, map_replicate, reverse_replicate]
          rfl
    have hdu := hdl.trans hm
    by_cases hfull : 16 ≤ width
    · have hlr : groups.length = (width - 16 + 15) / 16 := by omega
      obtain ⟨px, hpl, hu, hpk⟩ := ih hlr hd fun k e hk i hi hw => hp (k + 1) e hk i hi (by omega)
      have hn15 : n = 15 := by omega
      subst hn15
      refine ⟨g ++ px, by rw [length_append]; omega, fun himask e s => ?_, fun s => ?_⟩
      · have hgrp := packeddirectLoop_group big hdu (groups.flatMap (flushPlanes big) ++ s)
          (width - 16) hnw himask e
        rw [show 15 + 1 + (width - 16) = width by omega, hg] at hgrp
        rw [flatMap_cons, append_assoc]
        refine hgrp.trans ?_
        have h16 : (0x8000#32) >>> (15 + 1) = 0 := by decide
        rw [h16, hu]
        rfl
      · have hf := directpackedLoop_full big masks (g := g) hgl (width - 16) (px ++ s)
        rw [show g.length + (width - 16) = width by omega] at hf
        rw [append_assoc, hf, hpk, hcol]
        rfl
    · have hnil : groups = [] := length_eq_zero_iff.mp (by omega)
      subst hnil
      have hwn : n + 1 = width := by omega
      refine ⟨g, hgl.trans hwn, fun himask e s => ?_, fun s => ?_⟩
      · have hgrp := packeddirectLoop_group big hdu s 0 hnw himask e
        rw [hg, Nat.add_zero, hwn] at hgrp
        rw [flatMap_cons, flatMap_nil, append_nil]
        refine hgrp.trans ?_
        rw [packeddirectLoop, Option.map_some, append_nil]
      · have hpart := directpackedLoop_part big masks (j := 0) (n := 0) (masks.map fun _ => 0) s
          (g := g) (by omega)
        rw [Nat.add_zero, hgl, hwn] at hpart
        refine hpart.trans ?_
        have hne : (0x8000#32) >>> (0 + width) ≠ 0x8000#32 := fun h => by
          have := (lo_start (by omega)).mp h
          omega
        rw [directpackedLoop, hcol, map_cons, map_nil, flatMap_cons,
          flatMap_nil, append_nil]
        exact congrArg some (if_pos hne)

def reversePlanes (planes : Nat) (p : Byte) : Byte :=
  ((List.range planes).map fun i => if p.getLsbD i then (1#8) <<< (planes - 1 - i) else 0).foldr
    (· ||| ·) 0

structure PlaneMasks (planes : Nat) (masks umasks : List (Byte × Byte)) : Prop where
  count : 2 * masks.length = planes
  same : masks.length = umasks.length
  mirrored : ∀ b : List (Bool × Bool), b.length = masks.length →
    bitsOf masks (byteOf umasks b) = (b.map Prod.swap).reverse
  reversed : ∀ p : Byte, p.toNat < 2 ^ planes → byteOf umasks (bitsOf masks p) = reversePlanes planes p

theorem planeMasks2 : PlaneMasks 2 [(0x01, 0x02)] [(0x02, 0x01)] := by
  refine ⟨rfl, rfl, fun b hb => ?_, by decide +kernel⟩
  match b with
  | [(b0, b1)] => revert b0 b1; decide

theorem planeMasks4 : PlaneMasks 4 [(0x01, 0x02), (0x04, 0x08)] [(0x08, 0x04), (0x02, 0x01)] := by
  refine ⟨rfl, rfl, fun b hb => ?_, by decide +kernel⟩
  match b with
  | [(b0, b1), (b2, b3)] => revert b0 b1 b2 b3; decide

theorem planeMasks8 : PlaneMasks 8 [(0x01, 0x02), (0x04, 0x08), (0x10, 0x20), (0x40, 0x80)]
    [(0x80, 0x40), (0x20, 0x10), (0x08, 0x04), (0x02, 0x01)] := by
  refine ⟨rfl, rfl, fun b hb => ?_, by decide +kernel⟩
  match b with
  | [(b0, b1), (b2, b3), (b4, b5), (b6, b7)] =>
    revert b0 b1 b2 b3 b4 b5 b6 b7
    decide +kernel

theorem plane_converters {big : Bool} {D : Dither} {direct packed : BITMAP} {pack unpack : Converter}
    (hd : direct.type = .direct8) (hk : packed.type = .packedcolor)
    (hp : w_convertFunction big D direct packed = some pack)
    (hu : w_convertFunction big D packed direct = some unpack) :
    ∃ masks umasks, PlaneMasks packed.planes masks umasks ∧ pack = directpacked big masks ∧
      unpack = packeddirect big umasks := by
  simp only [w_convertFunction, hd, hk] at hp hu
  split_ifs at hp hu with h2 h4 h8
  · cases hp
    cases hu
    exact ⟨_, _, by rw [h2]; exact planeMasks2, rfl, rfl⟩
  · cases hp
    cases hu
    exact ⟨_, _, by rw [h4]; exact planeMasks4, rfl, rfl⟩
  · cases hp
    cases hu
    exact ⟨_, _, by rw [h8]; exact planeMasks8, rfl, rfl⟩

theorem length_mirror (d : List (BitVec 32)) : (mirror d).length = d.length := by
  rw [mirror, length_reverse, length_map]

theorem mirror_of_flush
    (h : (groups.map mirror).flatMap (flushPlanes big) = groups.flatMap (flushPlanes big)) :
    ∀ d ∈ groups, mirror d = d := by
  induction groups with
  | nil => exact fun _ hd => by cases hd
  | cons d groups ih =>
    rw [map_cons, flatMap_cons, flatMap_cons] at h
    have h1 := fetch_flush big d (groups.flatMap (flushPlanes big))
    have h2 := fetch_flush big (mirror d) ((groups.map mirror).flatMap (flushPlanes big))
    rw [h, length_mirror, h1] at h2
    obtain ⟨hd, hr⟩ := Prod.mk.inj (Option.some.inj h2)
    exact forall_mem_cons.mpr ⟨hd.symm, ih hr.symm⟩

/-- Exactly when nothing changes under a reversal of the planes does a line come back. -/
theorem planes_kept_iff {big : Bool} {D : Dither} {direct packed : BITMAP} {pack unpack : Converter}
    (hd : direct.type = .direct8) (hk : packed.type = .packedcolor) (hw : direct.width = packed.width)
    (hp : w_convertFunction big D direct packed = some pack)
    (hu : w_convertFunction big D packed direct = some unpack) :
    (∀ px pad, px.length = direct.width → (∀ p ∈ px, p.toNat < 2 ^ packed.planes) →
      ∃ words back, pack direct packed (px ++ pad) = some (words.map some, direct.linesize) ∧
        unpack packed direct words = some (back.map some, packed.linesize) ∧
        (back = px ↔ ∀ p ∈ px, reversePlanes packed.planes p = p)) ∧
    ∀ groups, groups.length = (packed.width + 15) / 16 →
      (∀ d ∈ groups, 2 * d.length = packed.planes) → Padded packed.width groups →
      ∃ px words, unpack packed direct (groups.flatMap (flushPlanes big)) = some (px.map some, packed.linesize) ∧
        pack direct packed px = some (words.map some, direct.linesize) ∧
        (words = groups.flatMap (flushPlanes big) ↔ ∀ d ∈ groups, mirror d = d) := by
  obtain ⟨masks, umasks, hm, rfl, rfl⟩ := plane_converters hd hk hp hu
  constructor
  · intro px pad hl hlt
    obtain ⟨out, hout, -, hback⟩ := direct_round big hm.same px
    refine ⟨out, px.map (reversePlanes packed.planes), ?_, ?_, ?_⟩
    · rw [directpacked, ← hw, ← hl, hout]
      rfl
    · have hb := hback 0 (umasks.map fun _ => 0) []
      rw [List.append_nil] at hb
      rw [packeddirect, ← hl, hb, List.map_congr_left fun p hpx => hm.reversed p (hlt p hpx)]
      rfl
    · have hid := List.map_inj_left (l := px) (f := reversePlanes packed.planes) (g := id)
      rwa [List.map_id] at hid
  · intro groups hl hgd hpad
    have hgm : ∀ d ∈ groups, d.length = masks.length := fun d hdg => by
      have h1 := hgd d hdg
      have h2 := hm.count
      omega
    obtain ⟨px, hpl, hunpack, hpack⟩ := packed_round big hm.same hm.mirrored hl hgm hpad
    refine ⟨px, (groups.map mirror).flatMap (flushPlanes big), ?_, ?_, ?_⟩
    · have hb := hunpack 0 (umasks.map fun _ => 0) []
      rw [List.append_nil] at hb
      rw [packeddirect, hw, hb]
      rfl
    · have hb := hpack []
      rw [List.append_nil] at hb
      rw [directpacked, hb]
      rfl
    · constructor
      · exact mirror_of_flush big
      · intro h
        rw [List.map_congr_left h, List.map_id']

def header2 (type : BitmapType) (width : Nat) : BITMAP :=
  (w_bmheader 2 { width, height := 1, type }).getD { width, height := 1, type }

theorem planes_kept_iff_two : ∃ words back,
    direct2packed false (header2 .direct8 3) (header2 .packedcolor 3) ([0, 3, 0] ++ [0]) = some (words.map some, 4) ∧
    packed2direct false (header2 .packedcolor 3) (header2 .direct8 3) words = some (back.map some, 4) ∧
    (back = [0, 3, 0] ↔ ∀ p ∈ [(0 : Byte), 3, 0], reversePlanes 2 p = p) := by
  have hp : w_convertFunction false ⟨id, fun _ => 0⟩ (header2 .direct8 3) (header2 .packedcolor 3) =
      some (direct2packed false) := rfl
  have hu : w_convertFunction false ⟨id, fun _ => 0⟩ (header2 .packedcolor 3) (header2 .direct8 3) =
      some (packed2direct false) := rfl
  have hd : (header2 .direct8 3).type = .direct8 := rfl
  have hk : (header2 .packedcolor 3).type = .packedcolor := rfl
  have hw : (header2 .direct8 3).width = (header2 .packedcolor 3).width := rfl
  exact (planes_kept_iff hd hk hw hp hu).1 [0, 3, 0] [0] rfl (by decide)

/-- The color 1 comes back as the color 2. -/
theorem planes_reversed : ∃ words, direct2packed false (header2 .direct8 1) (header2 .packedcolor 1) [1, 0, 0, 0] =
      some (words.map some, 4) ∧
    packed2direct false (header2 .packedcolor 1) (header2 .direct8 1) words = some ([some 2], 4) :=
  ⟨[0x80, 0, 0, 0], by decide, by decide⟩

end WWindowSystem
