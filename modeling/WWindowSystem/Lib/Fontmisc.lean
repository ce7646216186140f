import WWindowSystem.Library.Strings
import WWindowSystem.Server.Fonts

namespace WWindowSystem

open List

def backUntil (stop : Byte → Bool) (s : CString) : Nat → Nat
  | 0 => 0
  | idx + 1 => if idx = 0 then 0 else if stop (s.getD idx 0) then idx else backUntil stop s idx

def styleOf (c : Byte) : Option (BitVec 16) :=
  if c = 0x62 then some F_BOLD
  else if c = 0x69 then some F_ITALIC
  else if c = 0x6c then some F_LIGHT
  else if c = 0x72 then some F_REVERSE
  else if c = 0x75 then some F_UNDERLINE
  else none

def getStyles (s : CString) : Nat → BitVec 16 → Nat × BitVec 16
  | 0, styles => (0, styles)
  | idx + 1, styles =>
    if idx = 0 then (0, styles)
    else
      match styleOf (s.getD idx 0) with
      | some f => getStyles s idx (styles ||| f)
      | none => (idx, styles)

structure FontType where
  name : CString
  size : Int
  styles : BitVec 16
  deriving DecidableEq

def toshort (z : Int) : Int := (z + 2 ^ 15) % 2 ^ 16 - 2 ^ 15

/-- `some none` is NULL; `none` when the static buffer is too small, or nothing is left without the path. -/
def w_fonttype (filename : CString) : Option (Option FontType) :=
  if filename = [] then some none
  else
    let filename := (filename.reverse.takeWhile (· ≠ 0x2f)).reverse
    if filename = [] then none
    else
      let dot := backUntil (· = 0x2e) filename filename.length
      let idx := if dot = 0 then filename.length else dot
      let r := getStyles filename idx 0
      let name := filename.take (r.1 + 1)
      if MAXFAMILYNAME + 4 ≤ name.length then none
      else
        let last := backUntil (fun c => !isdigit c) name name.length
        some (some ⟨name.take (last + 1), toshort (strtol (2 ^ 63 - 1) (name.drop (last + 1))), r.2⟩)

def compose_bytes (cfg : FontConfig) (family : CString) (size : Int) (styles : BitVec 16) : CString :=
  let family := if family = [] then cfg.glob_fontfamily.getD DEF_WFONTFAMILY else family
  let size := if size = 0 then if cfg.glob_fontsize > 0 then cfg.glob_fontsize else DEF_WFONTSIZE
    else size
  let hundreds := sizeDigit 100 size
  let tens := sizeDigit 10 hundreds.2
  let style (mask : BitVec 16) (c : String) : CString := if styles &&& mask ≠ 0 then ascii c else []
  (family.takeWhile isalnum).take MAXFAMILYNAME ++ hundreds.1 ++ tens.1 ++
    [BitVec.ofInt 8 (0x30 + tens.2)] ++ style F_BOLD "b" ++ style F_ITALIC "i" ++ style F_LIGHT "l" ++
    style F_REVERSE "r" ++ style F_UNDERLINE "u" ++ ascii "." ++ WFONT_EXTENSION ++ [0]

def FNAME_SIZE : Nat := MAXFAMILYNAME + 5 + 3 + 1 + (WFONT_EXTENSION.length + 1) + 1

theorem takeWhile_nul (s : CString) : (s ++ [0]).takeWhile (· ≠ 0) = s.takeWhile (· ≠ 0) := by
  induction s with
  | nil => rfl
  | cons c s ih => rw [cons_append, takeWhile_cons, takeWhile_cons, ih]

theorem compose_name_eq (cfg : FontConfig) (family : CString) (size : Int) (styles : BitVec 16) :
    compose_name cfg family size styles = (compose_bytes cfg family size styles).takeWhile (· ≠ 0) :=
  (takeWhile_nul _).symm

variable (stop : Byte → Bool)

theorem backUntil_append {p s : CString} (hp : p ≠ []) (hs : ∀ c ∈ s, stop c = false) (t : CString) :
    backUntil stop (p ++ s ++ t) (p.length + s.length) = backUntil stop (p ++ s ++ t) p.length := by
  induction s using List.reverseRecOn generalizing t with
  | nil => rfl
  | append_singleton s c ih =>
    have hpos := length_pos_of_ne_nil hp
    have hget : (p ++ (s ++ [c]) ++ t).getD (p.length + s.length) 0 = c := by
      simp [getD_eq_getElem?_getD]
    rw [length_append, length_singleton, ← add_assoc, backUntil, if_neg (by omega), hget,
      if_neg (by simp [hs c (by simp)])]
    have hassoc : p ++ (s ++ [c]) ++ t = p ++ s ++ (c :: t) := by simp
    rw [hassoc]
    exact ih (fun d hd => hs d (by simp [hd])) (c :: t)

theorem backUntil_stop {p : CString} (hp : p ≠ []) (hstop : stop (p.getLast hp) = true) (t : CString) :
    backUntil stop (p ++ t) p.length = p.length - 1 := by
  obtain ⟨q, c, rfl⟩ : ∃ q c, p = q ++ [c] := ⟨p.dropLast, p.getLast hp, (dropLast_append_getLast hp).symm⟩
  rw [getLast_append_singleton] at hstop
  rw [length_append, length_singleton, backUntil, Nat.add_sub_cancel]
  split_ifs with h0 hc
  · exact h0.symm
  · rfl
  · refine absurd ?_ hc
    rw [show (q ++ [c] ++ t).getD q.length 0 = c by simp [getD_eq_getElem?_getD]]
    exact hstop

theorem getStyles_append {p l : CString} (hp : 1 < p.length) (hstop : ∀ h : p ≠ [], styleOf (p.getLast h) = none)
    (hl : ∀ c ∈ l, (styleOf c).isSome) (t : CString) (styles : BitVec 16) :
    getStyles (p ++ l ++ t) (p.length + l.length) styles =
      (p.length - 1, l.foldr (fun c s => s ||| (styleOf c).getD 0) styles) := by
  induction l using List.reverseRecOn generalizing t styles with
  | nil =>
    obtain ⟨q, c, rfl⟩ : ∃ q c, p = q ++ [c] := by
      have hne : p ≠ [] := by
        rintro rfl
        simp at hp
      exact ⟨p.dropLast, p.getLast hne, (dropLast_append_getLast hne).symm⟩
    have hc := hstop (by simp)
    rw [getLast_append_singleton] at hc
    rw [length_append, length_singleton] at hp
    have hget : (q ++ [c] ++ [] ++ t).getD q.length 0 = c := by simp [getD_eq_getElem?_getD]
    rw [length_nil, add_zero, length_append, length_singleton, getStyles, if_neg (by omega), hget, hc]
    rfl
  | append_singleton l c ih =>
    obtain ⟨f, hf⟩ := Option.isSome_iff_exists.mp (hl c (by simp))
    have hget : (p ++ (l ++ [c]) ++ t).getD (p.length + l.length) 0 = c := by
      simp [getD_eq_getElem?_getD]
    have hassoc : p ++ (l ++ [c]) ++ t = p ++ l ++ (c :: t) := by simp
    rw [length_append, length_singleton, ← add_assoc, getStyles, if_neg (by omega), hget, hf]
    simp only
    rw [hassoc, ih (fun d hd => hl d (by simp [hd])), foldr_append]
    simp [hf]

def sizeDigits (size : Nat) : List Nat :=
  (if size / 100 ≠ 0 then [size / 100] else []) ++ (if size % 100 / 10 ≠ 0 then [size % 100 / 10] else []) ++ [size % 10]

def digitByte (d : Nat) : Byte := BitVec.ofNat 8 (48 + d)

def styleBytes (styles : BitVec 16) : CString :=
  (if styles &&& F_BOLD ≠ 0 then ascii "b" else []) ++ (if styles &&& F_ITALIC ≠ 0 then ascii "i" else []) ++
    (if styles &&& F_LIGHT ≠ 0 then ascii "l" else []) ++ (if styles &&& F_REVERSE ≠ 0 then ascii "r" else []) ++
    if styles &&& F_UNDERLINE ≠ 0 then ascii "u" else []

structure FontRequest where
  family : CString
  size : Nat
  styles : BitVec 16
  ne_nil : family ≠ []
  short : family.length ≤ MAXFAMILYNAME
  alnum : ∀ c ∈ family, isalnum c = true
  letter : isdigit (family.getLast ne_nil) = false
  sized : 1 ≤ size ∧ size ≤ 999
  flags : styles &&& 0xffe0 = 0

def FontRequest.name (q : FontRequest) (cfg : FontConfig) : CString := compose_name cfg q.family q.size q.styles

theorem sizeDigit_nat (unit size : Nat) : sizeDigit unit size =
    ((if size / unit ≠ 0 then [digitByte (size / unit)] else []), ((if size / unit ≠ 0 then size % unit else size : Nat) : Int)) := by
  have hdiv : (size : Int).tdiv unit = (size / unit : Nat) := rfl
  have hmod : (size : Int).tmod unit = (size % unit : Nat) := rfl
  have hbyte : BitVec.ofInt 8 (0x30 + ((size / unit : Nat) : Int)) = digitByte (size / unit) := by
    rw [digitByte, ← BitVec.ofInt_natCast]
    rfl
  rw [sizeDigit, hdiv, hmod, hbyte]
  by_cases h : size / unit = 0
  · rw [if_neg (by simp [h]), if_neg (by simp [h]), if_neg (by simp [h])]
  · rw [if_pos (by exact_mod_cast h), if_pos h, if_pos h]

variable (q : FontRequest)

theorem FontRequest.bytes (cfg : FontConfig) : compose_bytes cfg q.family q.size q.styles =
    q.family ++ (sizeDigits q.size).map digitByte ++ styleBytes q.styles ++ ascii ".wfnt" ++ [0] := by
  obtain ⟨h1, h2⟩ := q.sized
  have hfam : (q.family.takeWhile isalnum).take MAXFAMILYNAME = q.family := by
    rw [takeWhile_eq_self_iff.mpr q.alnum, take_of_length_le q.short]
  have hsize : ((q.size : Nat) : Int) ≠ 0 := by omega
  have hones : ∀ n : Nat, BitVec.ofInt 8 (0x30 + (n : Int)) = digitByte n := by
    intro n
    rw [digitByte, ← BitVec.ofInt_natCast]
    rfl
  have hmod : (if q.size / 100 ≠ 0 then q.size % 100 else q.size) = q.size % 100 := by split_ifs <;> omega
  have hmod' : (if q.size % 100 / 10 ≠ 0 then q.size % 100 % 10 else q.size % 100) = q.size % 10 := by split_ifs <;> omega
  have hund := sizeDigit_nat 100 q.size
  have hten := sizeDigit_nat 10 (q.size % 100)
  rw [hmod] at hund
  rw [hmod'] at hten
  simp only [Nat.cast_ofNat] at hund hten
  simp only [compose_bytes, if_neg q.ne_nil, if_neg hsize, hfam, hund, hten, hones]
  have hext : ascii ".wfnt" = ascii "." ++ WFONT_EXTENSION := by decide
  rw [hext, sizeDigits, styleBytes]
  simp only [append_assoc, map_append, map_cons, map_nil, apply_ite (List.map digitByte)]

theorem digitByte_facts {d : Nat} (hd : d < 10) : isdigit (digitByte d) = true ∧ digitByte d ≠ 0 ∧ digitByte d ≠ 0x2f ∧
    digitByte d ≠ 0x2e ∧ styleOf (digitByte d) = none ∧ ((digitByte d).toNat : Int) - 48 = d := by
  interval_cases d <;> decide

variable {size : Nat}

theorem sizeDigits_lt (h : size ≤ 999) : ∀ d ∈ sizeDigits size, d < 10 := by
  intro d hd
  simp only [sizeDigits, mem_append, mem_ite_nil_right, mem_singleton] at hd
  omega

theorem alnum_facts {c : Byte} (h : isalnum c = true) : c ≠ 0 ∧ c ≠ 0x2f ∧ c ≠ 0x2e := by
  refine ⟨?_, ?_, ?_⟩ <;> rintro rfl <;> revert h <;> decide

variable {styles : BitVec 16}

theorem styleBytes_letters : ∀ c ∈ styleBytes styles, (styleOf c).isSome ∧ c ≠ 0 ∧ c ≠ 0x2f ∧ c ≠ 0x2e := by
  intro c hc
  simp only [styleBytes, mem_append, mem_ite_nil_right] at hc
  rcases hc with (((⟨-, h⟩ | ⟨-, h⟩) | ⟨-, h⟩) | ⟨-, h⟩) | ⟨-, h⟩ <;> obtain rfl := mem_singleton.mp h <;> decide

theorem styleBytes_styles (h : styles &&& 0xffe0 = 0) :
    (styleBytes styles).foldr (fun c s => s ||| (styleOf c).getD 0) 0 = styles := by
  have hlt : styles.toNat < 32 := by
    by_contra hge
    have hbit : styles = (styles &&& 0xffe0) ||| (styles &&& 0x1f) := by
      ext i hi
      simp only [BitVec.getElem_or, BitVec.getElem_and]
      interval_cases i <;> simp
    rw [h, show (0 : BitVec 16) = 0#16 from rfl, BitVec.zero_or] at hbit
    have hle : (styles &&& 0x1f).toNat ≤ 31 := by
      rw [BitVec.toNat_and]
      exact Nat.and_le_right
    rw [← hbit] at hle
    omega
  obtain ⟨k, hk⟩ : ∃ k, styles.toNat = k := ⟨_, rfl⟩
  rw [hk] at hlt
  have hof : styles = BitVec.ofNat 16 k := by rw [← hk, BitVec.ofNat_toNat, BitVec.setWidth_eq]
  rw [hof]
  interval_cases k <;> decide

theorem strtol_digits {ds : List Nat} (hne : ds ≠ []) (hd : ∀ d ∈ ds, d < 10) (hle : ds.foldl (fun v d => 10 * v + d) 0 ≤ 2 ^ 63 - 1) :
    strtol (2 ^ 63 - 1) (ds.map digitByte) = (ds.foldl (fun v d => 10 * v + d) 0 : Nat) := by
  obtain ⟨e, es, rfl⟩ := exists_cons_of_ne_nil hne
  obtain ⟨hdig, -⟩ := digitByte_facts (hd e mem_cons_self)
  have hspace : isspace (digitByte e) = false := by
    have he := hd e mem_cons_self
    interval_cases e <;> decide
  have hsign : digitByte e ≠ 45 ∧ digitByte e ≠ 43 := by
    have he := hd e mem_cons_self
    interval_cases e <;> decide
  have hall : ∀ c ∈ (e :: es).map digitByte, isdigit c = true := by
    intro c hc
    obtain ⟨d, hmem, rfl⟩ := mem_map.mp hc
    exact (digitByte_facts (hd d hmem)).1
  have hfold : ∀ (l : List Nat) (v : Nat), (∀ d ∈ l, d < 10) →
      (l.map digitByte).foldl (fun (v : Int) (c : Byte) => 10 * v + ((c.toNat : Int) - 48)) (v : Int) =
        (l.foldl (fun v d => 10 * v + d) v : Nat) := by
    intro l
    induction l with
    | nil => exact fun v _ => rfl
    | cons d l ih =>
      intro v hl
      rw [map_cons, foldl_cons, foldl_cons, (digitByte_facts (hl d mem_cons_self)).2.2.2.2.2,
        ← ih _ fun d hd => hl d (mem_cons_of_mem _ hd)]
      push_cast
      rfl
  have hstart : ((e :: es).map digitByte).dropWhile isspace = (e :: es).map digitByte := by
    rw [map_cons, dropWhile_cons, hspace]
    rfl
  have hhead : ((e :: es).map digitByte).head? = some (digitByte e) := rfl
  unfold strtol
  simp only [hstart, hhead, Option.some.injEq, hsign.1, hsign.2, or_self, if_false, takeWhile_eq_self_iff.mpr hall]
  have := hfold (e :: es) 0 hd
  rw [Nat.cast_zero] at this
  rw [this]
  omega

def printedSize (size : Nat) : Nat := (sizeDigits size).foldl (fun v d => 10 * v + d) 0

theorem printedSize_iff (h : size ≤ 999) : printedSize size = size ↔ size < 100 ∨ size / 10 % 10 ≠ 0 := by
  unfold printedSize sizeDigits
  split_ifs <;> simp only [nil_append, cons_append, foldl_cons, foldl_nil] <;> omega

theorem printedSize_le (h : size ≤ 999) : printedSize size ≤ 999 := by
  unfold printedSize sizeDigits
  split_ifs <;> simp only [nil_append, cons_append, foldl_cons, foldl_nil] <;> omega

variable {cfg : FontConfig}

def FontRequest.stem (q : FontRequest) : CString := q.family ++ (sizeDigits q.size).map digitByte ++ styleBytes q.styles

theorem FontRequest.stem_plain : ∀ c ∈ q.stem, c ≠ 0 ∧ c ≠ 0x2f ∧ c ≠ 0x2e := by
  intro c hc
  rcases mem_append.mp hc with hc | hc
  · rcases mem_append.mp hc with hc | hc
    · exact alnum_facts (q.alnum c hc)
    · obtain ⟨d, hd, rfl⟩ := mem_map.mp hc
      obtain ⟨-, h1, h2, h3, -⟩ := digitByte_facts (sizeDigits_lt q.sized.2 d hd)
      exact ⟨h1, h2, h3⟩
  · exact (styleBytes_letters c hc).2

theorem wfnt_plain : ∀ c ∈ ascii ".wfnt", c ≠ 0 ∧ c ≠ 0x2f := by decide

theorem FontRequest.name_eq (cfg : FontConfig) : q.name cfg = q.stem ++ ascii ".wfnt" := by
  have hplain : ∀ c ∈ q.stem ++ ascii ".wfnt", decide (c ≠ 0) = true := by
    intro c hc
    rcases mem_append.mp hc with hc | hc
    · exact decide_eq_true (q.stem_plain c hc).1
    · exact decide_eq_true (wfnt_plain c hc).1
  rw [FontRequest.name, compose_name_eq, q.bytes, takeWhile_nul]
  exact takeWhile_eq_self_iff.mpr hplain

theorem sizeDigits_length (size : Nat) : 1 ≤ (sizeDigits size).length ∧ (sizeDigits size).length ≤ 3 := by
  unfold sizeDigits
  split_ifs <;> simp

theorem w_fonttype_name (cfg : FontConfig) :
    w_fonttype (q.name cfg) = some (some ⟨q.family, printedSize q.size, q.styles⟩) := by
  obtain ⟨hd1, hd3⟩ := sizeDigits_length q.size
  have hfam := length_pos_of_ne_nil q.ne_nil
  have hshort : q.family.length ≤ 16 := q.short
  have hne : q.stem ++ ascii ".wfnt" ≠ [] := by simp [ascii]
  have hbase : ((q.stem ++ ascii ".wfnt").reverse.takeWhile (· ≠ 0x2f)).reverse = q.stem ++ ascii ".wfnt" := by
    rw [takeWhile_eq_self_iff.mpr, reverse_reverse]
    intro c hc
    rcases mem_append.mp (mem_reverse.mp hc) with hc | hc
    · exact decide_eq_true (q.stem_plain c hc).2.1
    · exact decide_eq_true (wfnt_plain c hc).2
  have hstem : 1 < q.stem.length := by
    simp only [FontRequest.stem, length_append, length_map]
    omega
  -- the dot of the extension
  have hdot : backUntil (· = 0x2e) (q.stem ++ ascii ".wfnt") (q.stem ++ ascii ".wfnt").length = q.stem.length := by
    have hlast := backUntil_append (· = 0x2e) (p := q.stem ++ [0x2e]) (s := ascii "wfnt") (by simp) (by decide) []
    have hstop := backUntil_stop (· = 0x2e) (p := q.stem ++ [0x2e]) (by simp) (by simp) (ascii "wfnt")
    have happ : q.stem ++ [0x2e] ++ ascii "wfnt" = q.stem ++ ascii ".wfnt" := by
      rw [append_assoc]
      rfl
    rw [append_nil, happ] at hlast
    rw [happ] at hstop
    rw [hstop, length_append, length_singleton, Nat.add_sub_cancel] at hlast
    rw [← hlast]
    congr 1
    simp [ascii]
  -- the last digit of the size stops the search for styles
  have hdigits : ∀ c ∈ (sizeDigits q.size).map digitByte, isdigit c = true ∧ styleOf c = none := by
    intro c hc
    obtain ⟨d, hd, rfl⟩ := mem_map.mp hc
    obtain ⟨h1, -, -, -, h2, -⟩ := digitByte_facts (sizeDigits_lt q.sized.2 d hd)
    exact ⟨h1, h2⟩
  have hdne : (sizeDigits q.size).map digitByte ≠ [] := by
    intro h
    have := congrArg List.length h
    simp only [length_map, length_nil] at this
    omega
  obtain ⟨p, hp⟩ : ∃ p, p = q.family ++ (sizeDigits q.size).map digitByte := ⟨_, rfl⟩
  have hplen : p.length = q.family.length + (sizeDigits q.size).length := by rw [hp, length_append, length_map]
  have hstyles : getStyles (q.stem ++ ascii ".wfnt") q.stem.length 0 = (p.length - 1, q.styles) := by
    have hspec := getStyles_append (p := p) (l := styleBytes q.styles) (by omega) (fun h => ?_)
      (fun c hc => (styleBytes_letters c hc).1) (ascii ".wfnt") 0
    · rw [styleBytes_styles q.flags] at hspec
      rw [← hspec, FontRequest.stem, hp, length_append]
    · have hmem : p.getLast h ∈ (sizeDigits q.size).map digitByte := by
        subst hp
        rw [getLast_append_of_ne_nil _ hdne]
        exact getLast_mem hdne
      exact (hdigits _ hmem).2
  have hname : (q.stem ++ ascii ".wfnt").take (p.length - 1 + 1) = p := by
    rw [show p.length - 1 + 1 = p.length by omega, FontRequest.stem, ← hp, append_assoc, take_left]
  have hlast : backUntil (fun c => !isdigit c) p p.length = q.family.length - 1 := by
    have hpass := backUntil_append (fun c => !isdigit c) (p := q.family) (s := (sizeDigits q.size).map digitByte) q.ne_nil
      (fun c hc => by simp [(hdigits c hc).1]) []
    have hstop := backUntil_stop (fun c => !isdigit c) q.ne_nil (by simp [q.letter]) ((sizeDigits q.size).map digitByte)
    rw [append_nil, ← hp, length_map, ← hplen] at hpass
    rw [← hp] at hstop
    rw [hpass, hstop]
  have hle := printedSize_le q.sized.2
  have hval : strtol (2 ^ 63 - 1) ((sizeDigits q.size).map digitByte) = printedSize q.size :=
    strtol_digits (fun h => by simp [h] at hd1) (sizeDigits_lt q.sized.2) (by unfold printedSize at hle; omega)
  have hfits : ¬ MAXFAMILYNAME + 4 ≤ p.length := by
    rw [hplen, show MAXFAMILYNAME = 16 from rfl]
    omega
  rw [q.name_eq]
  simp only [w_fonttype, if_neg hne, hbase, hdot, if_neg (show ¬ q.stem.length = 0 by omega), hstyles, hname, if_neg hfits, hlast,
    show q.family.length - 1 + 1 = q.family.length by omega, Option.some.injEq, FontType.mk.injEq, and_true]
  rw [hp, take_left, drop_left, hval]
  refine ⟨rfl, ?_⟩
  unfold toshort
  omega

/-- The name says again what was asked for unless a zero between two digits of the size was not printed; names that do
are different for different requests, and every name fits in the buffer. -/
theorem fonttype_compose_iff (cfg : FontConfig) :
    (∀ q : FontRequest, w_fonttype (q.name cfg) = some (some ⟨q.family, q.size, q.styles⟩) ↔ q.size < 100 ∨ q.size / 10 % 10 ≠ 0) ∧
    (∀ q r : FontRequest, (q.size < 100 ∨ q.size / 10 % 10 ≠ 0) → (r.size < 100 ∨ r.size / 10 % 10 ≠ 0) →
      q.name cfg = r.name cfg → q = r) ∧
    ∀ q : FontRequest, (compose_bytes cfg q.family q.size q.styles).length ≤ FNAME_SIZE := by
  have hiff : ∀ q : FontRequest, w_fonttype (q.name cfg) = some (some ⟨q.family, q.size, q.styles⟩) ↔
      q.size < 100 ∨ q.size / 10 % 10 ≠ 0 := by
    intro q
    rw [w_fonttype_name, ← printedSize_iff q.sized.2]
    simp
  refine ⟨hiff, ?_, ?_⟩
  · intro q r hq hr hname
    have hq := (hiff q).mpr hq
    rw [hname, (hiff r).mpr hr] at hq
    simp only [Option.some.injEq, FontType.mk.injEq, Nat.cast_inj] at hq
    cases q
    cases r
    simp_all
  · intro q
    obtain ⟨-, hd⟩ := sizeDigits_length q.size
    have hs : (styleBytes q.styles).length ≤ 5 := by
      unfold styleBytes
      split_ifs <;> decide
    have hshort : q.family.length ≤ 16 := q.short
    rw [q.bytes]
    simp only [List.length_append, List.length_map, List.length_singleton, FNAME_SIZE, show (ascii ".wfnt").length = 5 from rfl,
      show WFONT_EXTENSION.length = 4 from rfl, show MAXFAMILYNAME = 16 from rfl]
    omega

theorem fonttype_compose_default :
    (∀ q : FontRequest, w_fonttype (q.name ⟨none, 0⟩) = some (some ⟨q.family, q.size, q.styles⟩) ↔
      q.size < 100 ∨ q.size / 10 % 10 ≠ 0) ∧
    (∀ q r : FontRequest, (q.size < 100 ∨ q.size / 10 % 10 ≠ 0) → (r.size < 100 ∨ r.size / 10 % 10 ≠ 0) →
      q.name ⟨none, 0⟩ = r.name ⟨none, 0⟩ → q = r) ∧
    ∀ q : FontRequest, (compose_bytes ⟨none, 0⟩ q.family q.size q.styles).length ≤ FNAME_SIZE :=
  fonttype_compose_iff ⟨none, 0⟩

def plainRequest (size : Nat) (h : 1 ≤ size ∧ size ≤ 999) : FontRequest :=
  ⟨ascii "fixed", size, 0, by decide, by decide, by decide, by decide, h, by decide⟩

theorem fonttype_not_compose : ∃ q r : FontRequest, q.size ≠ r.size ∧ ∀ cfg : FontConfig, q.name cfg = r.name cfg ∧
    w_fonttype (q.name cfg) ≠ some (some ⟨q.family, q.size, q.styles⟩) := by
  refine ⟨plainRequest 105 (by decide), plainRequest 15 (by decide), by decide, fun cfg => ?_⟩
  have hname : (plainRequest 105 (by decide)).name cfg = (plainRequest 15 (by decide)).name cfg := by
    rw [FontRequest.name_eq, FontRequest.name_eq]
    rfl
  refine ⟨hname, ?_⟩
  rw [w_fonttype_name]
  decide

end WWindowSystem
