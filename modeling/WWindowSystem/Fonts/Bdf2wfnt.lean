import WWindowSystem.Library.Packing
import WWindowSystem.Library.Words

namespace WWindowSystem.Wfnt

open Packing

def MAGIC : BitVec 32 := 0x57464e31

def F_LATIN1 : BitVec 16 := 1

def F_ASCII : BitVec 16 := 2

def F_SYMBOL : BitVec 16 := 4

def F_PROP : BitVec 16 := 8

def F_STYLEMASK : BitVec 16 := 0x1f

structure FONTHDR where
  magic : BitVec 32
  lenght : BitVec 32
  header : BitVec 16
  height : BitVec 16
  flags : BitVec 16
  styles : BitVec 16
  thicken : BitVec 16
  skew : BitVec 16
  reserved : BitVec 16
  effect_mask : BitVec 16
  baseline : BitVec 16
  maxwidth : BitVec 16
  family : List Byte

def sizeof_FONTHDR : Nat := 44

structure MEMFONT where
  hdr : FONTHDR
  info : List Byte
  widths : List Byte
  map : Nat → BitVec 32
  widths_length : widths.length = 256
  family_length : hdr.family.length = 16
  height_pos : 1 ≤ hdr.height.toNat
  height_le : hdr.height.toNat ≤ 300
  width_le : ∀ c, (widths.getD c 0).toNat ≤ 32
  some_width : ∃ c < 256, 0 < (widths.getD c 0).toNat

def width (widths : List Byte) (c : Nat) : Nat := (widths.getD c 0).toNat

def first_char (widths : List Byte) : Nat := ((List.range 32).find? fun idx => width widths idx != 0).getD 32

def last_char (widths : List Byte) : Nat :=
  (((List.range 128).map fun k => 255 - k).foldl fun last idx => if width widths idx ≠ 0 then idx else last) 127

def width_turn (s : Nat × Bool) (w : Nat) : Nat × Bool := if s.1 < w then (w, s.2 || s.1 != 0) else s

def scanned (widths : List Byte) : List Nat :=
  (List.range' (first_char widths) (last_char widths + 1 - first_char widths)).map (width widths)

def charset (widths : List Byte) : BitVec 16 :=
  if first_char widths < 32 then F_SYMBOL else if 127 < last_char widths then F_LATIN1 else F_ASCII

def check_widths (widths : List Byte) (h : FONTHDR) : FONTHDR :=
  let (largest, prop) := (scanned widths).foldl width_turn (0, false)
  let flags := (h.flags &&& ~~~(F_ASCII ||| F_LATIN1 ||| F_SYMBOL ||| F_PROP)) ||| charset widths
  { h with
    flags := if prop then flags ||| F_PROP else flags
    maxwidth := BitVec.ofNat 16 largest }

def char_stream (height cwidth : Nat) (rows : Nat → BitVec 32) : Stream :=
  (List.range height).foldl
    (fun s y => (List.range cwidth).foldl
      (fun s k => s.put (decide (rows y &&& ((1#32 <<< (cwidth - 1)) >>> k) ≠ 0))) s) .start

def char_words (height cwidth : Nat) (rows : Nat → BitVec 32) : List (BitVec 32) :=
  if cwidth = 0 then [] else (char_stream height cwidth rows).flush

def char_longs (height w : Nat) : Nat := (w * height + 31) / 32

def font_longs (height : Nat) (widths : List Byte) : Nat := ((List.range 256).map fun c => char_longs height (width widths c)).sum

def stream (f : MEMFONT) : List (BitVec 32) :=
  (List.range 256).flatMap fun c => char_words f.hdr.height.toNat (width f.widths c) fun y => f.map (c * f.hdr.height.toNat + y)

def map2stream (f : MEMFONT) : List (BitVec 32) :=
  (List.range (font_longs f.hdr.height.toNat f.widths)).map fun i => (stream f).getD i 0

def convert_header (big : Bool) (h : FONTHDR) : FONTHDR :=
  { h with
    magic := ntohl big h.magic
    lenght := ntohl big h.lenght
    header := ntohs big h.header
    height := ntohs big h.height
    flags := ntohs big h.flags
    styles := ntohs big h.styles
    thicken := ntohs big h.thicken
    skew := ntohs big h.skew
    effect_mask := ntohs big h.effect_mask
    baseline := ntohs big h.baseline
    maxwidth := ntohs big h.maxwidth }

def header_bytes (big : Bool) (h : FONTHDR) : List Byte :=
  storeLong big h.magic ++ (storeLong big h.lenght ++ (storeShort big h.header ++ (storeShort big h.height ++
    (storeShort big h.flags ++ (storeShort big h.styles ++ (storeShort big h.thicken ++ (storeShort big h.skew ++
      (storeShort big h.reserved ++ (storeShort big h.effect_mask ++ (storeShort big h.baseline ++ (storeShort big h.maxwidth ++
        h.family)))))))))))

def info_bytes (f : MEMFONT) : List Byte := if f.info = [] then [] else f.info ++ [0]

def saved_header (f : MEMFONT) : FONTHDR :=
  { check_widths f.widths f.hdr with
    magic := MAGIC
    header := BitVec.ofNat 16 (sizeof_FONTHDR + (info_bytes f).length)
    effect_mask := ~~~f.hdr.styles &&& F_STYLEMASK
    thicken := 1
    skew := 0xAAAA
    lenght := BitVec.ofNat 32 (4 * font_longs f.hdr.height.toNat f.widths) }

def save_font (big : Bool) (f : MEMFONT) : List Byte :=
  header_bytes big (convert_header big (saved_header f)) ++ (info_bytes f ++ (f.widths ++
    (map2stream f).flatMap fun x => storeLong big (ntohl big x)))

structure FONT where
  hdr : FONTHDR
  widths : List Byte
  offsets : Nat → Nat
  data : List (BitVec 32)

def read_header (big : Bool) (s : List Byte) : Option (FONTHDR × List Byte) :=
  (loadLong big s).bind fun (magic, s) =>
  (loadLong big s).bind fun (lenght, s) =>
  (loadShort big s).bind fun (header, s) =>
  (loadShort big s).bind fun (height, s) =>
  (loadShort big s).bind fun (flags, s) =>
  (loadShort big s).bind fun (styles, s) =>
  (loadShort big s).bind fun (thicken, s) =>
  (loadShort big s).bind fun (skew, s) =>
  (loadShort big s).bind fun (reserved, s) =>
  (loadShort big s).bind fun (effect_mask, s) =>
  (loadShort big s).bind fun (baseline, s) =>
  (loadShort big s).bind fun (maxwidth, s) =>
  if s.length < 16 then none
  else
    some
      (⟨magic, lenght, header, height, flags, styles, thicken, skew, reserved, effect_mask, baseline, maxwidth, s.take 16⟩,
        s.drop 16)

def read_longs (big : Bool) : Nat → List Byte → Option (List (BitVec 32))
  | 0, _ => some []
  | n + 1, s => do
    let (x, s) ← loadLong big s
    let l ← read_longs big n s
    some (x :: l)

def seek_info (header : BitVec 16) (file rest : List Byte) : List Byte :=
  if header = 0 then rest
  else if (sizeof_FONTHDR : Int) + header.toInt < 0 then rest
  else file.drop ((sizeof_FONTHDR : Int) + header.toInt).toNat

def offset (height : Nat) (widths : List Byte) (c : Nat) : Nat := ((List.range c).map fun i => char_longs height (width widths i)).sum

def load_font (big : Bool) (file : List Byte) : Option FONT :=
  (read_header big file).bind fun (h, rest) =>
    let isLittleEndian := decide (h.magic = 0x314e4657)
    if isLittleEndian = false ∧ h.magic ≠ MAGIC then none
    else
      let hdr := { convert_header big h with magic := h.magic, header := ntohs big h.header - BitVec.ofNat 16 sizeof_FONTHDR }
      let rest := seek_info hdr.header file rest
      if rest.length < 256 then none
      else
        let widths := rest.take 256
        let longs := offset hdr.height.toNat widths 256
        if BitVec.ofNat 32 (4 * longs) ≠ hdr.lenght then none
        else
          (read_longs big longs (rest.drop 256)).map fun data =>
            { hdr := hdr
              widths := widths
              offsets := offset hdr.height.toNat widths
              data := if isLittleEndian then data.map (ntohl big) else data }

end WWindowSystem.Wfnt

namespace WWindowSystem.Wfnt

variable {widths : List Byte} {c d : Nat}

theorem low_unused (h : c < first_char widths) : width widths c = 0 := by
  unfold first_char at h
  cases hf : (List.range 32).find? (fun idx => width widths idx != 0) with
  | none =>
    rw [hf] at h
    have hnone := List.find?_eq_none.mp hf c (List.mem_range.mpr h)
    simpa using hnone
  | some k =>
    rw [hf] at h
    have hk : c < k := h
    have hbefore := List.find?_range_eq_some.mp hf
    simpa using hbefore.2.2 c hk

theorem first_char_le (widths : List Byte) : first_char widths ≤ 32 := by
  unfold first_char
  cases hf : (List.range 32).find? (fun idx => width widths idx != 0) with
  | none => exact Nat.le_refl 32
  | some k =>
    have hk := List.mem_range.mp (List.mem_of_find?_eq_some hf)
    exact Nat.le_of_lt hk

/-- Where the loop from above is after `n` turns: at the lowest used character so far. -/
structure LastAt (widths : List Byte) (n last : Nat) : Prop where
  unused : ∀ i, 255 - n < i → i ≤ 255 → (last = 127 ∨ i < last) → width widths i = 0
  used : last = 127 ∨ (255 - n < last ∧ last ≤ 255 ∧ width widths last ≠ 0)

theorem last_char_at (widths : List Byte) (n : Nat) (hn : n ≤ 128) :
    LastAt widths n (((List.range n).map fun k => 255 - k).foldl (fun last idx => if width widths idx ≠ 0 then idx else last) 127) := by
  induction n with
  | zero => exact ⟨fun i h0 h1 _ => by omega, .inl rfl⟩
  | succ n ih =>
    have h := ih (by omega)
    rw [List.range_succ, List.map_append, List.foldl_append, List.map_singleton, List.foldl_cons, List.foldl_nil]
    generalize ((List.range n).map fun k => 255 - k).foldl (fun last idx => if width widths idx ≠ 0 then idx else last) 127 = last at h ⊢
    by_cases hu : width widths (255 - n) ≠ 0
    · rw [if_pos hu]
      exact ⟨fun i h0 h1 hi => by omega, .inr ⟨by omega, by omega, hu⟩⟩
    · rw [if_neg hu]
      refine ⟨fun i h0 h1 hi => ?_, ?_⟩
      · rcases Nat.lt_or_ge (255 - n) i with hlt | hge
        · exact h.unused i hlt h1 hi
        · obtain rfl : i = 255 - n := by omega
          exact not_not.mp hu
      · rcases h.used with h0 | h0
        · exact .inl h0
        · exact .inr ⟨by omega, h0.2⟩

theorem last_char_spec (widths : List Byte) : LastAt widths 128 (last_char widths) := last_char_at widths 128 (Nat.le_refl _)

def Seen (widths : List Byte) (c : Nat) : Prop := c < 128 ∨ ∀ i, 128 ≤ i → i < c → width widths i = 0

theorem scanned_char (hd : d < 256) (hu : width widths d ≠ 0) :
    first_char widths ≤ d ∧ d ≤ last_char widths ↔ Seen widths d := by
  have hlast := last_char_spec widths
  have hfirst : first_char widths ≤ d := by
    by_contra hlt
    exact hu (low_unused (by omega))
  constructor
  · rintro ⟨-, hle⟩
    by_cases hlow : d < 128
    · exact .inl hlow
    · refine .inr fun i h0 h1 => hlast.unused i (by omega) (by omega) ?_
      rcases hlast.used with h127 | hl
      · exact .inl h127
      · exact .inr (by omega)
  · intro hseen
    refine ⟨hfirst, ?_⟩
    by_contra hlt
    rcases hlast.used with h127 | hl
    · exact hu (hlast.unused d (by omega) (by omega) (.inl h127))
    · rcases hseen with hlow | hzero
      · omega
      · exact hl.2.2 (hzero _ (by omega) (by omega))

theorem mem_scanned {w : Nat} (hw : w ≠ 0) : w ∈ scanned widths ↔ ∃ d < 256, Seen widths d ∧ width widths d = w := by
  have hlast := last_char_spec widths
  have hle : last_char widths ≤ 255 := by
    rcases hlast.used with h | h <;> omega
  have hfirst := first_char_le widths
  have hlow : 127 ≤ last_char widths := by
    rcases hlast.used with h | h <;> omega
  simp only [scanned, List.mem_map, List.mem_range'_1]
  constructor
  · rintro ⟨d, hd, rfl⟩
    exact ⟨d, by omega, (scanned_char (by omega) hw).mp ⟨hd.1, by omega⟩, rfl⟩
  · rintro ⟨d, hd, hseen, rfl⟩
    have hrange := (scanned_char hd hw).mpr hseen
    exact ⟨d, by omega, rfl⟩

structure First (widths : List Byte) (a : Nat) : Prop where
  used : width widths a ≠ 0
  before : ∀ i < a, width widths i = 0

variable {a : Nat}

theorem First.seen (h : First widths a) : Seen widths a := .inr fun i _ hi => h.before i hi

variable (l : List Nat)

theorem fold_largest (s : Nat × Bool) :
    s.1 ≤ (l.foldl width_turn s).1 ∧ (∀ w ∈ l, w ≤ (l.foldl width_turn s).1) ∧
      ((l.foldl width_turn s).1 = s.1 ∨ (l.foldl width_turn s).1 ∈ l) := by
  induction l generalizing s with
  | nil => simp
  | cons w l ih =>
    rw [List.foldl_cons]
    obtain ⟨hle, hall, hmem⟩ := ih (width_turn s w)
    have hstep : s.1 ≤ (width_turn s w).1 ∧ w ≤ (width_turn s w).1 ∧ ((width_turn s w).1 = s.1 ∨ (width_turn s w).1 = w) := by
      unfold width_turn
      split
      · exact ⟨by dsimp only; omega, by dsimp only; omega, .inr rfl⟩
      · exact ⟨by omega, by omega, .inl rfl⟩
    refine ⟨by omega, ?_, ?_⟩
    · rw [List.forall_mem_cons]
      exact ⟨by omega, hall⟩
    · rcases hmem with hm | hm
      · rcases hstep.2.2 with hs | hs
        · exact .inl (hm.trans hs)
        · exact .inr (List.mem_cons.mpr (.inl (hm.trans hs)))
      · exact .inr (List.mem_cons_of_mem w hm)

theorem fold_prop (s : Nat × Bool) (hs : s.1 ≠ 0) :
    (l.foldl width_turn s).2 = true ↔ s.2 = true ∨ ∃ w ∈ l, s.1 < w := by
  induction l generalizing s with
  | nil => simp
  | cons w l ih =>
    rw [List.foldl_cons]
    by_cases hw : s.1 < w
    · have hturn : width_turn s w = (w, true) := by
        rw [width_turn, if_pos hw]
        simp [hs]
      rw [hturn, ih _ (by dsimp only; omega)]
      simp [hw]
    · have hturn : width_turn s w = s := if_neg hw
      rw [hturn, ih s hs]
      simp [hw]

theorem fold_zeros (h : ∀ w ∈ l, w = 0) (p : Bool) : l.foldl width_turn (0, p) = (0, p) := by
  induction l with
  | nil => rfl
  | cons w l ih =>
    rw [List.forall_mem_cons] at h
    rw [List.foldl_cons, h.1]
    exact ih h.2

theorem scanned_split (ha : a < 256) (h : First widths a) :
    ∃ zeros tail, scanned widths = zeros ++ width widths a :: tail ∧ ∀ w ∈ zeros, w = 0 := by
  have hrange := (scanned_char ha h.used).mpr h.seen
  refine ⟨(List.range' (first_char widths) (a - first_char widths)).map (width widths),
    (List.range' (a + 1) (last_char widths - a)).map (width widths), ?_, ?_⟩
  · have happend := List.range'_append_1 (s := first_char widths) (m := a - first_char widths) (n := last_char widths - a + 1)
    rw [show first_char widths + (a - first_char widths) = a by omega,
      show a - first_char widths + (last_char widths - a + 1) = last_char widths + 1 - first_char widths by omega] at happend
    rw [scanned, ← happend, List.map_append, List.range'_succ, List.map_cons]
  · intro w hw
    obtain ⟨i, hi, rfl⟩ := List.mem_map.mp hw
    rw [List.mem_range'_1] at hi
    exact h.before i (by omega)

theorem largest_spec (ha : a < 256) (h : First widths a) :
    (∃ d < 256, Seen widths d ∧ width widths d = ((scanned widths).foldl width_turn (0, false)).1) ∧
      (∀ d < 256, Seen widths d → width widths d ≤ ((scanned widths).foldl width_turn (0, false)).1) ∧
      (((scanned widths).foldl width_turn (0, false)).2 = true ↔ width widths a < ((scanned widths).foldl width_turn (0, false)).1) := by
  obtain ⟨-, hall, hmem⟩ := fold_largest (scanned widths) (0, false)
  have hle : ∀ d < 256, Seen widths d → width widths d ≤ ((scanned widths).foldl width_turn (0, false)).1 := by
    intro d hd hseen
    by_cases h0 : width widths d = 0
    · omega
    · exact hall _ ((mem_scanned h0).mpr ⟨d, hd, hseen, rfl⟩)
  have hpos : ((scanned widths).foldl width_turn (0, false)).1 ≠ 0 := by
    have hfirst := hle a ha h.seen
    have hused := h.used
    omega
  have hin : ((scanned widths).foldl width_turn (0, false)).1 ∈ scanned widths := hmem.resolve_left hpos
  refine ⟨(mem_scanned hpos).mp hin, hle, ?_⟩
  obtain ⟨zeros, tail, hsplit, hzeros⟩ := scanned_split ha h
  have hfold : (scanned widths).foldl width_turn (0, false) = tail.foldl width_turn (width widths a, false) := by
    rw [hsplit, List.foldl_append, fold_zeros zeros hzeros, List.foldl_cons]
    congr 1
    rw [width_turn, if_pos (Nat.pos_of_ne_zero h.used)]
    rfl
  have hprop := fold_prop tail (width widths a, false) h.used
  rw [hfold, hprop]
  obtain ⟨hge, hallt, hmemt⟩ := fold_largest tail (width widths a, false)
  dsimp only at hge hmemt ⊢
  constructor
  · rintro (hf | ⟨w, hw, hlt⟩)
    · cases hf
    · have hwle := hallt w hw
      omega
  · intro hlt
    rcases hmemt with hm | hm
    · omega
    · exact .inr ⟨_, hm, hlt⟩

end WWindowSystem.Wfnt
