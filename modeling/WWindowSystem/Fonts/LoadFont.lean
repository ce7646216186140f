import WWindowSystem.Fonts.Bdf2wfnt

namespace WWindowSystem.LoadFont

open Wfnt List

structure FONT where
  name : Option (List Byte)
  hdr : FONTHDR
  slant_size : Int
  slant_offset : Int
  widths : List Byte
  data : List (BitVec 32)
  offsets : Nat → Int
  numused : Int

structure Resources where
  files : Int
  blocks : Int
  deriving DecidableEq

def Resources.opened (r : Resources) : Resources := { r with files := r.files + 1 }

def Resources.closed (r : Resources) : Resources := { r with files := r.files - 1 }

def Resources.allocated (r : Resources) : Resources := { r with blocks := r.blocks + 1 }

def Resources.freed (r : Resources) : Resources := { r with blocks := r.blocks - 1 }

def slant_turn (baseline : Int) (s : BitVec 32 × Int × Int) (i : Nat) : BitVec 32 × Int × Int :=
  let (skew, width, offset) := s
  let width := if skew &&& 1 ≠ 0 then width + 1 else width
  let skew := if skew &&& 1 ≠ 0 then skew ||| 0x10000 else skew
  (skew >>> 1, width, if (i : Int) = baseline then short (-width) else offset)

def slanting (height baseline : Int) (skew : BitVec 16) (old : Int) : Int × Int :=
  let baseline := if baseline - 1 < 0 then 0 else if baseline - 1 ≥ height then height - 1 else baseline - 1
  let (_, width, offset) := (List.range height.toNat).foldl (slant_turn baseline) (skew.setWidth 32, 0, old)
  (short width, short (offset + width))

def glyph_longs (height : Int) (w : Nat) : Int := (w * height + 31) / 32

def longs_before (height : Int) (widths : List Byte) (c : Nat) : Int :=
  ((List.range c).map fun i => glyph_longs height (width widths i)).sum

def overwrite (old new : List Byte) : List Byte := new ++ old.drop new.length

def bogus (hdr : FONTHDR) : Prop := hdr.header.toInt < 0 ∨ hdr.height.toInt < 1 ∨ hdr.height.toInt > 300 ∨ hdr.baseline.toInt < 0

def converted (big : Bool) (h : FONTHDR) : FONTHDR :=
  { convert_header big h with magic := h.magic, header := ntohs big h.header - BitVec.ofNat 16 sizeof_FONTHDR }

def measured (hdr : FONTHDR) (widths : List Byte) (font : FONT) : FONT :=
  let slant := slanting hdr.height.toInt hdr.baseline.toInt hdr.skew font.slant_offset
  { font with hdr := hdr, slant_size := slant.1, slant_offset := slant.2, widths := widths, offsets := longs_before hdr.height.toInt widths }

/-- `file` is what the named file holds, when it can be opened, and `malloc` says whether a block of a size can be had. -/
def load_font (big : Bool) (malloc : Int → Bool) (font_h : Int) (fname : List Byte) (file : Option (List Byte))
    (r : Resources) (font : FONT) : Int × Resources × FONT :=
  -- the buffer for the path
  let r := r.allocated.freed
  match file with
  | none => (-1, r, font)
  | some file =>
    let r := r.opened
    match read_header big file with
    | none =>
      let hdr := (read_header big (overwrite (header_bytes big font.hdr) file)).elim font.hdr Prod.fst
      (-2, r.closed, { font with hdr := hdr })
    | some (h, rest) =>
      let isLittleEndian := decide (h.magic = 0x314e4657)
      if isLittleEndian = false ∧ h.magic ≠ MAGIC then (-3, r.closed, { font with hdr := h })
      else
        let hdr := converted big h
        -- a bogus header is reported and used
        let rest := seek_info hdr.header file rest
        if rest.length < 256 then (-4, r.closed, { measured hdr (overwrite font.widths rest) font with offsets := font.offsets })
        else
          let widths := rest.take 256
          let font := measured hdr widths font
          let longs := longs_before hdr.height.toInt widths 256
          let needs := 4 * longs
          if needs ≠ hdr.lenght.toInt ∨ malloc (needs + 4) = false then (-5, r.closed, font)
          else
            let r := r.allocated
            if needs < 0 then (-6, r.closed.freed, font)
            else
              match read_longs big longs.toNat (rest.drop 256) with
              | none => (-6, r.closed.freed, font)
              | some data =>
                let font := { font with data := if isLittleEndian then data.map (ntohl big) else data }
                (font_h, r.allocated.closed, { font with name := some fname, numused := 1 })

def Accepted (big : Bool) (malloc : Int → Bool) (file : List Byte) : Prop :=
  ∃ h rest, read_header big file = some (h, rest) ∧ (h.magic = 0x314e4657 ∨ h.magic = MAGIC) ∧
    256 ≤ (seek_info (converted big h).header file rest).length ∧
    4 * longs_before (converted big h).height.toInt ((seek_info (converted big h).header file rest).take 256) 256 = (converted big h).lenght.toInt ∧
    malloc ((converted big h).lenght.toInt + 4) = true ∧ 0 ≤ (converted big h).lenght.toInt ∧
    (read_longs big (longs_before (converted big h).height.toInt ((seek_info (converted big h).header file rest).take 256) 256).toNat
      ((seek_info (converted big h).header file rest).drop 256)).isSome = true

def HeaderValid (big : Bool) (file : List Byte) : Prop :=
  ∀ h rest, read_header big file = some (h, rest) → ¬ bogus (converted big h)

def slanted (skew : BitVec 16) (i : Nat) : Bool := skew.getLsbD (i % 16)

def base_row (height baseline : Int) : Int := min (max (baseline - 1) 0) (height - 1)

structure Usable (font : FONT) : Prop where
  header : 0 ≤ font.hdr.header.toInt
  height : 1 ≤ font.hdr.height.toInt ∧ font.hdr.height.toInt ≤ 300
  baseline : 0 ≤ font.hdr.baseline.toInt
  cells : ∀ c < 256, ∀ i : Int, 0 ≤ i → i < width font.widths c * font.hdr.height.toInt →
    0 ≤ font.offsets c ∧ 32 * font.offsets c + i < 32 * font.data.length
  slant_size : font.slant_size = ((List.range font.hdr.height.toInt.toNat).countP fun i => slanted font.hdr.skew i)
  slant_offset : font.slant_offset = ((List.range font.hdr.height.toInt.toNat).countP fun i =>
    slanted font.hdr.skew i && decide (base_row font.hdr.height.toInt font.hdr.baseline.toInt < i))
  slants : 0 ≤ font.slant_offset ∧ font.slant_offset ≤ font.slant_size

theorem longs_before_succ (height : Int) (widths : List Byte) (c : Nat) :
    longs_before height widths (c + 1) = longs_before height widths c + glyph_longs height (width widths c) := by
  rw [longs_before, range_succ, map_append, sum_append, map_singleton, sum_singleton]
  rfl

variable {height : Int}

theorem glyph_longs_nonneg (hh : 1 ≤ height) (w : Nat) : 0 ≤ glyph_longs height w := by
  have := Int.mul_nonneg (Int.natCast_nonneg w) (show (0 : Int) ≤ height by omega)
  unfold glyph_longs
  omega

theorem longs_before_mono (hh : 1 ≤ height) (widths : List Byte) {c d : Nat} (hcd : c ≤ d) :
    longs_before height widths c ≤ longs_before height widths d := by
  induction d with
  | zero => rw [Nat.le_zero.mp hcd]
  | succ d ih =>
    by_cases heq : c = d + 1
    · rw [heq]
    · have := ih (by omega)
      have := glyph_longs_nonneg hh (width widths d)
      rw [longs_before_succ]
      omega

theorem cell_inside (hh : 1 ≤ height) (widths : List Byte) {c : Nat} (hc : c < 256) {i : Int}
    (hi : i < width widths c * height) :
    0 ≤ longs_before height widths c ∧ 32 * longs_before height widths c + i < 32 * longs_before height widths 256 := by
  have hzero : longs_before height widths 0 = 0 := rfl
  have hlow := longs_before_mono hh widths (Nat.zero_le c)
  have hnext := longs_before_mono hh widths (show c + 1 ≤ 256 by omega)
  rw [longs_before_succ] at hnext
  unfold glyph_longs at hnext
  omega

variable {n : Nat}

theorem length_read_longs {big : Bool} {s : List Byte} {l : List (BitVec 32)} (h : read_longs big n s = some l) : l.length = n := by
  induction n generalizing s l with
  | zero =>
    cases h
    rfl
  | succ n ih =>
    simp only [read_longs, Option.bind_eq_bind, Option.bind_eq_some_iff] at h
    obtain ⟨⟨x, t⟩, -, l', hl', h⟩ := h
    cases h
    rw [length_cons, ih hl']

def moved (skew : BitVec 16) (n : Nat) : Nat := (List.range n).countP (slanted skew)

variable (skew : BitVec 16)

theorem moved_succ (n : Nat) : moved skew (n + 1) = moved skew n + if slanted skew n then 1 else 0 := by
  rw [moved, range_succ, countP_append, countP_singleton]
  rfl

theorem moved_le (n : Nat) : moved skew n ≤ n := by
  have h := countP_le_length (p := slanted skew) (l := List.range n)
  rwa [length_range] at h

theorem moved_split {b n : Nat} (hb : b < n) :
    ((List.range n).countP fun i => slanted skew i && decide (b < i)) + moved skew (b + 1) = moved skew n := by
  induction n, hb using Nat.le_induction with
  | base =>
    rw [countP_eq_zero.mpr, Nat.zero_add]
    intro i hi
    have := mem_range.mp hi
    simp only [Bool.and_eq_true, decide_eq_true_eq, not_and]
    omega
  | succ n hn ih =>
    have hbn : decide (b < n) = true := decide_eq_true hn
    rw [range_succ, countP_append, countP_singleton, moved_succ skew n, ← ih, hbn, Bool.and_true]
    omega

variable {s : BitVec 32}

theorem skew_bit {skew : BitVec 16} (h : ∀ j, s.getLsbD j = (decide (j < 16) && slanted skew (n + j))) :
    s &&& 1 ≠ 0 ↔ slanted skew n = true := by
  have h0 := h 0
  simp only [Nat.add_zero, Nat.zero_lt_succ, decide_true, Bool.true_and] at h0
  rw [← h0, Ne, ← not_iff_not, not_not, Bool.not_eq_true]
  have hone : s &&& 1 = if s.getLsbD 0 then 1 else 0 := by
    ext i hi
    by_cases hi0 : i = 0
    · subst hi0
      by_cases hs : s.getLsbD 0 <;> simp_all
    · by_cases hs : s.getLsbD 0 <;> simp_all
  rw [hone]
  by_cases hs : s.getLsbD 0 <;> simp [hs]

theorem skew_turn {skew : BitVec 16} (h : ∀ j, s.getLsbD j = (decide (j < 16) && slanted skew (n + j))) (j : Nat) :
    ((if s &&& 1 ≠ 0 then s ||| 0x10000 else s) >>> 1).getLsbD j = (decide (j < 16) && slanted skew (n + 1 + j)) := by
  have hbit : s &&& 1 ≠ 0 ↔ slanted skew n = true := skew_bit h
  have hten : (0x10000 : BitVec 32).getLsbD (1 + j) = decide (j = 15) := by
    rw [show (0x10000 : BitVec 32) = BitVec.twoPow 32 16 by decide, BitVec.getLsbD_twoPow]
    by_cases hj : j = 15
    · subst hj
      rfl
    · simp [hj, show ¬ 16 = 1 + j by omega]
  have hnext : s.getLsbD (1 + j) = (decide (j < 15) && slanted skew (n + 1 + j)) := by
    rw [h, show n + (1 + j) = n + 1 + j by omega]
    congr 1
    simp only [decide_eq_decide]
    omega
  rw [BitVec.getLsbD_ushiftRight]
  by_cases hs : s &&& 1 ≠ 0
  · rw [if_pos hs, BitVec.getLsbD_or, hten, hnext]
    by_cases hj : j = 15
    · subst hj
      have hmod : slanted skew (n + 1 + 15) = slanted skew n := by
        unfold slanted
        rw [show n + 1 + 15 = n + 16 by omega, Nat.add_mod_right]
      simp [hmod, hbit.mp hs]
    · simp [hj, show j < 15 ↔ j < 16 by omega]
  · rw [if_neg hs, hnext]
    by_cases hj : j = 15
    · subst hj
      have hmod : slanted skew (n + 1 + 15) = slanted skew n := by
        unfold slanted
        rw [show n + 1 + 15 = n + 16 by omega, Nat.add_mod_right]
      have hno : slanted skew n = false := Bool.eq_false_iff.mpr fun h => hs (hbit.mpr h)
      simp [hmod, hno]
    · simp [show j < 15 ↔ j < 16 by omega]

theorem slant_rows (b : Nat) (old : Int) (n : Nat) :
    (∀ j, ((List.range n).foldl (slant_turn b) (skew.setWidth 32, 0, old)).1.getLsbD j = (decide (j < 16) && slanted skew (n + j))) ∧
      ((List.range n).foldl (slant_turn b) (skew.setWidth 32, 0, old)).2.1 = moved skew n ∧
      ((List.range n).foldl (slant_turn b) (skew.setWidth 32, 0, old)).2.2 = if b < n then short (-(moved skew (b + 1))) else old := by
  induction n with
  | zero =>
    refine ⟨fun j => ?_, rfl, rfl⟩
    rw [range_zero, foldl_nil, BitVec.getLsbD_setWidth, Nat.zero_add]
    by_cases hj : j < 16
    · simp [hj, slanted, Nat.mod_eq_of_lt hj, show j < 32 by omega]
    · simp [hj, BitVec.getLsbD_of_ge skew j (by omega)]
  | succ n ih =>
    obtain ⟨hbits, hwidth, hoffset⟩ := ih
    rw [range_succ, foldl_append, foldl_cons, foldl_nil]
    generalize (List.range n).foldl (slant_turn b) (skew.setWidth 32, 0, old) = s at hbits hwidth hoffset ⊢
    obtain ⟨sk, w, o⟩ := s
    have hbit : sk &&& 1 ≠ 0 ↔ slanted skew n = true := skew_bit hbits
    have hw : (if sk &&& 1 ≠ 0 then w + 1 else w) = moved skew (n + 1) := by
      rw [moved_succ, show w = moved skew n from hwidth, if_congr hbit rfl rfl]
      split_ifs
      · rfl
      · rfl
    refine ⟨fun j => skew_turn hbits j, hw, ?_⟩
    change (if (n : Int) = b then short (-(if sk &&& 1 ≠ 0 then w + 1 else w)) else o) = _
    rw [hw, show o = _ from hoffset]
    rcases Nat.lt_trichotomy b n with h | rfl | h
    · rw [if_neg (by omega), if_pos h, if_pos (by omega)]
    · rw [if_pos rfl, if_pos (by omega)]
    · rw [if_neg (by omega), if_neg (by omega), if_neg (by omega)]

theorem slanting_eq (baseline : Int) (hh : 1 ≤ height ∧ height ≤ 300) (skew : BitVec 16) (old : Int) :
    slanting height baseline skew old = (((moved skew height.toNat : Nat) : Int),
      (((List.range height.toNat).countP fun i => slanted skew i && decide (base_row height baseline < i) : Nat) : Int)) := by
  have hbase : (if baseline - 1 < 0 then 0 else if baseline - 1 ≥ height then height - 1 else baseline - 1) = (((base_row height baseline).toNat : Nat) : Int) := by
    unfold base_row
    split_ifs <;> omega
  have hb : (base_row height baseline).toNat < height.toNat := by
    unfold base_row
    omega
  have hcast : ∀ i : Nat, decide (base_row height baseline < i) = decide ((base_row height baseline).toNat < i) := by
    intro i
    unfold base_row
    simp only [decide_eq_decide]
    omega
  obtain ⟨-, hwidth, hoffset⟩ := slant_rows skew (base_row height baseline).toNat old height.toNat
  have hsplit := moved_split skew hb
  have hle := moved_le skew height.toNat
  have hle' := moved_le skew ((base_row height baseline).toNat + 1)
  rw [if_pos hb, short_of_range (by omega) (by omega)] at hoffset
  unfold slanting
  rw [hbase]
  simp only [hwidth, hoffset, hcast]
  rw [short_of_range (by omega) (by omega), short_of_range (by omega) (by omega)]
  congr 1
  omega

section Load

variable {big : Bool} {malloc : Int → Bool} {font_h : Int} {fname file : List Byte} {r : Resources} {font : FONT}

theorem released (r : Resources) : r.allocated.freed = r ∧ r.opened.closed = r ∧ r.opened.allocated.closed.freed = r := by
  obtain ⟨files, blocks⟩ := r
  simp [Resources.allocated, Resources.freed, Resources.opened, Resources.closed]

structure Refused (r : Resources) (font : FONT) (out : Int × Resources × FONT) : Prop where
  code : out.1 < 0
  resources : out.2.1 = r
  numused : out.2.2.numused = font.numused

variable (font_h fname r font) in
theorem load_refused (hno : ¬ Accepted big malloc file) : Refused r font (load_font big malloc font_h fname (some file) r font) := by
  obtain ⟨hfreed, hclosed, hboth⟩ := released r
  unfold load_font
  simp only [hfreed]
  cases hread : read_header big file with
  | none => exact ⟨by simp, hclosed, rfl⟩
  | some p =>
    obtain ⟨h, rest⟩ := p
    simp only
    by_cases hmagic : decide (h.magic = 0x314e4657) = false ∧ h.magic ≠ MAGIC
    · rw [if_pos hmagic]
      exact ⟨by simp, hclosed, rfl⟩
    · rw [if_neg hmagic]
      by_cases hlen : (seek_info (converted big h).header file rest).length < 256
      · rw [if_pos hlen]
        exact ⟨by simp, hclosed, rfl⟩
      · rw [if_neg hlen]
        by_cases hneeds : 4 * longs_before (converted big h).height.toInt ((seek_info (converted big h).header file rest).take 256) 256 ≠ (converted big h).lenght.toInt ∨
            malloc (4 * longs_before (converted big h).height.toInt ((seek_info (converted big h).header file rest).take 256) 256 + 4) = false
        · rw [if_pos hneeds]
          exact ⟨by simp, hclosed, rfl⟩
        · rw [if_neg hneeds]
          by_cases hneg : 4 * longs_before (converted big h).height.toInt ((seek_info (converted big h).header file rest).take 256) 256 < 0
          · rw [if_pos hneg]
            exact ⟨by simp, hboth, rfl⟩
          · rw [if_neg hneg]
            rw [not_or, not_not, Bool.not_eq_false] at hneeds
            cases hdata : read_longs big (longs_before (converted big h).height.toInt ((seek_info (converted big h).header file rest).take 256) 256).toNat
                ((seek_info (converted big h).header file rest).drop 256) with
            | none => exact ⟨by simp, hboth, rfl⟩
            | some data =>
              refine absurd ⟨h, rest, hread, ?_, by omega, hneeds.1, hneeds.1 ▸ hneeds.2, by omega, by rw [hdata]; rfl⟩ hno
              by_contra hbad
              rw [not_or] at hbad
              exact hmagic ⟨decide_eq_false hbad.1, hbad.2⟩

variable (font_h fname r font) in
theorem load_accepted (hyes : Accepted big malloc file) : ∃ h rest data, read_header big file = some (h, rest) ∧
    data.length = (longs_before (converted big h).height.toInt ((seek_info (converted big h).header file rest).take 256) 256).toNat ∧
    (load_font big malloc font_h fname (some file) r font).1 = font_h ∧
    (load_font big malloc font_h fname (some file) r font).2.2 =
      { measured (converted big h) ((seek_info (converted big h).header file rest).take 256) font with
        data := data, name := some fname, numused := 1 } := by
  obtain ⟨h, rest, hread, hmagic, hlen, hneeds, hmalloc, hpos, hsome⟩ := hyes
  obtain ⟨data, hdata⟩ := Option.isSome_iff_exists.mp hsome
  have hlength := length_read_longs hdata
  have hmagic' : ¬ (decide (h.magic = 0x314e4657) = false ∧ h.magic ≠ MAGIC) := by
    rintro ⟨h1, h2⟩
    exact (of_decide_eq_false h1) (hmagic.resolve_right h2)
  have hbad : ¬ (4 * longs_before (converted big h).height.toInt ((seek_info (converted big h).header file rest).take 256) 256 ≠
      (converted big h).lenght.toInt ∨
      malloc (4 * longs_before (converted big h).height.toInt ((seek_info (converted big h).header file rest).take 256) 256 + 4) = false) := by
    rw [hneeds, hmalloc]
    simp
  have hneg : ¬ 4 * longs_before (converted big h).height.toInt ((seek_info (converted big h).header file rest).take 256) 256 < 0 := by
    omega
  refine ⟨h, rest, if decide (h.magic = 0x314e4657) then data.map (ntohl big) else data, hread, ?_, ?_⟩
  · split_ifs
    · rw [length_map, hlength]
    · exact hlength
  · unfold load_font
    simp only [hread]
    rw [if_neg hmagic', if_neg (Nat.not_lt.mpr hlen)]
    rw [if_neg hbad, if_neg hneg]
    simp only [hdata]
    exact ⟨trivial, trivial⟩

theorem measured_usable {hdr : FONTHDR} (hvalid : ¬ bogus hdr) (widths : List Byte) (font : FONT) {data : List (BitVec 32)}
    (hdata : data.length = (longs_before hdr.height.toInt widths 256).toNat) :
    Usable { measured hdr widths font with data := data, name := some fname, numused := 1 } := by
  simp only [bogus, not_or, Int.not_lt] at hvalid
  obtain ⟨hheader, hlow, hhigh, hbase⟩ := hvalid
  have hslant := slanting_eq hdr.baseline.toInt ⟨hlow, hhigh⟩ hdr.skew font.slant_offset
  have hcells (c : Nat) (hc : c < 256) (i : Int) (hi : i < width widths c * hdr.height.toInt) := cell_inside hlow widths hc hi
  refine ⟨hheader, ⟨hlow, hhigh⟩, hbase, ?_, congrArg Prod.fst hslant, congrArg Prod.snd hslant, ?_⟩
  · intro c hc i _ hi
    obtain ⟨h1, h2⟩ := hcells c hc i hi
    change 0 ≤ longs_before hdr.height.toInt widths c ∧ 32 * longs_before hdr.height.toInt widths c + i < 32 * data.length
    omega
  · change 0 ≤ (slanting hdr.height.toInt hdr.baseline.toInt hdr.skew font.slant_offset).2 ∧
      (slanting hdr.height.toInt hdr.baseline.toInt hdr.skew font.slant_offset).2 ≤
        (slanting hdr.height.toInt hdr.baseline.toInt hdr.skew font.slant_offset).1
    rw [hslant]
    refine ⟨Int.natCast_nonneg _, Int.ofNat_le.mpr (countP_mono_left fun i _ h => ?_)⟩
    simp only [Bool.and_eq_true] at h
    exact h.1

structure Sound (r : Resources) (font : FONT) (out : Int × Resources × FONT) : Prop where
  loaded : 0 ≤ out.1 → Usable out.2.2
  refused : out.1 < 0 → out.2.2.numused = font.numused ∧ out.2.1 = r

/-- `load_font` keeps its promises unless a file with a bogus header passes all other checks. -/
theorem load_font_sound (big : Bool) (malloc : Int → Bool) (font_h : Int) (fname : List Byte) (file : Option (List Byte)) (r : Resources)
    (font : FONT) (hfont : 0 ≤ font_h) : Sound r font (load_font big malloc font_h fname file r font) ↔
      ∀ content, file = some content → Accepted big malloc content → HeaderValid big content := by
  cases file with
  | none =>
    refine iff_of_true ⟨fun h => ?_, fun _ => ⟨rfl, (released r).1⟩⟩ (by simp)
    exact absurd h (by simp [load_font])
  | some content =>
    by_cases hacc : Accepted big malloc content
    · obtain ⟨h, rest, data, hread, hlength, hcode, hslot⟩ := load_accepted font_h fname r font hacc
      constructor
      · intro hsound content' hcontent _ h' rest' hread'
        cases hcontent
        rw [hread] at hread'
        cases hread'
        have hused := hsound.loaded (by rw [hcode]; exact hfont)
        rw [hslot] at hused
        obtain ⟨hheader, hheight, hbaseline, -⟩ := hused
        rintro (hb | hb | hb | hb)
        · exact absurd hheader (Int.not_le.mpr hb)
        · exact absurd hheight.1 (Int.not_le.mpr hb)
        · exact absurd hheight.2 (Int.not_le.mpr hb)
        · exact absurd hbaseline (Int.not_le.mpr hb)
      · intro hvalid
        refine ⟨fun _ => ?_, fun hneg => ?_⟩
        · rw [hslot]
          exact measured_usable (hvalid content rfl hacc h rest hread) _ font hlength
        · rw [hcode] at hneg
          omega
    · have href := load_refused font_h fname r font hacc
      refine iff_of_true ⟨fun h => ?_, fun _ => ⟨href.numused, href.resources⟩⟩ ?_
      · have := href.code
        omega
      · intro content' hcontent hacc'
        cases hcontent
        exact absurd hacc' hacc

end Load

def plainFile (height : BitVec 16) : List Byte :=
  header_bytes true ⟨MAGIC, 0, 44, height, 0, 0, 1, 0xAAAA, 0, 0x1f, 1, 0, List.replicate 16 0⟩ ++ List.replicate 256 0

def emptySlot : FONT := ⟨none, ⟨0, 0, 0, 0, 0, 0, 0, 0, 0, 0, 0, 0, List.replicate 16 0⟩, 0, 0, List.replicate 256 0, [], fun _ => 0, 0⟩

theorem load_font_sound_plain : Sound ⟨0, 0⟩ emptySlot (load_font true (fun _ => true) 0 [] (some (plainFile 8)) ⟨0, 0⟩ emptySlot) := by
  refine (load_font_sound true (fun _ => true) 0 [] (some (plainFile 8)) ⟨0, 0⟩ emptySlot (by decide)).mpr ?_
  intro content hcontent _ h rest hread
  have hheader : (read_header true (plainFile 8)).map (fun p => (converted true p.1).header.toInt) = some 0 ∧
      (read_header true (plainFile 8)).map (fun p => (converted true p.1).height.toInt) = some 8 ∧
      (read_header true (plainFile 8)).map (fun p => (converted true p.1).baseline.toInt) = some 1 := by
    decide +kernel
  cases hcontent
  simp only [hread, Option.map_some, Option.some.injEq] at hheader
  unfold bogus
  omega

/-- A height of 0 is reported, and the font is loaded. -/
theorem bogus_header_loaded : (load_font true (fun _ => true) 0 [] (some (plainFile 0)) ⟨0, 0⟩ emptySlot).1 = 0 ∧
    ¬ Sound ⟨0, 0⟩ emptySlot (load_font true (fun _ => true) 0 [] (some (plainFile 0)) ⟨0, 0⟩ emptySlot) := by
  have hrun : (load_font true (fun _ => true) 0 [] (some (plainFile 0)) ⟨0, 0⟩ emptySlot).1 = 0 ∧
      (load_font true (fun _ => true) 0 [] (some (plainFile 0)) ⟨0, 0⟩ emptySlot).2.2.hdr.height.toInt = 0 := by
    decide +kernel
  refine ⟨hrun.1, fun hsound => ?_⟩
  have hheight := (hsound.loaded hrun.1.ge).height.1
  rw [hrun.2] at hheight
  omega

end WWindowSystem.LoadFont
