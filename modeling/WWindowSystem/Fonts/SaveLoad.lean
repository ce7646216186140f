import WWindowSystem.Fonts.Bdf2wfnt

namespace WWindowSystem.Wfnt

open Packing

variable {widths : List Byte} {c : Nat}

theorem mask_at : ∀ w < 33, ∀ k < w, (1#32 <<< (w - 1)) >>> k = BitVec.twoPow 32 (w - 1 - k) := by decide +kernel

theorem test_bit {x : BitVec 32} {w k : Nat} (hk : k < w) (hw : w ≤ 32) :
    decide (x &&& ((1#32 <<< (w - 1)) >>> k) ≠ 0) = x.getLsbD (w - 1 - k) := by
  rw [mask_at w (by omega) k hk, BitVec.and_twoPow]
  cases h : x.getLsbD (w - 1 - k) with
  | false => simp
  | true =>
    apply decide_eq_true
    intro h0
    have hbit := congrArg (fun v => v.getLsbD (w - 1 - k)) h0
    simp at hbit
    omega

def line_bits (w : Nat) (x : BitVec 32) : List Bool := (List.range w).map fun k => x.getLsbD (w - 1 - k)

def glyph_bits (height w : Nat) (rows : Nat → BitVec 32) : List Bool := (List.range height).flatMap fun y => line_bits w (rows y)

theorem length_line_bits (w : Nat) (x : BitVec 32) : (line_bits w x).length = w := by
  rw [line_bits, List.length_map, List.length_range]

theorem length_glyph_bits (height w : Nat) (rows : Nat → BitVec 32) : (glyph_bits height w rows).length = w * height := by
  induction height with
  | zero => rfl
  | succ n ih =>
    rw [glyph_bits, List.range_succ, List.flatMap_append, List.length_append]
    rw [glyph_bits] at ih
    rw [ih, List.flatMap_singleton, length_line_bits, Nat.mul_succ]

theorem glyph_bit {height w x y : Nat} {rows : Nat → BitVec 32} (hy : y < height) (hx : x < w) :
    (glyph_bits height w rows).getD (y * w + x) false = (rows y).getLsbD (w - 1 - x) := by
  induction height with
  | zero => omega
  | succ n ih =>
    have hsplit : glyph_bits (n + 1) w rows = glyph_bits n w rows ++ line_bits w (rows n) := by
      rw [glyph_bits, List.range_succ, List.flatMap_append, List.flatMap_singleton]
      rfl
    have hlen := length_glyph_bits n w rows
    rw [hsplit]
    rcases Nat.lt_or_ge y n with hlt | hge
    · have hin : y * w + x < (glyph_bits n w rows).length := by
        rw [hlen, Nat.mul_comm w n]
        calc y * w + x < y * w + w := by omega
          _ = (y + 1) * w := by rw [Nat.succ_mul]
          _ ≤ n * w := Nat.mul_le_mul_right w hlt
      rw [List.getD_append _ _ _ _ hin]
      exact ih hlt
    · obtain rfl : y = n := by omega
      have hstart : y * w + x - w * y = x := by
        rw [Nat.mul_comm w y]
        omega
      rw [List.getD_append_right _ _ _ _ (by rw [hlen, Nat.mul_comm w y]; omega), hlen, hstart]
      simp [line_bits, hx]

theorem line_holds {s : Stream} {bits : List Bool} (h : Holds s bits) {w : Nat} (hw : w ≤ 32) (x : BitVec 32) :
    Holds ((List.range w).foldl (fun s k => s.put (decide (x &&& ((1#32 <<< (w - 1)) >>> k) ≠ 0))) s) (bits ++ line_bits w x) := by
  have hputs := h.puts (line_bits w x)
  rw [line_bits, List.foldl_map] at hputs
  have hsame : (List.range w).foldl (fun s k => s.put (decide (x &&& ((1#32 <<< (w - 1)) >>> k) ≠ 0))) s =
      (List.range w).foldl (fun s k => Stream.put s (x.getLsbD (w - 1 - k))) s := by
    apply List.foldl_ext
    intro t k hk
    rw [test_bit (List.mem_range.mp hk) hw]
  rw [hsame]
  exact hputs

theorem char_stream_holds {w : Nat} (hw : w ≤ 32) (height : Nat) (rows : Nat → BitVec 32) :
    Holds (char_stream height w rows) (glyph_bits height w rows) := by
  induction height with
  | zero => exact Holds.start
  | succ n ih =>
    have hline := line_holds ih hw (rows n)
    rw [char_stream, List.range_succ, List.foldl_append, List.foldl_cons, List.foldl_nil]
    rw [glyph_bits, List.range_succ, List.flatMap_append, List.flatMap_singleton]
    exact hline

theorem char_words_spec {w : Nat} (hw : w ≤ 32) (height : Nat) (rows : Nat → BitVec 32) :
    (char_words height w rows).length = char_longs height w ∧
      ∀ i < w * height, bitAt (char_words height w rows) i = (glyph_bits height w rows).getD i false := by
  unfold char_words
  by_cases h0 : w = 0
  · subst h0
    rw [if_pos rfl]
    exact ⟨by simp [char_longs], fun i hi => by omega⟩
  · rw [if_neg h0]
    have hflush := (char_stream_holds hw height rows).flush
    rw [length_glyph_bits] at hflush
    exact ⟨hflush.1, fun i _ => hflush.2 i⟩

theorem offset_succ (height : Nat) (widths : List Byte) (c : Nat) :
    offset height widths (c + 1) = offset height widths c + char_longs height (width widths c) := by
  rw [offset, List.range_succ, List.map_append, List.sum_append, offset]
  simp

variable (f : MEMFONT)

def words (n : Nat) : List (BitVec 32) :=
  (List.range n).flatMap fun c => char_words f.hdr.height.toNat (width f.widths c) fun y => f.map (c * f.hdr.height.toNat + y)

theorem words_succ (n : Nat) :
    words f (n + 1) = words f n ++ char_words f.hdr.height.toNat (width f.widths n) (fun y => f.map (n * f.hdr.height.toNat + y)) := by
  rw [words, List.range_succ, List.flatMap_append, List.flatMap_singleton, words]

theorem length_words (n : Nat) : (words f n).length = offset f.hdr.height.toNat f.widths n := by
  induction n with
  | zero => rfl
  | succ n ih =>
    have hspec := char_words_spec (w := width f.widths n) (f.width_le n) f.hdr.height.toNat (fun y => f.map (n * f.hdr.height.toNat + y))
    rw [words_succ, List.length_append, ih, offset_succ, hspec.1]

theorem map2stream_eq : map2stream f = words f 256 := by
  have hlen : font_longs f.hdr.height.toNat f.widths = (words f 256).length := (length_words f 256).symm
  apply List.ext_getElem
  · rw [map2stream, List.length_map, List.length_range, hlen]
  · intro i h1 h2
    rw [← List.getD_eq_getElem (words f 256) 0 h2]
    simp [map2stream]
    rfl

theorem words_bit {c n i : Nat} (hc : c < n) (hi : i < width f.widths c * f.hdr.height.toNat) :
    bitAt ((words f n).drop (offset f.hdr.height.toNat f.widths c)) i =
      (glyph_bits f.hdr.height.toNat (width f.widths c) (fun y => f.map (c * f.hdr.height.toNat + y))).getD i false := by
  have hspec := char_words_spec (w := width f.widths c) (f.width_le c) f.hdr.height.toNat (fun y => f.map (c * f.hdr.height.toNat + y))
  have hlong : i / 32 < char_longs f.hdr.height.toNat (width f.widths c) := by
    unfold char_longs
    omega
  have hroom : ∀ n, c < n → offset f.hdr.height.toNat f.widths c + char_longs f.hdr.height.toNat (width f.widths c) ≤ (words f n).length := by
    intro n hn
    rw [length_words, ← offset_succ]
    induction n, hn using Nat.le_induction with
    | base => exact Nat.le_refl _
    | succ n _ ih =>
      have hnext := offset_succ f.hdr.height.toNat f.widths n
      omega
  induction n, hc using Nat.le_induction with
  | base =>
    rw [words_succ, ← length_words, List.drop_left]
    exact hspec.2 i hi
  | succ n hn ih =>
    have hfit := hroom n hn
    rw [words_succ, List.drop_append_of_le_length (by omega), bitAt_left (by rw [List.length_drop]; omega)]
    exact ih

end WWindowSystem.Wfnt

namespace WWindowSystem.Wfnt

open Packing

variable {big : Bool} {s : List Byte}

theorem ntohs_ntohs (big : Bool) (x : BitVec 16) : ntohs big (ntohs big x) = x := by
  cases big with
  | true => rfl
  | false =>
    apply BitVec.eq_of_getLsbD_eq
    intro i hi
    interval_cases i <;> simp [ntohs]

theorem storeLong_ntohl (big : Bool) (x : BitVec 32) : storeLong big (ntohl big x) = storeLong true x := by
  cases big with
  | true => rfl
  | false =>
    simp only [storeLong, Bool.false_eq_true, if_false, if_true]
    congr 1
    · apply BitVec.eq_of_getLsbD_eq
      intro i hi
      interval_cases i <;> simp [ntohl]
    · congr 1
      · apply BitVec.eq_of_getLsbD_eq
        intro i hi
        interval_cases i <;> simp [ntohl]
      · congr 1
        · apply BitVec.eq_of_getLsbD_eq
          intro i hi
          interval_cases i <;> simp [ntohl]
        · congr 1
          apply BitVec.eq_of_getLsbD_eq
          intro i hi
          interval_cases i <;> simp [ntohl]

theorem storeShort_ntohs (big : Bool) (x : BitVec 16) : storeShort big (ntohs big x) = storeShort true x := by
  cases big with
  | true => rfl
  | false =>
    simp only [storeShort, Bool.false_eq_true, if_false, if_true]
    congr 1
    · apply BitVec.eq_of_getLsbD_eq
      intro i hi
      interval_cases i <;> simp [ntohs]
    · congr 1
      apply BitVec.eq_of_getLsbD_eq
      intro i hi
      interval_cases i <;> simp [ntohs]

theorem loadLong_file (big : Bool) (x : BitVec 32) (s : List Byte) : loadLong big (storeLong true x ++ s) = some (ntohl big x, s) := by
  rw [← storeLong_ntohl big x]
  exact load_storeLong big _ s

theorem loadShort_file (big : Bool) (x : BitVec 16) (s : List Byte) : loadShort big (storeShort true x ++ s) = some (ntohs big x, s) := by
  rw [← storeShort_ntohs big x]
  exact load_storeShort big _ s

theorem loadLong_bind {α : Type} (big : Bool) (x : BitVec 32) (s : List Byte) (k : BitVec 32 × List Byte → Option α) :
    (loadLong big (storeLong true x ++ s)).bind k = k (ntohl big x, s) := by
  rw [loadLong_file, Option.bind_some]

theorem loadShort_bind {α : Type} (big : Bool) (x : BitVec 16) (s : List Byte) (k : BitVec 16 × List Byte → Option α) :
    (loadShort big (storeShort true x ++ s)).bind k = k (ntohs big x, s) := by
  rw [loadShort_file, Option.bind_some]

theorem header_file (big : Bool) (h : FONTHDR) :
    header_bytes big (convert_header big h) = header_bytes true { h with reserved := ntohs big h.reserved } := by
  have hreserved : storeShort big h.reserved = storeShort true (ntohs big h.reserved) := by
    rw [← storeShort_ntohs big (ntohs big h.reserved), ntohs_ntohs]
  simp only [header_bytes, convert_header, storeLong_ntohl, storeShort_ntohs, hreserved]

theorem length_header (h : FONTHDR) (hfamily : h.family.length = 16) : (header_bytes true h).length = sizeof_FONTHDR := by
  simp only [header_bytes, List.length_append, length_storeLong, length_storeShort, hfamily, sizeof_FONTHDR]

theorem read_header_file (big : Bool) (h : FONTHDR) (hfamily : h.family.length = 16) (s : List Byte) :
    read_header big (header_bytes true h ++ s) = some ({ convert_header big h with reserved := ntohs big h.reserved }, s) := by
  have hlen : ¬ (h.family ++ s).length < 16 := by
    rw [List.length_append]
    omega
  have htake : (h.family ++ s).take 16 = h.family := by rw [← hfamily, List.take_left]
  have hdrop : (h.family ++ s).drop 16 = s := by rw [← hfamily, List.drop_left]
  have happend : header_bytes true h ++ s =
      storeLong true h.magic ++ (storeLong true h.lenght ++ (storeShort true h.header ++ (storeShort true h.height ++
        (storeShort true h.flags ++ (storeShort true h.styles ++ (storeShort true h.thicken ++ (storeShort true h.skew ++
          (storeShort true h.reserved ++ (storeShort true h.effect_mask ++ (storeShort true h.baseline ++
            (storeShort true h.maxwidth ++ (h.family ++ s)))))))))))) := by
    simp only [header_bytes, List.append_assoc]
  rw [happend]
  unfold read_header
  rw [loadLong_bind]
  dsimp only
  rw [loadLong_bind]
  dsimp only
  rw [loadShort_bind]
  dsimp only
  rw [loadShort_bind]
  dsimp only
  rw [loadShort_bind]
  dsimp only
  rw [loadShort_bind]
  dsimp only
  rw [loadShort_bind]
  dsimp only
  rw [loadShort_bind]
  dsimp only
  rw [loadShort_bind]
  dsimp only
  rw [loadShort_bind]
  dsimp only
  rw [loadShort_bind]
  dsimp only
  rw [loadShort_bind]
  dsimp only
  rw [if_neg hlen, htake, hdrop]
  rfl

theorem read_longs_file (big : Bool) (l : List (BitVec 32)) :
    read_longs big l.length (l.flatMap fun x => storeLong true x) = some (l.map (ntohl big)) := by
  induction l with
  | nil => rfl
  | cons x l ih =>
    rw [List.length_cons, read_longs, List.flatMap_cons]
    simp only [loadLong_file, Option.bind_eq_bind, Option.bind_some, ih, List.map_cons]

variable (f : MEMFONT)

def tail_bytes : List Byte := f.widths ++ (map2stream f).flatMap fun x => storeLong true x

theorem seek_saved (h : FONTHDR) (hfamily : h.family.length = 16) (hinfo : (info_bytes f).length < 32768) :
    seek_info (BitVec.ofNat 16 (info_bytes f).length) (header_bytes true h ++ (info_bytes f ++ tail_bytes f)) (info_bytes f ++ tail_bytes f) =
      tail_bytes f := by
  have hnat : (BitVec.ofNat 16 (info_bytes f).length).toNat = (info_bytes f).length := by
    rw [BitVec.toNat_ofNat, Nat.mod_eq_of_lt (by omega)]
  have hint : (BitVec.ofNat 16 (info_bytes f).length).toInt = (info_bytes f).length := by
    rw [BitVec.toInt_eq_toNat_of_lt (by rw [hnat]; omega), hnat]
  unfold seek_info
  by_cases h0 : BitVec.ofNat 16 (info_bytes f).length = 0
  · rw [if_pos h0]
    have hzero : (info_bytes f).length = 0 := by
      rw [← hnat, h0]
      rfl
    rw [List.eq_nil_of_length_eq_zero hzero, List.nil_append]
  · rw [if_neg h0, hint, if_neg (by omega)]
    have hat : ((sizeof_FONTHDR : Int) + (info_bytes f).length).toNat = (header_bytes true h ++ info_bytes f).length := by
      rw [List.length_append, length_header h hfamily]
      omega
    rw [hat, ← List.append_assoc, List.drop_left]

structure Back (g : FONT) : Prop where
  widths : g.widths = f.widths
  offsets : g.offsets = offset f.hdr.height.toNat f.widths
  data : g.data = map2stream f
  maxwidth : g.hdr.maxwidth = (check_widths f.widths f.hdr).maxwidth
  flags : g.hdr.flags = (check_widths f.widths f.hdr).flags

theorem save_file (big : Bool) :
    save_font big f = header_bytes true { saved_header f with reserved := ntohs big (saved_header f).reserved } ++
      (info_bytes f ++ tail_bytes f) := by
  simp only [save_font, header_file, storeLong_ntohl, tail_bytes]

theorem load_save (host host' : Bool) (hinfo : (info_bytes f).length < 32768) :
    ∃ g, load_font host' (save_font host f) = some g ∧ Back f g := by
  have hfamily : (saved_header f).family.length = 16 := f.family_length
  have hlen : ¬ (tail_bytes f).length < 256 := by
    rw [tail_bytes, List.length_append, f.widths_length]
    omega
  have htake : (tail_bytes f).take 256 = f.widths := by rw [tail_bytes, ← f.widths_length, List.take_left]
  have hdrop : (tail_bytes f).drop 256 = (map2stream f).flatMap fun x => storeLong true x := by
    rw [tail_bytes, ← f.widths_length, List.drop_left]
  have hheader : BitVec.ofNat 16 (sizeof_FONTHDR + (info_bytes f).length) - BitVec.ofNat 16 sizeof_FONTHDR =
      BitVec.ofNat 16 (info_bytes f).length := by
    rw [BitVec.ofNat_add, BitVec.add_comm, BitVec.add_sub_cancel]
  have hlongs : offset f.hdr.height.toNat f.widths 256 = (map2stream f).length := by
    rw [map2stream_eq, length_words]
  have hwords := read_longs_file host' (map2stream f)
  have hdata : (if host' = false then ((map2stream f).map (ntohl host')).map (ntohl host') else (map2stream f).map (ntohl host')) = map2stream f := by
    cases host' with
    | false =>
      rw [if_pos rfl, List.map_map]
      have hid : ntohl false ∘ ntohl false = id := funext (ntohl_ntohl false)
      rw [hid, List.map_id]
    | true =>
      have hid : ntohl true = id := rfl
      simp [hid]
  rw [save_file]
  unfold load_font
  have hread := read_header_file host' { saved_header f with reserved := ntohs host (saved_header f).reserved } hfamily
    (info_bytes f ++ tail_bytes f)
  rw [hread, Option.bind_some]
  have hmagic : ¬ (decide (ntohl host' (saved_header f).magic = 0x314e4657) = false ∧ ntohl host' (saved_header f).magic ≠ MAGIC) := by
    change ¬ (decide (ntohl host' MAGIC = 0x314e4657) = false ∧ ntohl host' MAGIC ≠ MAGIC)
    cases host' <;> decide
  have hlittle : decide (ntohl host' (saved_header f).magic = 0x314e4657) = !host' := by
    change decide (ntohl host' MAGIC = 0x314e4657) = !host'
    cases host' <;> decide
  have hseek := seek_saved f { saved_header f with reserved := ntohs host (saved_header f).reserved } hfamily hinfo
  have hlenght : ¬ (BitVec.ofNat 32 (4 * offset (saved_header f).height.toNat f.widths 256) ≠ (saved_header f).lenght) := fun h => h rfl
  dsimp only [convert_header] at hseek ⊢
  rw [if_neg hmagic]
  simp only [ntohs_ntohs, ntohl_ntohl]
  rw [show (saved_header f).header - BitVec.ofNat 16 sizeof_FONTHDR = BitVec.ofNat 16 (info_bytes f).length from hheader, hseek,
    if_neg hlen, htake, hdrop, if_neg hlenght,
    show offset (saved_header f).height.toNat f.widths 256 = (map2stream f).length from hlongs, hwords, Option.map_some]
  refine ⟨_, rfl, rfl, rfl, ?_, rfl, rfl⟩
  dsimp only
  rw [hlittle]
  cases host' with
  | false => exact hdata
  | true => exact hdata

structure Reloaded (g : FONT) : Prop where
  widths : g.widths = f.widths
  largest : (∃ c < 256, width f.widths c = g.hdr.maxwidth.toNat) ∧ ∀ c < 256, width f.widths c ≤ g.hdr.maxwidth.toNat
  prop : g.hdr.flags &&& F_PROP ≠ 0 ↔
    ∃ c < 256, ∃ d < 256, width f.widths c ≠ 0 ∧ width f.widths d ≠ 0 ∧ width f.widths c ≠ width f.widths d
  bits : ∀ c < 256, ∀ y < f.hdr.height.toNat, ∀ x < width f.widths c,
    bitAt (g.data.drop (g.offsets c)) (y * width f.widths c + x) =
      (f.map (c * f.hdr.height.toNat + y)).getLsbD (width f.widths c - 1 - x)

/-- No character behind the first used one from 128 on is the widest, and when widths differ the first used character is
narrower than some other that is seen. -/
structure Measured (widths : List Byte) : Prop where
  high : ∀ c < 256, ∃ d < 256, Seen widths d ∧ width widths c ≤ width widths d
  grows : (∃ c < 256, ∃ d < 256, width widths c ≠ 0 ∧ width widths d ≠ 0 ∧ width widths c ≠ width widths d) →
    ∃ a, First widths a ∧ ∃ d < 256, Seen widths d ∧ width widths a < width widths d

theorem first_used : ∃ a < 256, First f.widths a := by
  have hex : ∃ a, width f.widths a ≠ 0 := by
    obtain ⟨c, -, hc⟩ := f.some_width
    exact ⟨c, by unfold width; omega⟩
  have hused := Nat.find_spec hex
  refine ⟨Nat.find hex, ?_, hused, fun i hi => not_not.mp (Nat.find_min hex hi)⟩
  obtain ⟨c, hc, hw⟩ := f.some_width
  have hle : Nat.find hex ≤ c := Nat.find_min' hex (by unfold width; omega)
  omega

theorem first_unique {a b : Nat} (ha : First widths a) (hb : First widths b) : a = b := by
  rcases Nat.lt_trichotomy a b with h | h | h
  · exact absurd (hb.before a h) ha.used
  · exact h
  · exact absurd (ha.before b h) hb.used

theorem charset_prop (flags : BitVec 16) (widths : List Byte) :
    ((flags &&& ~~~(F_ASCII ||| F_LATIN1 ||| F_SYMBOL ||| F_PROP)) ||| charset widths) &&& F_PROP = 0 := by
  have hset : charset widths &&& F_PROP = 0 := by
    unfold charset
    split
    · decide
    · split <;> decide
  have hclear : (flags &&& ~~~(F_ASCII ||| F_LATIN1 ||| F_SYMBOL ||| F_PROP)) &&& F_PROP = 0 := by
    rw [BitVec.and_assoc, show ~~~(F_ASCII ||| F_LATIN1 ||| F_SYMBOL ||| F_PROP) &&& F_PROP = 0 by decide]
    simp
  rw [BitVec.and_or_distrib_right, hset, hclear]
  rfl

theorem check_flag : (check_widths f.widths f.hdr).flags &&& F_PROP ≠ 0 ↔ ((scanned f.widths).foldl width_turn (0, false)).2 = true := by
  have hclear := charset_prop f.hdr.flags f.widths
  unfold check_widths
  dsimp only
  cases ((scanned f.widths).foldl width_turn (0, false)).2 with
  | false =>
    rw [if_neg Bool.false_ne_true, hclear]
    simp
  | true =>
    rw [if_pos rfl, BitVec.and_or_distrib_right, hclear]
    exact ⟨fun _ => rfl, fun _ => by decide⟩

theorem check_largest : (check_widths f.widths f.hdr).maxwidth.toNat = ((scanned f.widths).foldl width_turn (0, false)).1 := by
  obtain ⟨a, ha, hfirst⟩ := first_used f
  obtain ⟨d, -, -, hd⟩ := (largest_spec ha hfirst).1
  have hle : width f.widths d ≤ 32 := f.width_le d
  change (BitVec.ofNat 16 _).toNat = _
  rw [BitVec.toNat_ofNat, Nat.mod_eq_of_lt (by omega)]

theorem reloaded_iff (host host' : Bool) (hinfo : (info_bytes f).length < 32768) :
    (∃ g, load_font host' (save_font host f) = some g ∧ Reloaded f g) ↔ Measured f.widths := by
  obtain ⟨g, hload, hback⟩ := load_save f host host' hinfo
  obtain ⟨a, ha, hfirst⟩ := first_used f
  obtain ⟨⟨m, hm, hmseen, hmax⟩, hall, hflag⟩ := largest_spec ha hfirst
  have hmaxwidth : g.hdr.maxwidth.toNat = ((scanned f.widths).foldl width_turn (0, false)).1 := by
    rw [hback.maxwidth, check_largest]
  have hprop : g.hdr.flags &&& F_PROP ≠ 0 ↔ width f.widths a < ((scanned f.widths).foldl width_turn (0, false)).1 := by
    rw [hback.flags, check_flag, hflag]
  constructor
  · rintro ⟨g', hload', h⟩
    obtain rfl : g = g' := Option.some.inj (hload.symm.trans hload')
    constructor
    · intro c hc
      refine ⟨m, hm, hmseen, ?_⟩
      rw [hmax, ← hmaxwidth]
      exact h.largest.2 c hc
    · intro hdiff
      refine ⟨a, hfirst, m, hm, hmseen, ?_⟩
      rw [hmax]
      exact hprop.mp (h.prop.mpr hdiff)
  · intro h
    have hle : ∀ c < 256, width f.widths c ≤ ((scanned f.widths).foldl width_turn (0, false)).1 := by
      intro c hc
      obtain ⟨d, hd, hseen, hcd⟩ := h.high c hc
      exact hcd.trans (hall d hd hseen)
    refine ⟨g, hload, hback.widths, ?_, ?_, ?_⟩
    · rw [hmaxwidth]
      exact ⟨⟨m, hm, hmax⟩, hle⟩
    · rw [hprop]
      constructor
      · intro hlt
        rw [← hmax] at hlt
        have hused := hfirst.used
        exact ⟨a, ha, m, hm, hused, by omega, by omega⟩
      · intro hdiff
        obtain ⟨b, hb, d, hd, hseen, hlt⟩ := h.grows hdiff
        rw [first_unique hfirst hb]
        exact hlt.trans_le (hall d hd hseen)
    · intro c hc y hy x hx
      have hin : y * width f.widths c + x < width f.widths c * f.hdr.height.toNat := by
        calc y * width f.widths c + x < y * width f.widths c + width f.widths c := by omega
          _ = (y + 1) * width f.widths c := by rw [Nat.succ_mul]
          _ ≤ f.hdr.height.toNat * width f.widths c := Nat.mul_le_mul_right _ hy
          _ = width f.widths c * f.hdr.height.toNat := Nat.mul_comm _ _
      rw [hback.data, hback.offsets, map2stream_eq, words_bit f hc hin]
      exact glyph_bit hy hx

/-- The file comes back on every host when the information is shorter than 32 KB and the loops over the widths see what they
should; with information of that size it does not come back otherwise. -/
theorem font_reloaded (host host' : Bool) :
    ((info_bytes f).length < 32768 ∧ Measured f.widths → ∃ g, load_font host' (save_font host f) = some g ∧ Reloaded f g) ∧
      ((∃ g, load_font host' (save_font host f) = some g ∧ Reloaded f g) → ¬ (info_bytes f).length < 32768 ∨ Measured f.widths) := by
  constructor
  · rintro ⟨hinfo, hm⟩
    exact (reloaded_iff f host host' hinfo).mpr hm
  · intro h
    by_cases hinfo : (info_bytes f).length < 32768
    · exact .inr ((reloaded_iff f host host' hinfo).mp h)
    · exact .inl hinfo

def narrow_widths : List Byte := List.replicate 65 0 ++ 8 :: 4 :: List.replicate 189 0

theorem narrow_length : narrow_widths.length = 256 := by decide +kernel

theorem narrow_at (c : Nat) : (narrow_widths.getD c 0).toNat ≤ 8 := by
  have hmem : ∀ b ∈ narrow_widths, b.toNat ≤ 8 := by
    intro b hb
    simp only [narrow_widths, List.mem_append, List.mem_cons, List.mem_replicate] at hb
    rcases hb with ⟨-, rfl⟩ | rfl | rfl | ⟨-, rfl⟩ <;> decide
  rcases Nat.lt_or_ge c narrow_widths.length with hc | hc
  · rw [List.getD_eq_getElem _ _ hc]
    exact hmem _ (List.getElem_mem hc)
  · rw [List.getD_eq_default _ _ hc]
    decide

theorem narrow_le (c : Nat) : (narrow_widths.getD c 0).toNat ≤ 32 := (narrow_at c).trans (by decide)

def narrowing : MEMFONT where
  hdr := ⟨0, 0, 0, 8, 0, 0, 0, 0, 0, 0, 7, 0, List.replicate 16 0⟩
  info := []
  widths := narrow_widths
  map := fun _ => 0
  widths_length := narrow_length
  family_length := rfl
  height_pos := by decide
  height_le := by decide
  width_le := narrow_le
  some_width := ⟨65, by decide, by decide +kernel⟩

/-- The narrower character comes second, and the flag stays off. -/
theorem font_not_reloaded : ¬ ∃ g, load_font true (save_font true narrowing) = some g ∧ Reloaded narrowing g := by
  intro h
  have hm := (reloaded_iff narrowing true true (by decide)).mp h
  have hall : ∀ d, width narrowing.widths d ≤ 8 := narrow_at
  have hfirst : First narrowing.widths 65 := ⟨by decide +kernel, by decide +kernel⟩
  obtain ⟨a, ha, d, hd, -, hlt⟩ := hm.grows ⟨65, by decide, 66, by decide, by decide +kernel, by decide +kernel, by decide +kernel⟩
  obtain rfl := first_unique ha hfirst
  have hle := hall d
  have hwide : width narrowing.widths 65 = 8 := by decide +kernel
  omega

end WWindowSystem.Wfnt
