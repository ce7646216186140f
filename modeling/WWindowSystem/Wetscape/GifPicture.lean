import WWindowSystem.Library.Lzw
import WWindowSystem.Wetscape.GifCalls
import WWindowSystem.Wetscape.GifStream

namespace WWindowSystem.Gif

open Bits Lzw

variable {t : gif_table} {c d : Int} {l : List Byte} {size : Nat} {D : List (List Nat)} {last w : List Nat}

def pixelCoding (size : Nat) : Coding Nat := { letter := id, size := size, maxWidth := 12 }

def Spells (t : gif_table) (c : Int) (w : List Nat) : Prop :=
  ∃ d l, Chain t c d l ∧ 0 ≤ d ∧ d < t.clear ∧ w = d.toNat :: l.map BitVec.toNat

theorem uchar_toNat (h : t.clear ≤ 256) (hlow : 0 ≤ d) (hhigh : d < t.clear) : (uchar d).toNat = d.toNat := by
  unfold uchar
  rw [BitVec.toNat_ofInt]
  omega

theorem Chain.mono {t' : gif_table} (hnew : t'.newcodes = t.newcodes) (hslot : t.slot ≤ t'.slot)
    (hsame : ∀ k, k < t.slot → t'.suffix k = t.suffix k ∧ t'.prefixes k = t.prefixes k) (h : Chain t c d l) : Chain t' c d l := by
  induction h with
  | bottom hc =>
    apply Chain.bottom
    omega
  | @entry c d l hlow hhigh _ ih =>
    obtain ⟨hsuffix, hlinks⟩ := hsame c hhigh
    rw [← hsuffix]
    apply Chain.entry
    · omega
    · omega
    · rw [hlinks]
      exact ih

theorem grow_fields (t : gif_table) : (grow t).newcodes = t.newcodes ∧ (grow t).slot = t.slot ∧ (grow t).suffix = t.suffix ∧
    (grow t).prefixes = t.prefixes ∧ (grow t).clear = t.clear ∧ (grow t).dec_fc = t.dec_fc ∧ (grow t).dec_oc = t.dec_oc ∧
      (grow t).dec_clearing = t.dec_clearing ∧ (grow t).dec_size = t.dec_size := by
  unfold grow
  split_ifs
  · exact ⟨rfl, rfl, rfl, rfl, rfl, rfl, rfl, rfl, rfl⟩
  · exact ⟨rfl, rfl, rfl, rfl, rfl, rfl, rfl, rfl, rfl⟩
  · exact ⟨rfl, rfl, rfl, rfl, rfl, rfl, rfl, rfl, rfl⟩

variable {c₀ d₀ : Int}

theorem added_chain (h : Chain t c d l) : Chain (grow (added c₀ d₀ t)) c d l := by
  obtain ⟨hnew, hslot, hsuffix, hlinks, _⟩ := grow_fields (added c₀ d₀ t)
  apply h.mono
  · rw [hnew]
    unfold added
    split_ifs
    · rfl
    · rfl
  · rw [hslot]
    unfold added
    split_ifs
    · dsimp only
      omega
    · exact le_refl _
  · intro k hk
    rw [hsuffix, hlinks]
    unfold added
    split_ifs
    · exact ⟨if_neg (by omega), if_neg (by omega)⟩
    · exact ⟨rfl, rfl⟩

theorem added_clear (c d : Int) (t : gif_table) : (grow (added c d t)).clear = t.clear := by
  rw [(grow_fields _).2.2.2.2.1]
  unfold added
  split_ifs
  · rfl
  · rfl

theorem Spells.added (h : Spells t c w) : Spells (grow (added c₀ d₀ t)) c w := by
  obtain ⟨d, l, hchain, hlow, hhigh, hw⟩ := h
  refine ⟨d, l, added_chain hchain, hlow, ?_, hw⟩
  rw [added_clear]
  exact hhigh

structure Spelled (size : Nat) (t : gif_table) (D : List (List Nat)) (last : List Nat) : Prop where
  table : Table t
  clearing : t.dec_clearing = false
  size : t.dec_size = size ∧ size ≤ 8
  slot : t.slot = t.newcodes + D.length
  wide : 2 ^ (t.curr_size - 1) ≤ t.slot
  words : ∀ (k : Nat) w, D[k]? = some w → Spells t (t.newcodes + k) w
  recent : t.slot < t.top_slot → Spells t t.dec_oc last
  first : t.slot < t.top_slot → ∃ l, last = t.dec_fc.toNat :: l ∧ 0 ≤ t.dec_fc ∧ t.dec_fc < t.clear

theorem Table.codes (h : Table t) (hsize : t.dec_size = size) : t.clear = (pixelCoding size).clear ∧
    t.ending = (pixelCoding size).ending ∧ t.newcodes = (pixelCoding size).base := by
  have hclear : t.clear = (pixelCoding size).clear := by
    rw [h.clear, hsize]
    unfold pixelCoding Coding.clear
    push_cast
    rfl
  refine ⟨hclear, ?_, ?_⟩
  · rw [h.ending, hclear]
    rfl
  · rw [h.newcodes, hclear]
    rfl

theorem Spelled.width (h : Spelled size t D last) : t.curr_size = (pixelCoding size).width (some (D, last)) := by
  obtain ⟨_, _, hbase⟩ := h.table.codes h.size.1
  have hslot : t.slot = ((pixelCoding size).base + D.length : Nat) := by
    rw [h.slot, hbase]
    push_cast
    rfl
  have hwide := h.wide
  have hwidth := h.table.width
  have htop := h.table.top
  unfold Coding.width
  dsimp only
  have hlow : t.curr_size ≤ Nat.size ((pixelCoding size).base + D.length) := by
    have hlt : t.curr_size - 1 < Nat.size ((pixelCoding size).base + D.length) := by
      rw [Nat.lt_size]
      rw [hslot] at hwide
      exact_mod_cast hwide
    omega
  rcases h.table.room with hroom | ⟨hlast, _⟩
  · have hhigh : Nat.size ((pixelCoding size).base + D.length) ≤ t.curr_size := by
      rw [Nat.size_le]
      rw [hslot, htop] at hroom
      exact_mod_cast hroom
    have hmax : (pixelCoding size).maxWidth = 12 := rfl
    omega
  · have hmax : (pixelCoding size).maxWidth = 12 := rfl
    omega

theorem Spelled.letter (h : Spelled size t D last) {c : Nat} (hc : c < (pixelCoding size).clear) : Spells t c [c] := by
  obtain ⟨hclear, _, hbase⟩ := h.table.codes h.size.1
  have hnew : (pixelCoding size).base = (pixelCoding size).clear + 2 := rfl
  refine ⟨c, [], .bottom (by omega), by omega, by omega, ?_⟩
  rw [Int.toNat_natCast]
  rfl

theorem Spelled.word (h : Spelled size t D last) {c : Nat} (hw : (pixelCoding size).word D c = some w) :
    Spells t c w ∧ (c : Int) < t.slot := by
  obtain ⟨hclear, _, hbase⟩ := h.table.codes h.size.1
  have hslot := h.slot
  have hnew : (pixelCoding size).base = (pixelCoding size).clear + 2 := rfl
  unfold Coding.word at hw
  split_ifs at hw with hletter hentry
  · cases hw
    exact ⟨h.letter hletter, by omega⟩
  · have hcode : (c : Int) = t.newcodes + (c - (pixelCoding size).base : Nat) := by omega
    obtain ⟨hlt, _⟩ := List.getElem?_eq_some_iff.mp hw
    refine ⟨?_, by omega⟩
    rw [hcode]
    exact h.words _ w hw

theorem Spelled.room_iff (h : Spelled size t D last) : t.slot < t.top_slot ↔ (pixelCoding size).base + D.length < 2 ^ 12 := by
  obtain ⟨_, _, hbase⟩ := h.table.codes h.size.1
  have hslot := h.slot
  have hhigh := pow_le_4096 h.table.width.2
  have htop := h.table.top
  rw [← htop] at hhigh
  rcases h.table.room with hroom | ⟨_, hfull⟩
  · constructor
    · intro _
      omega
    · intro _
      exact hroom
  · have hfit := h.table.fit
    constructor
    · intro hless
      omega
    · intro hless
      omega

theorem grow_wide (hwide : 2 ^ (t.curr_size - 1) ≤ t.slot) (htop : t.top_slot = 2 ^ t.curr_size) :
    2 ^ ((grow t).curr_size - 1) ≤ (grow t).slot := by
  unfold grow
  split_ifs with hfull hsize
  · dsimp only
    rw [Nat.add_sub_cancel, ← htop]
    exact hfull
  · exact hwide
  · exact hwide

theorem Spelled.clear_le (h : Spelled size t D last) : t.clear ≤ 256 := by
  rw [h.table.clear, h.size.1]
  have hpow : (2 : Int) ^ size ≤ 2 ^ 8 := pow_le_pow_right₀ (by decide) h.size.2
  exact hpow

theorem added_free (hfree : t.slot < t.top_slot) (c d : Int) : added c d t = { t with
    dec_fc := d
    suffix := fun k => if k = t.slot then uchar d else t.suffix k
    prefixes := fun k => if k = t.slot then t.dec_oc else t.prefixes k
    slot := t.slot + 1
    dec_oc := c } := if_pos hfree

theorem Spelled.entry (h : Spelled size t D last) (hfree : t.slot < t.top_slot) (c : Int) (hlow : 0 ≤ d) (hhigh : d < t.clear) :
    Spells (grow (added c d t)) t.slot (last ++ [d.toNat]) := by
  obtain ⟨hnew, hslot, hsuffix, hlinks, _⟩ := grow_fields (added c d t)
  obtain ⟨d₀, l, hchain, hlow₀, hhigh₀, hlast⟩ := h.recent hfree
  refine ⟨d₀, l ++ [(grow (added c d t)).suffix t.slot], ?_, hlow₀, ?_, ?_⟩
  · apply Chain.entry
    · rw [hnew, added_free hfree]
      exact h.table.low
    · rw [hslot, added_free hfree]
      exact lt_add_one _
    · have hlink : (grow (added c d t)).prefixes t.slot = t.dec_oc := by
        rw [hlinks, added_free hfree]
        exact if_pos rfl
      rw [hlink]
      exact added_chain hchain
  · rw [added_clear]
    exact hhigh₀
  · have hletter : (grow (added c d t)).suffix t.slot = uchar d := by
      rw [hsuffix, added_free hfree]
      exact if_pos rfl
    rw [hletter, hlast, List.map_append, List.map_singleton, uchar_toNat h.clear_le hlow hhigh]
    rfl

theorem Spelled.add (h : Spelled size t D last) (hpos : 0 ≤ c) (hc : c ≤ t.slot) (hlow : 0 ≤ d) (hhigh : d < t.clear)
    {rest : List Nat} (hw : w = d.toNat :: rest) (hspells : t.slot < t.top_slot → Spells (grow (added c d t)) c w) :
    Spelled size (grow (added c d t)) ((pixelCoding size).extend D last w) w := by
  have hclearing := h.clearing
  have htable := h.table.added hclearing hpos hc d
  obtain ⟨hnew, hslot, hsuffix, hlinks, hclear, hfc, hoc, hoff, hdec⟩ := grow_fields (added c d t)
  have hroom := h.room_iff
  by_cases hfree : t.slot < t.top_slot
  · have hadded := added_free hfree c d
    have hextend : (pixelCoding size).extend D last w = D ++ [last ++ [d.toNat]] := by
      have hmax : (pixelCoding size).maxWidth = 12 := rfl
      unfold Coding.extend
      rw [hmax, if_pos (hroom.mp hfree), hw]
      rfl
    have hentry := h.entry hfree c hlow hhigh
    rw [hextend]
    constructor
    · exact htable
    · rw [hoff, hadded]
      exact hclearing
    · rw [hdec, hadded]
      exact h.size
    · rw [hslot, hnew, hadded, List.length_append, List.length_singleton]
      dsimp only
      rw [h.slot]
      push_cast
      ring
    · apply grow_wide
      · rw [hadded]
        have hwide := h.wide
        dsimp only
        omega
      · rw [hadded]
        exact h.table.top
    · intro k v hk
      rw [List.getElem?_append] at hk
      have hnewcodes : (grow (added c d t)).newcodes = t.newcodes := by rw [hnew, hadded]
      rw [hnewcodes]
      split_ifs at hk with hold
      · exact (h.words k v hk).added
      · obtain ⟨hk', hv⟩ := List.getElem?_eq_some_iff.mp hk
        rw [List.length_singleton] at hk'
        have hlast : k = D.length := by omega
        subst hlast
        simp only [Nat.sub_self, List.getElem_cons_zero] at hv
        rw [← h.slot, ← hv]
        exact hentry
    · intro _
      rw [hoc, hadded]
      dsimp only
      rw [← hadded]
      exact hspells hfree
    · intro _
      rw [hfc, hclear, hadded]
      exact ⟨rest, hw, hlow, hhigh⟩
  · have hadded : added c d t = t := if_neg hfree
    have hgrown : grow t = t := by
      rcases h.table.room with hless | ⟨hlast, _⟩
      · exact absurd hless hfree
      · unfold grow
        rw [if_pos (by omega), if_neg (by omega)]
    have hextend : (pixelCoding size).extend D last w = D := if_neg (fun hless => hfree (hroom.mpr hless))
    rw [hadded, hgrown, hextend]
    exact ⟨h.table, hclearing, h.size, h.slot, h.wide, h.words, fun hless => absurd hless hfree, fun hless => absurd hless hfree⟩

theorem Spelled.known (h : Spelled size t D last) {c : Nat} (hw : (pixelCoding size).word D c = some w) :
    ∃ dstack t', decode_code c t = some (dstack, t') ∧ dstack.map BitVec.toNat = w ∧
      Spelled size t' ((pixelCoding size).extend D last w) w := by
  obtain ⟨hspells, hless⟩ := h.word hw
  obtain ⟨d, l, hchain, hlow, hhigh, hletters⟩ := hspells
  refine ⟨_, _, decode_known h.table hless hchain, ?_, ?_⟩
  · rw [List.map_cons, uchar_toNat h.clear_le hlow hhigh, hletters]
  · apply h.add (Int.natCast_nonneg c) (le_of_lt hless) hlow hhigh hletters
    intro _
    exact Spells.added ⟨d, l, hchain, hlow, hhigh, hletters⟩

theorem Spelled.next (h : Spelled size t D last) (hc : (pixelCoding size).base + D.length < 2 ^ 12) (hw : w = last ++ last.take 1) :
    ∃ dstack t', decode_code ((pixelCoding size).base + D.length : Nat) t = some (dstack, t') ∧ dstack.map BitVec.toNat = w ∧
      Spelled size t' ((pixelCoding size).extend D last w) w := by
  have hfree := h.room_iff.mpr hc
  have hclearing := h.clearing
  obtain ⟨_, _, hbase⟩ := h.table.codes h.size.1
  obtain ⟨hoclow, hochigh⟩ := h.table.oc hclearing
  obtain ⟨d, l, hchain, hlow, hhigh, hlast⟩ := h.recent hfree
  obtain ⟨l', hfirst, hfclow, hfchigh⟩ := h.first hfree
  have hfc : t.dec_fc.toNat = d.toNat := by
    rw [hlast] at hfirst
    exact (List.cons.inj hfirst).1.symm
  have hsame : t.dec_fc = d := by omega
  have hslot : (((pixelCoding size).base + D.length : Nat) : Int) = t.slot := by
    rw [h.slot, hbase]
    push_cast
    rfl
  have htake : w = d.toNat :: (l.map BitVec.toNat ++ [d.toNat]) := by
    rw [hw, hlast]
    rfl
  have hstack : (uchar d :: (l ++ [uchar t.dec_fc])).map BitVec.toNat = w := by
    rw [List.map_cons, List.map_append, List.map_singleton, hsame, uchar_toNat h.clear_le hlow hhigh, htake]
  rw [hslot]
  refine ⟨_, _, decode_next h.table hochigh (le_refl _) hchain, hstack, ?_⟩
  apply h.add (by omega) (le_refl _) hlow hhigh htake
  intro _
  have hentry := h.entry hfree t.slot hlow hhigh
  have hword : last ++ [d.toNat] = w := by
    rw [htake, hlast]
    rfl
  rw [hword] at hentry
  exact hentry

end WWindowSystem.Gif

namespace WWindowSystem.Gif

open Bits Lzw

variable {E : GifEnv} {gif : gif_info_t} {img : gif_image} {cmap : List Byte} {cp : List Byte} {size : Nat} {block : gif_block}
  {input : List Byte} {d : Reading} {c : Nat} {pixels word : List Nat} {blocks : List (List Byte)}

def Shows (E : GifEnv) (gif : gif_info_t) (cp : List Byte) (pixels : List Nat) : Prop :=
  Orderly E gif cp ∧ ∃ t q, Feeds (gifStep E) gif cp t q ∧ t.state = .Skip ∧
    t.out.emitted = gif.out.emitted ++ pixels.map fun p : Nat => (p : Int)

variable {s : gif_screen}

theorem take_clear_again {c : Int} (hne : c ≠ d.table.ending) (hclear : c = d.table.clear)
    (hclearing : d.table.dec_clearing = true) : take_code E s c d = .inl d := by
  rw [take_code, if_neg hne, if_pos hclear, if_pos hclearing]

theorem take_clear {c : Int} (hne : c ≠ d.table.ending) (hclear : c = d.table.clear)
    (hclearing : d.table.dec_clearing = false) : take_code E s c d = .inl { d with table := cleared d.table } := by
  rw [take_code, if_neg hne, if_pos hclear, hclearing]
  rfl

variable {out : gif_pixels}

theorem take_first {c : Int} (hending : c ≠ d.table.ending) (hclear : c ≠ d.table.clear)
    (hclearing : d.table.dec_clearing = true) (hless : c < d.table.slot) (hput : put_pixel E s d.out c = some out) :
    take_code E s c d =
      .inl { d with table := { d.table with dec_oc := c, dec_fc := c, dec_clearing := false }, out := out } := by
  rw [take_code, if_neg hending, if_neg hclear, if_pos hclearing]
  dsimp only
  rw [if_neg (by omega), hput]

variable {dstack : List Byte}

theorem take_word {c : Int} {table : gif_table} (hending : c ≠ d.table.ending)
    (hclear : c ≠ d.table.clear) (hclearing : d.table.dec_clearing = false) (hdecode : decode_code c d.table = some (dstack, table))
    (hput : put_pixels E s d.out dstack = some out) : take_code E s c d = .inl { d with table := table, out := out } := by
  rw [take_code, if_neg hending, if_neg hclear, if_neg (by rw [hclearing]; decide), hdecode, Option.bind_some]
  dsimp only
  rw [hput]
  rfl

theorem fits_of_code (hcode : get_next_code gif.table.curr_size gif.block cp = .code c block input)
    (hfits : gif.table.dec_clearing = false → (c : Int) ≠ gif.table.ending → (c : Int) ≠ gif.table.clear → (c : Int) ≤ gif.table.slot) :
    CodeFits (gif.reading cp) := by
  intro hclearing c' block' input' hcode'
  cases hcode.symm.trans hcode'
  exact hfits hclearing

theorem shows_step (h : Within gif img cmap) (hcode : get_next_code gif.table.curr_size gif.block cp = .code c block input)
    (htake : take_code E (gif.screen img cmap) c { gif.reading cp with block := block, input := input } = .inl d)
    (hfits : gif.table.dec_clearing = false → (c : Int) ≠ gif.table.ending → (c : Int) ≠ gif.table.clear → (c : Int) ≤ gif.table.slot)
    (hemitted : d.out.emitted = gif.out.emitted ++ word.map fun p : Nat => (p : Int)) (hrest : Shows E (gif.keep d) d.input pixels) :
    Shows E gif cp (word ++ pixels) := by
  have hturn := codeTurn_code (E := E) (s := gif.screen img cmap) (d := gif.reading cp) hcode
  have hstep := step_within (E := E) h cp
  rw [hturn, htake] at hstep
  obtain ⟨horder, t, q, hfeeds, hskip, hall⟩ := hrest
  refine ⟨horder.head (fun _ => fits_of_code hcode hfits) hstep, t, q, .head hstep hfeeds, hskip, ?_⟩
  have hkeep : (gif.keep d).out.emitted = d.out.emitted := rfl
  rw [hall, hkeep, hemitted, List.map_append, List.append_assoc]

theorem shows_end (h : Within gif img cmap) (hcode : get_next_code gif.table.curr_size gif.block cp = .code c block input)
    (hc : (c : Int) = gif.table.ending) : Shows E gif cp [] := by
  have hturn := codeTurn_code (E := E) (s := gif.screen img cmap) (d := gif.reading cp) hcode
  have hstep := step_within (E := E) h cp
  have hend : take_code E (gif.screen img cmap) c { gif.reading cp with block := block, input := input } = _ := if_pos hc
  rw [hturn, hend] at hstep
  refine ⟨?_, _, _, .head hstep (.refl _ _), rfl, ?_⟩
  · apply Orderly.head (fun _ => fits_of_code hcode fun _ hne => absurd hc hne) hstep
    intro t q hfeeds hstate
    cases hfeeds with
    | refl => cases hstate
    | head hnext _ =>
      rw [step_skip rfl] at hnext
      cases hnext
  · exact (List.append_nil _).symm

inductive Follows (size : Nat) : Coding.State Nat → gif_table → Prop
  | cleared {t : gif_table} (h : Table t) (hclearing : t.dec_clearing = true) (hsize : t.dec_size = size ∧ size ≤ 8)
      (hslot : t.slot = t.newcodes) (hwidth : t.curr_size = size + 1) : Follows size none t
  | spelled {t : gif_table} {D : List (List Nat)} {last : List Nat} (h : Spelled size t D last) : Follows size (some (D, last)) t

variable {st : Coding.State Nat}

theorem Follows.table {t : gif_table} (h : Follows size st t) : Table t ∧ t.dec_size = size ∧ size ≤ 8 ∧
    t.curr_size = (pixelCoding size).width st := by
  cases h with
  | cleared h hclearing hsize hslot hwidth => exact ⟨h, hsize.1, hsize.2, hwidth⟩
  | spelled h => exact ⟨h.table, h.size.1, h.size.2, h.width⟩

theorem read_code (h : Follows size st gif.table) (hclean : Clean gif.block) (hbits : gif.block.nbits_left ≤ 7)
    (hblocks : ∀ s ∈ blocks, SubBlock s) {more : List Bool} (hc : c < 2 ^ (pixelCoding size).width st)
    (hstream : stream gif.block blocks = low ((pixelCoding size).width st) c ++ more) (tail : List Byte) :
    ∃ block blocks', get_next_code gif.table.curr_size gif.block (pack blocks ++ tail) = .code c block (pack blocks' ++ tail) ∧
      Clean block ∧ block.nbits_left ≤ 7 ∧ (∀ s ∈ blocks', SubBlock s) ∧ stream block blocks' = more := by
  obtain ⟨htable, hdec, _, hwidth⟩ := h.table
  have hsize := htable.size
  have hcurr := htable.width
  have hlen : gif.table.curr_size ≤ (stream gif.block blocks).length := by
    rw [hstream, List.length_append, low_length]
    omega
  obtain ⟨block, blocks', hcode, hclean', hbits', hblocks', hmore⟩ :=
    get_next_code_stream hclean hbits hblocks (by omega) hcurr.2 hlen tail
  refine ⟨block, blocks', ?_, hclean', hbits', hblocks', ?_⟩
  · rw [hcode, hstream, hwidth, value_low_append hc]
  · rw [hmore, hstream, hwidth, List.drop_left' (low_length _ _)]

theorem cleared_follows {t : gif_table} (h : Table t) (hsize : t.dec_size = size ∧ size ≤ 8) : Follows size none (cleared t) :=
  .cleared h.cleared rfl hsize rfl (congrArg (· + 1) hsize.1)

theorem shows_clear (h : Within gif img cmap) (hfollows : Follows size st gif.table)
    (hcode : get_next_code gif.table.curr_size gif.block cp = .code (pixelCoding size).clear block input)
    (hrest : ∀ table, Follows size none table → Table table →
      Shows E (gif.keep ⟨block, table, gif.out, input⟩) input pixels) : Shows E gif cp pixels := by
  obtain ⟨htable, hdec, hle, _⟩ := hfollows.table
  obtain ⟨hclear, hending, _⟩ := htable.codes hdec
  have hne : ((pixelCoding size).clear : Int) ≠ gif.table.ending := by
    have hend := htable.ending
    omega
  have hfits : gif.table.dec_clearing = false → ((pixelCoding size).clear : Int) ≠ gif.table.ending →
      ((pixelCoding size).clear : Int) ≠ gif.table.clear → ((pixelCoding size).clear : Int) ≤ gif.table.slot :=
    fun _ _ hno => absurd hclear.symm hno
  have hsame : ∃ table, Follows size none table ∧ Table table ∧
      take_code E (gif.screen img cmap) (pixelCoding size).clear { gif.reading cp with block := block, input := input } =
        .inl ⟨block, table, gif.out, input⟩ := by
    cases hfollows with
    | cleared h hclearing hsize hslot hwidth =>
      exact ⟨gif.table, .cleared h hclearing hsize hslot hwidth, h, take_clear_again hne hclear.symm hclearing⟩
    | spelled h => exact ⟨cleared gif.table, cleared_follows h.table h.size, h.table.cleared, take_clear hne hclear.symm h.clearing⟩
  obtain ⟨table, hnone, htable', htake⟩ := hsame
  have hnothing : gif.out.emitted = gif.out.emitted ++ ([] : List Nat).map fun p : Nat => (p : Int) := (List.append_nil _).symm
  exact shows_step h hcode htake hfits hnothing (hrest table hnone htable')

theorem Clean.whole (h : Clean block) (hbits : block.nbits_left ≤ 7) : Block block := by
  have hnavail := h.navail
  exact ⟨h.size, by omega, h.inside, hbits⟩

theorem low_code_fits {t : gif_table} (h : Follows size st t) (hc : c < (pixelCoding size).base) :
    c < 2 ^ (pixelCoding size).width st := by
  obtain ⟨htable, hdec, hle, _⟩ := h.table
  have hsize := htable.size
  obtain ⟨_, _, hbase⟩ := htable.codes hdec
  have hlow := htable.low
  have hhigh := htable.high
  cases st with
  | none =>
    apply Coding.width_none_lt hc
    have hsame : (pixelCoding size).size = size := rfl
    omega
  | some p =>
    obtain ⟨D, last⟩ := p
    apply Coding.width_some_lt
    · omega
    · have hmax : (2 : Nat) ^ (pixelCoding size).maxWidth = 4096 := by
        have h12 : (pixelCoding size).maxWidth = 12 := rfl
        rw [h12]
        norm_num
      rw [hmax]
      omega

theorem shows_first (h : Within gif img cmap) (hfollows : Follows size none gif.table)
    (hcode : get_next_code gif.table.curr_size gif.block cp = .code c block input) (hc : c < (pixelCoding size).clear)
    (hblock : Block block)
    (hrest : ∀ table out, Within (gif.keep ⟨block, table, out, input⟩) img cmap → Follows size (some ([], [c])) table →
      Shows E (gif.keep ⟨block, table, out, input⟩) input pixels) : Shows E gif cp (c :: pixels) := by
  obtain ⟨htable, hdec, hle, _⟩ := hfollows.table
  obtain ⟨hclear, hending, hbase⟩ := htable.codes hdec
  have hend := htable.ending
  have hnew := htable.newcodes
  have hlow := htable.low
  cases hfollows with
  | cleared _ hclearing hsize hslot hwidth =>
    have hpos : 0 ≤ (c : Int) := Int.natCast_nonneg c
    obtain ⟨out, hput, hdrawn, hemitted⟩ := put_pixel_safe (E := E) h.readable.screen h.readable.drawn hpos
    have htake := take_first (E := E) (s := gif.screen img cmap) (c := c) (d := { gif.reading cp with block := block, input := input })
      (show (c : Int) ≠ gif.table.ending by omega) (show (c : Int) ≠ gif.table.clear by omega) hclearing
      (show (c : Int) < gif.table.slot by omega) hput
    have hbegun := htable.begun hpos (by omega : (c : Int) < gif.table.slot)
    have hfits : gif.table.dec_clearing = false → (c : Int) ≠ gif.table.ending → (c : Int) ≠ gif.table.clear →
        (c : Int) ≤ gif.table.slot := fun _ _ _ => by omega
    have hone : out.emitted = gif.out.emitted ++ [c].map fun p : Nat => (p : Int) := hemitted
    apply shows_step h hcode htake hfits hone
    apply hrest
    · exact h.kept ⟨h.readable.screen, hdrawn, hblock, hbegun⟩
    · have hspells : Spells { gif.table with dec_oc := c, dec_fc := c, dec_clearing := false } c [c] := by
        refine ⟨c, [], .bottom ?_, hpos, ?_, ?_⟩
        · dsimp only
          omega
        · dsimp only
          omega
        · rw [Int.toNat_natCast]
          rfl
      refine .spelled ⟨hbegun, rfl, hsize, ?_, ?_, ?_, fun _ => hspells, fun _ => ⟨[], ?_, hpos, ?_⟩⟩
      · have hempty : gif.table.slot = gif.table.newcodes + ([] : List (List Nat)).length := by
          rw [hslot, List.length_nil, Nat.cast_zero, add_zero]
        exact hempty
      · have hwide : 2 ^ (gif.table.curr_size - 1) ≤ gif.table.slot := by
          rw [hwidth, Nat.add_sub_cancel, ← hdec, ← htable.clear]
          omega
        exact hwide
      · intro k w hk
        cases hk
      · dsimp only
        rw [Int.toNat_natCast]
      · have hletter : (c : Int) < gif.table.clear := by omega
        exact hletter

theorem shows_word {D : List (List Nat)} {last : List Nat} {table : gif_table}
    (h : Within gif img cmap) (hspelled : Spelled size gif.table D last)
    (hcode : get_next_code gif.table.curr_size gif.block cp = .code c block input) (hblock : Block block)
    (hclear : (c : Int) ≠ gif.table.clear) (hending : (c : Int) ≠ gif.table.ending) (hle : (c : Int) ≤ gif.table.slot)
    (hdecode : decode_code c gif.table = some (dstack, table)) (hword : dstack.map BitVec.toNat = word)
    (hfollows : Follows size st table) (hrest : ∀ out, Within (gif.keep ⟨block, table, out, input⟩) img cmap →
      Shows E (gif.keep ⟨block, table, out, input⟩) input pixels) : Shows E gif cp (word ++ pixels) := by
  obtain ⟨out, hput, hdrawn, hemitted⟩ := put_pixels_safe (E := E) h.readable.screen h.readable.drawn dstack
  have htake := take_word (E := E) (s := gif.screen img cmap) (c := c) (d := { gif.reading cp with block := block, input := input })
    hending hclear hspelled.clearing hdecode hput
  have hletters : (dstack.map fun c => (c.toNat : Int)) = word.map fun p : Nat => (p : Int) := by
    rw [← hword, List.map_map]
    rfl
  rw [hletters] at hemitted
  apply shows_step h hcode htake (fun _ _ _ => hle) hemitted
  apply hrest
  exact h.kept ⟨h.readable.screen, hdrawn, hblock, hfollows.table.1⟩

theorem codes_shown {codes : List Nat} {bits pad : List Bool}
    (h : (pixelCoding size).Codes st codes bits pixels) (hwithin : Within gif img cmap) (hfollows : Follows size st gif.table)
    (hclean : Clean gif.block) (hbits : gif.block.nbits_left ≤ 7) (hblocks : ∀ s ∈ blocks, SubBlock s)
    (hstream : stream gif.block blocks = bits ++ pad) (tail : List Byte) : Shows E gif (pack blocks ++ tail) pixels := by
  induction h generalizing gif blocks with
  | ending st =>
    obtain ⟨htable, hdec, _⟩ := hfollows.table
    obtain ⟨_, hending, _⟩ := htable.codes hdec
    have hfit := low_code_fits hfollows (lt_add_one (pixelCoding size).ending)
    obtain ⟨block, blocks', hcode, _⟩ := read_code hfollows hclean hbits hblocks hfit hstream tail
    exact shows_end hwithin hcode hending.symm
  | clear st h ih =>
    have hfit := low_code_fits hfollows (show (pixelCoding size).clear < (pixelCoding size).base from Nat.lt_add_of_pos_right (by decide))
    rw [List.append_assoc] at hstream
    obtain ⟨block, blocks', hcode, hclean', hbits', hblocks', hmore⟩ := read_code hfollows hclean hbits hblocks hfit hstream tail
    apply shows_clear hwithin hfollows hcode
    intro table hnone htable
    apply ih _ hnone hclean' hbits' hblocks' hmore
    exact hwithin.kept ⟨hwithin.readable.screen, hwithin.readable.drawn, hclean'.whole hbits', htable⟩
  | first hc h ih =>
    have hbase : (pixelCoding size).base = (pixelCoding size).clear + 2 := rfl
    have hfit := low_code_fits hfollows (lt_trans hc (by omega : (pixelCoding size).clear < (pixelCoding size).base))
    rw [List.append_assoc] at hstream
    obtain ⟨block, blocks', hcode, hclean', hbits', hblocks', hmore⟩ := read_code hfollows hclean hbits hblocks hfit hstream tail
    apply shows_first hwithin hfollows hcode hc (hclean'.whole hbits')
    intro table out hkept hnext
    exact ih hkept hnext hclean' hbits' hblocks' hmore
  | @known codes bits text c D last w hw h ih =>
    cases hfollows with
    | spelled hspelled =>
      obtain ⟨hspells, hless⟩ := hspelled.word hw
      obtain ⟨hclear, hending, hbase⟩ := hspelled.table.codes hspelled.size.1
      obtain ⟨dstack, table, hdecode, hword, hnext⟩ := hspelled.known hw
      have hslot := hspelled.slot
      have hhigh := hspelled.table.high
      have hne : (c : Int) ≠ gif.table.clear ∧ (c : Int) ≠ gif.table.ending := by
        have hend := hspelled.table.ending
        have hnew := hspelled.table.newcodes
        unfold Coding.word at hw
        split_ifs at hw
        · omega
        · omega
      have hfit : c < 2 ^ (pixelCoding size).width (some (D, last)) := by
        apply Coding.width_some_lt
        · omega
        · have hmax : (pixelCoding size).maxWidth = 12 := rfl
          rw [hmax]
          omega
      rw [List.append_assoc] at hstream
      obtain ⟨block, blocks', hcode, hclean', hbits', hblocks', hmore⟩ :=
        read_code (.spelled hspelled) hclean hbits hblocks hfit hstream tail
      apply shows_word hwithin hspelled hcode (hclean'.whole hbits') hne.1 hne.2 (le_of_lt hless) hdecode hword (.spelled hnext)
      intro out hkept
      exact ih hkept (.spelled hnext) hclean' hbits' hblocks' hmore
  | @next codes bits text D last w hc hw h ih =>
    cases hfollows with
    | spelled hspelled =>
      obtain ⟨hclear, hending, hbase⟩ := hspelled.table.codes hspelled.size.1
      obtain ⟨dstack, table, hdecode, hword, hnext⟩ := hspelled.next hc hw
      have hslot := hspelled.slot
      have hend := hspelled.table.ending
      have hnew := hspelled.table.newcodes
      have hfit : (pixelCoding size).base + D.length < 2 ^ (pixelCoding size).width (some (D, last)) :=
        Coding.width_some_lt (le_refl _) hc
      rw [List.append_assoc] at hstream
      obtain ⟨block, blocks', hcode, hclean', hbits', hblocks', hmore⟩ :=
        read_code (.spelled hspelled) hclean hbits hblocks hfit hstream tail
      apply shows_word hwithin hspelled hcode (hclean'.whole hbits') (by omega) (by omega) (by omega) hdecode hword (.spelled hnext)
      intro out hkept
      exact ih hkept (.spelled hnext) hclean' hbits' hblocks' hmore

end WWindowSystem.Gif
