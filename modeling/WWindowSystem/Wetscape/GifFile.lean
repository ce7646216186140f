import WWindowSystem.Wetscape.GifPicture

namespace WWindowSystem.Gif

open Bits Lzw List

variable {E : GifEnv} {gif gif' : gif_info_t} {cp cp' x : List Byte} {size : Nat} {pixels : List Nat} {blocks : List (List Byte)}

/-- What comes in front of the data of an image: the header, the colors of the file, extensions, the description of the
image and its own colors. -/
structure Front where
  header : List Byte
  colors : List Byte
  extensions : List (Byte × List (List Byte))
  desc : List Byte
  local_colors : List Byte

def extension (e : Byte × List (List Byte)) : List Byte := 33 :: e.1 :: (pack e.2 ++ [0])

def Front.bytes (F : Front) (size : Nat) : List Byte :=
  F.header ++ F.colors ++ F.extensions.flatMap extension ++ 44 :: (F.desc ++ F.local_colors ++ [BitVec.ofNat 8 size])

def promised (flags : Byte) : Nat := if flags.toNat ≥ 0x80 then 3 * 2 ^ (flags.toNat % 8 + 1) else 0

def Front.wd (F : Front) : Int := (F.desc.getD 4 0).toNat + 256 * (F.desc.getD 5 0).toNat

def Front.ht (F : Front) : Int := (F.desc.getD 6 0).toNat + 256 * (F.desc.getD 7 0).toNat

structure Front.Valid (E : GifEnv) (F : Front) : Prop where
  header : F.header.length = 13
  magic : F.header.take 3 = cstring "GIF"
  version : isdigit (F.header.getD 3 0) = true ∧ isdigit (F.header.getD 4 0) = true ∧ isalpha (F.header.getD 5 0) = true
  colors : F.colors.length = promised (F.header.getD 10 0)
  extensions : ∀ e ∈ F.extensions, ∀ s ∈ e.2, SubBlock s
  desc : F.desc.length = 9
  local_colors : F.local_colors.length = promised (F.desc.getD 8 0)
  some_colors : (F.header.getD 10 0).toNat ≥ 0x80 ∨ (F.desc.getD 8 0).toNat ≥ 0x80
  area : 0 < F.wd ∧ 0 < F.ht
  window : E.getwin F.wd F.ht ((F.desc.getD 8 0).getLsbD 6) = true

structure Fresh (gif : gif_info_t) : Prop where
  before : Before gif
  emitted : gif.out.emitted = []
  clearing : gif.table.dec_clearing = false

theorem shows_early (h : gif.state ≠ .InImage) (hturn : gifTurn E gif cp = .next gif' cp')
    (hemitted : gif'.out.emitted = gif.out.emitted) (hrest : Shows E gif' cp' pixels) : Shows E gif cp pixels := by
  have hstep : gifStep E gif cp = some (gif', cp') := by
    rw [step_early h, hturn]
  obtain ⟨horder, t, q, hfeeds, hskip, hall⟩ := hrest
  refine ⟨horder.head (fun hstate => absurd hstate h) hstep, t, q, .head hstep hfeeds, hskip, ?_⟩
  rw [hall, hemitted]

theorem fresh_next {gif gif' : gif_info_t} (h : Fresh gif) (hends : Ends cp (.next gif' cp')) (hout : gif'.out = gif.out)
    (htable : gif'.table = gif.table) (himage : gif'.state ≠ .InImage) (hskip : gif'.state ≠ .Skip) : Fresh gif' := by
  cases hends with
  | next _ _ hgood _ =>
    cases hgood with
    | before hbefore => exact ⟨hbefore, by rw [hout]; exact h.emitted, by rw [htable]; exact h.clearing⟩
    | image img cmap hwithin => exact absurd hwithin.state himage
    | done hdone => exact absurd hdone hskip

theorem shows_extension (hstate : gif.state = .InSelect) {e : Byte × List (List Byte)} (hsub : ∀ s ∈ e.2, SubBlock s)
    (hrest : Shows E gif x pixels) : Shows E gif (extension e ++ x) pixels := by
  have hblocks : ∀ blocks : List (List Byte), (∀ s ∈ blocks, SubBlock s) →
      Shows E { gif with state := .InExt } (pack blocks ++ 0 :: x) pixels := by
    intro blocks hblocks
    induction blocks with
    | nil =>
      have hend : gifTurn E { gif with state := .InExt } (0 :: x) = .next gif x := by
        obtain ⟨img, state, cmap, cmapsz, maxval, interlaced, block, table, out⟩ := gif
        cases hstate
        rfl
      exact shows_early state_t.noConfusion hend rfl hrest
    | cons s blocks ih =>
      rw [forall_mem_cons] at hblocks
      obtain ⟨hs, hblocks⟩ := hblocks
      have hlen := length_toNat hs
      have hpos : 0 < s.length := length_pos_iff_ne_nil.mpr hs.1
      have hzero : BitVec.ofNat 8 s.length ≠ 0 := by
        intro hzero
        rw [hzero] at hlen
        have hnone : (0 : Byte).toNat = 0 := rfl
        omega
      have hturn : gifTurn E { gif with state := .InExt } (pack (s :: blocks) ++ 0 :: x) =
          .next { gif with state := .InExt } (pack blocks ++ 0 :: x) := by
        have hdrop : (BitVec.ofNat 8 s.length :: (s ++ (pack blocks ++ 0 :: x))).drop (s.length + 1) = pack blocks ++ 0 :: x := by
          rw [drop_succ_cons, drop_left]
        unfold gifTurn ext_turn
        rw [pack_cons, cons_append, append_assoc]
        dsimp only
        rw [if_neg hzero, hlen, if_neg (by rw [length_cons, length_append]; omega), hdrop]
      exact shows_early state_t.noConfusion hturn rfl (ih hblocks)
  have hturn : gifTurn E gif (extension e ++ x) = .next { gif with state := .InExt } (pack e.2 ++ 0 :: x) := by
    unfold gifTurn extension
    rw [hstate, cons_append, cons_append, append_assoc]
    rfl
  exact shows_early (by rw [hstate]; exact state_t.noConfusion) hturn rfl (hblocks e.2 hsub)

theorem shows_extensions (hstate : gif.state = .InSelect) {extensions : List (Byte × List (List Byte))}
    (hsub : ∀ e ∈ extensions, ∀ s ∈ e.2, SubBlock s) (hrest : Shows E gif x pixels) :
    Shows E gif (extensions.flatMap extension ++ x) pixels := by
  induction extensions with
  | nil => exact hrest
  | cons e extensions ih =>
    rw [forall_mem_cons] at hsub
    rw [flatMap_cons, append_assoc]
    exact shows_extension hstate hsub.1 (ih hsub.2)

theorem first_table_spelled (hsize : 2 ≤ size ∧ size ≤ 8) : Spelled size (first_table E size false) [] [0] := by
  have htable := first_table_good (E := E) (show 2 ≤ size ∧ size ≤ 9 by omega) false
  have hrange := htable.clear_range
  have hnew := htable.newcodes
  have hwide : (2 : Int) ^ size ≤ 2 ^ size + 1 + 1 := by omega
  refine ⟨htable, rfl, ⟨rfl, hsize.2⟩, (add_zero _).symm, hwide, nofun, fun _ => ?_, fun _ => ?_⟩
  · have hbottom : (0 : Int) < (first_table E size false).newcodes := by omega
    exact ⟨0, [], .bottom hbottom, le_refl _, by omega, rfl⟩
  · have hletter : (0 : Int) < (first_table E size false).clear := by omega
    exact ⟨[], rfl, le_refl _, hletter⟩

theorem codes_clear {codes : List Nat} {bits : List Bool} (h : (pixelCoding size).Codes none codes bits pixels)
    (hclear : codes.head? = some (2 ^ size)) : ∃ codes' bits', (pixelCoding size).Codes none codes' bits' pixels ∧
      bits = low (size + 1) (pixelCoding size).clear ++ bits' := by
  have hsame : (pixelCoding size).clear = 2 ^ size := rfl
  cases h with
  | ending =>
    have hend : (pixelCoding size).ending = 2 ^ size := by simpa using hclear
    have hnext : (pixelCoding size).ending = 2 ^ size + 1 := rfl
    omega
  | clear _ h => exact ⟨_, _, h, rfl⟩
  | @first codes bits text c hc h =>
    have hfirst : c = 2 ^ size := by simpa using hclear
    omega

theorem shows_data {wd ht : Int} {cmap : List Byte} {buf : List (Int × Int)} (hbytes : gif.block.byte_buff.length = 257)
    (hinside : gif.block.pbytes ≤ 256) (hclearing : gif.table.dec_clearing = false) (hcmap : gif.cmap = some cmap)
    (hcolors : (cmap.length : Int) = gif.cmapsz) (hwd : 0 < wd ∧ wd ≤ 65535)
    (hbuf : gif.interlaced = false → (buf.length : Int) = wd + 4) (hsize : 2 ≤ size ∧ size ≤ 8) {codes : List Nat}
    {bits pad : List Bool} (hcodes : (pixelCoding size).Codes none codes bits pixels) (hclear : codes.head? = some (2 ^ size))
    (hblocks : ∀ s ∈ blocks, SubBlock s) (hpad : ofBytes blocks.flatten = bits ++ pad) (tail : List Byte) :
    Shows E (begun E ⟨wd, ht⟩ buf size gif) (pack blocks ++ tail) pixels := by
  have hnine : 2 ≤ size ∧ size ≤ 9 := by omega
  have hwithin : Within (begun E ⟨wd, ht⟩ buf size gif) ⟨wd, ht⟩ cmap :=
    begun_within hwd hnine hbytes hinside hcmap hcolors hbuf
  have hfollows : Follows size (some ([], [0])) (begun E ⟨wd, ht⟩ buf size gif).table := by
    have htable : (begun E ⟨wd, ht⟩ buf size gif).table = first_table E size false := congrArg (first_table E size) hclearing
    rw [htable]
    exact .spelled (first_table_spelled hsize)
  have hclean : Clean (begun E ⟨wd, ht⟩ buf size gif).block := by
    refine ⟨hbytes, le_refl _, ?_⟩
    unfold begun
    dsimp only
    omega
  obtain ⟨codes', bits', hrest, hbits⟩ := codes_clear hcodes hclear
  have hwidth : (pixelCoding size).width (some ([], [0])) = size + 1 := by
    obtain ⟨_, _, _, hwidth⟩ := hfollows.table
    exact hwidth.symm
  have hstream : stream (begun E ⟨wd, ht⟩ buf size gif).block blocks =
      low ((pixelCoding size).width (some ([], [0]))) (pixelCoding size).clear ++ (bits' ++ pad) := by
    have hheld : held (begun E ⟨wd, ht⟩ buf size gif).block = [] := by
      rw [← length_eq_zero_iff, held_length (Nat.zero_le _)]
      rfl
    have hunread : unread (begun E ⟨wd, ht⟩ buf size gif).block = [] := take_zero
    rw [stream, hheld, hunread, nil_append, nil_append, hpad, hbits, hwidth, append_assoc]
  have hfit := low_code_fits hfollows (show (pixelCoding size).clear < (pixelCoding size).base from Nat.lt_add_of_pos_right (by decide))
  have hnone : (begun E ⟨wd, ht⟩ buf size gif).block.nbits_left ≤ 7 := Nat.zero_le _
  generalize begun E ⟨wd, ht⟩ buf size gif = first at hwithin hfollows hclean hstream hnone ⊢
  obtain ⟨block, blocks', hcode, hclean', hbits', hblocks', hmore⟩ := read_code hfollows hclean hnone hblocks hfit hstream tail
  apply shows_clear hwithin hfollows hcode
  intro table hcleared htable
  have hkept : Within (first.keep ⟨block, table, first.out, pack blocks' ++ tail⟩) ⟨wd, ht⟩ cmap :=
    hwithin.kept ⟨hwithin.readable.screen, hwithin.readable.drawn, hclean'.whole hbits', htable⟩
  exact codes_shown hrest hkept hcleared hclean' hbits' hblocks' hmore tail

theorem promised_colors (flags : Byte) (h : flags.toNat ≥ 0x80) : (promised flags : Int) = 3 * colors flags := by
  unfold promised colors
  rw [if_pos h]
  push_cast
  rfl

theorem getD_front {s : List Byte} {k : Nat} (h : k < s.length) (x : List Byte) : (s ++ x).getD k 0 = s.getD k 0 :=
  getD_append _ _ _ _ h

theorem shows_header {F : Front} (h : F.Valid E) (hrest : ∀ gif, Fresh gif → gif.state = .InSelect →
    ((F.header.getD 10 0).toNat ≥ 0x80 → ∃ cmap, gif.cmap = some cmap) → Shows E gif x pixels) :
    Shows E gif_info_alloc (F.header ++ (F.colors ++ x)) pixels := by
  have hlong := h.header
  have hlen : ¬ (F.header ++ (F.colors ++ x)).length < 13 := by
    rw [length_append]
    omega
  obtain ⟨hmajor, hminor, hletter⟩ := h.version
  have hmagic : ¬ ((F.header ++ (F.colors ++ x)).take 3 ≠ cstring "GIF" ∨ isdigit ((F.header ++ (F.colors ++ x)).getD 3 0) = false ∨
      isdigit ((F.header ++ (F.colors ++ x)).getD 4 0) = false ∨ isalpha ((F.header ++ (F.colors ++ x)).getD 5 0) = false) := by
    rw [take_append_of_le_length (by omega), h.magic, getD_front (by omega), getD_front (by omega), getD_front (by omega),
      hmajor, hminor, hletter]
    simp
  have hheader : gifTurn E gif_info_alloc (F.header ++ (F.colors ++ x)) =
      if (F.header.getD 10 0).toNat ≥ 0x80 then
        .next { gif_info_alloc with cmapsz := colors (F.header.getD 10 0), state := .InCmap } (F.colors ++ x)
      else .next { gif_info_alloc with state := .InSelect } (F.colors ++ x) := by
    have hturn : gifTurn E gif_info_alloc (F.header ++ (F.colors ++ x)) = header_turn gif_info_alloc (F.header ++ (F.colors ++ x)) := rfl
    rw [hturn, header_turn, if_neg hlen, if_neg hmagic, getD_front (by omega), drop_left' h.header]
  have hends := gifTurn_ends (E := E) before_alloc (F.header ++ (F.colors ++ x))
  have hfresh : Fresh gif_info_alloc := ⟨before_alloc, rfl, rfl⟩
  have hcolors := h.colors
  by_cases hflags : (F.header.getD 10 0).toNat ≥ 0x80
  · rw [if_pos hflags] at hheader
    rw [hheader] at hends
    have hpromised := promised_colors _ hflags
    have hwaiting := fresh_next hfresh hends rfl rfl state_t.noConfusion state_t.noConfusion
    apply shows_early state_t.noConfusion hheader rfl
    generalize hgif : ({ gif_info_alloc with cmapsz := colors (F.header.getD 10 0), state := .InCmap } : gif_info_t) = gif
      at hwaiting ⊢
    have hstate : gif.state = .InCmap := by rw [← hgif]
    have hsize : 3 * gif.cmapsz = F.colors.length := by
      rw [← hgif, hcolors, hpromised]
    have hturn : gifTurn E gif (F.colors ++ x) = .next { getcmap (F.colors ++ x) gif with state := .InSelect } x := by
      rw [gifTurn, hstate]
      dsimp only
      rw [cmap_turn, if_neg (by rw [length_append, hsize]; omega), drop_left' (by omega)]
    have hends' := gifTurn_ends (E := E) hwaiting.before (F.colors ++ x)
    rw [hturn] at hends'
    apply shows_early (by rw [hstate]; exact state_t.noConfusion) hturn rfl
    apply hrest
    · exact fresh_next hwaiting hends' rfl rfl state_t.noConfusion state_t.noConfusion
    · rfl
    · intro _
      exact ⟨_, rfl⟩
  · rw [if_neg hflags] at hheader
    rw [hheader] at hends
    have hnone : F.colors = [] := by
      rw [← length_eq_zero_iff, hcolors]
      exact if_neg hflags
    rw [hnone, nil_append] at hheader ⊢
    apply shows_early state_t.noConfusion hheader rfl
    apply hrest
    · exact fresh_next hfresh hends rfl rfl state_t.noConfusion state_t.noConfusion
    · rfl
    · intro hno
      exact absurd hno hflags

structure Picture (E : GifEnv) where
  front : Front
  size : Nat
  codes : List Nat
  bits : List Bool
  pad : List Bool
  pixels : List Nat
  blocks : List (List Byte)
  valid : front.Valid E
  sizes : 2 ≤ size ∧ size ≤ 8
  coding : (pixelCoding size).Codes none codes bits pixels
  clear : codes.head? = some (2 ^ size)
  packed : ∀ s ∈ blocks, SubBlock s
  stream : ofBytes blocks.flatten = bits ++ pad

def Picture.bytes (P : Picture E) (tail : List Byte) : List Byte := P.front.bytes P.size ++ (pack P.blocks ++ tail)

theorem shows_desc (P : Picture E) (h : Fresh gif) (hstate : gif.state = .InImageDesc)
    (hcmap : (P.front.header.getD 10 0).toNat ≥ 0x80 → ∃ cmap, gif.cmap = some cmap) (tail : List Byte) :
    Shows E gif (P.front.desc ++ (P.front.local_colors ++ BitVec.ofNat 8 P.size :: (pack P.blocks ++ tail))) P.pixels := by
  have hlong := P.valid.desc
  have hlocal := P.valid.local_colors
  have hbyte : (BitVec.ofNat 8 P.size).toNat = P.size := by
    have hsizes := P.sizes
    rw [BitVec.toNat_ofNat, Nat.mod_eq_of_lt (by omega)]
  have hsize : ¬ ((BitVec.ofNat 8 P.size).toNat < 2 ∨ 9 < (BitVec.ofNat 8 P.size).toNat) := by
    have hsizes := P.sizes
    rw [hbyte]
    omega
  have hwd : 0 < P.front.wd ∧ P.front.wd ≤ 65535 := by
    have hlow : (P.front.desc.getD 4 0).toNat < 256 := (P.front.desc.getD 4 0).isLt
    have hhigh : (P.front.desc.getD 5 0).toNat < 256 := (P.front.desc.getD 5 0).isLt
    have hpos := P.valid.area.1
    unfold Front.wd at hpos ⊢
    omega
  have hht := P.valid.area.2
  -- what the image begins with, for the colors that the description chooses
  have hbegin : ∀ (g : gif_info_t) (cmap : List Byte), Before g → g.table.dec_clearing = false → g.out = gif.out →
      g.state ≠ .InImage → g.cmap = some cmap → g.interlaced = (P.front.desc.getD 8 0).getLsbD 6 →
      gifTurn E gif (P.front.desc ++ (P.front.local_colors ++ BitVec.ofNat 8 P.size :: (pack P.blocks ++ tail))) =
        start_image E P.front.wd P.front.ht g (BitVec.ofNat 8 P.size :: (pack P.blocks ++ tail)) →
      Shows E gif (P.front.desc ++ (P.front.local_colors ++ BitVec.ofNat 8 P.size :: (pack P.blocks ++ tail))) P.pixels := by
    intro g cmap hbefore hclearing hout hearly hg hilace hturn
    have hwindow := P.valid.window
    rw [← hilace] at hwindow
    rcases getimage_cases (E := E) P.front.wd P.front.ht g with hnone | ⟨_, buf, himage, hbuf⟩
    · unfold getimage at hnone
      rw [if_neg (by omega), if_pos hwindow] at hnone
      cases hnone
    · rw [start_image_begun hg himage hsize, hbyte] at hturn
      apply shows_early (by rw [hstate]; exact state_t.noConfusion) hturn
      · have hsame : (begun E ⟨P.front.wd, P.front.ht⟩ buf P.size g).out.emitted = g.out.emitted := rfl
        rw [hsame, hout]
      · exact shows_data hbefore.size hbefore.inside hclearing hg (hbefore.colors cmap hg) hwd hbuf P.sizes P.coding P.clear
          P.packed P.stream tail
  generalize hx : BitVec.ofNat 8 P.size :: (pack P.blocks ++ tail) = x at hbegin ⊢
  have hlen : ¬ (P.front.desc ++ (P.front.local_colors ++ x)).length < 9 + 1 := by
    rw [← hx, length_append, length_append, length_cons]
    omega
  have hturn : gifTurn E gif (P.front.desc ++ (P.front.local_colors ++ x)) =
      desc_turn E gif (P.front.desc ++ (P.front.local_colors ++ x)) := by
    rw [gifTurn, hstate]
  rw [desc_turn, if_neg hlen, getD_front (by omega), getD_front (by omega), getD_front (by omega), getD_front (by omega),
    getD_front (by omega)] at hturn
  have hsome := P.valid.some_colors
  unfold Front.wd Front.ht at hbegin
  generalize P.front.desc.getD 8 0 = flags at hturn hlocal hbegin hsome
  dsimp only at hturn
  by_cases hflags : flags.toNat ≥ 0x80
  · have hpromised := promised_colors _ hflags
    have hall : ¬ ((P.front.desc ++ (P.front.local_colors ++ x)).length : Int) < 9 + 3 * colors flags + 1 := by
      rw [← hx, length_append, length_append, length_cons, Nat.cast_add, Nat.cast_add, Nat.cast_add]
      omega
    have hrest : (P.front.desc ++ (P.front.local_colors ++ x)).drop (9 + 3 * colors flags).toNat = x := by
      have hfront : (P.front.desc ++ P.front.local_colors).length = (9 + 3 * colors flags).toNat := by
        rw [length_append]
        omega
      rw [← append_assoc, drop_left' hfront]
    rw [if_pos hflags, if_neg hall, hrest] at hturn
    apply hbegin _ _ _ _ _ _ _ _ hturn
    · exact greys (colors flags).toNat ((P.front.desc ++ (P.front.local_colors ++ x)).drop 9)
    · refine ⟨?_, h.before.size, h.before.inside, ?_, ?_, ?_⟩
      · exact h.before.early
      · intro hheader
        exact absurd (hstate.symm.trans hheader) state_t.noConfusion
      · intro _
        exact colors_pos flags
      · intro cmap hcmap
        exact getcmap_colors (colors_pos flags) _ hcmap
    · exact h.clearing
    · rfl
    · exact h.before.early.1
    · rfl
    · rfl
  · obtain ⟨cmap, hcmap⟩ := hcmap (by omega)
    have hnone : P.front.local_colors = [] := by
      rw [← length_eq_zero_iff, hlocal]
      exact if_neg hflags
    rw [if_neg hflags, hnone, nil_append, drop_left' hlong] at hturn
    rw [hnone, nil_append] at hbegin ⊢
    apply hbegin _ cmap _ _ _ _ _ _ hturn
    · exact ⟨h.before.early, h.before.size, h.before.inside, h.before.fresh, h.before.sized, h.before.colors⟩
    · exact h.clearing
    · rfl
    · exact h.before.early.1
    · exact hcmap
    · rfl

theorem Picture.shows (P : Picture E) (tail : List Byte) : Shows E gif_info_alloc (P.bytes tail) P.pixels := by
  have hbytes : P.bytes tail = P.front.header ++ (P.front.colors ++ (P.front.extensions.flatMap extension ++
      44 :: (P.front.desc ++ (P.front.local_colors ++ BitVec.ofNat 8 P.size :: (pack P.blocks ++ tail))))) := by
    unfold Picture.bytes Front.bytes
    simp [append_assoc]
  rw [hbytes]
  apply shows_header P.valid
  intro gif hfresh hstate hcmap
  apply shows_extensions hstate P.valid.extensions
  have hturn (x : List Byte) : gifTurn E gif (44 :: x) = .next { gif with state := .InImageDesc } x := by
    rw [gifTurn, hstate]
    rfl
  have hends := gifTurn_ends (E := E) hfresh.before
    (44 :: (P.front.desc ++ (P.front.local_colors ++ BitVec.ofNat 8 P.size :: (pack P.blocks ++ tail))))
  rw [hturn] at hends
  apply shows_early (by rw [hstate]; exact state_t.noConfusion) (hturn _) rfl
  exact shows_desc P (fresh_next hfresh hends rfl rfl state_t.noConfusion state_t.noConfusion) rfl hcmap tail

def plainEnv : GifEnv := { getwin := fun _ _ _ => true, cur_y := fun _ _ _ _ => 0, suffix := fun _ => 0, prefixes := fun _ => 0 }

def rowFront : Front where
  header := cstring "GIF" ++ [56, 55, 97, 3, 0, 1, 0, 0x80, 0, 0]
  colors := [0, 0, 0, 255, 255, 255]
  extensions := []
  desc := [0, 0, 0, 0, 3, 0, 1, 0, 0]
  local_colors := []

theorem rowFront_valid : rowFront.Valid plainEnv := by
  refine ⟨rfl, rfl, ⟨rfl, rfl, rfl⟩, rfl, nofun, rfl, rfl, .inl ?_, ?_, rfl⟩
  · decide
  · decide

theorem row_coding : (pixelCoding 2).Codes none [4, 1, 6, 5] (low 3 4 ++ (low 3 1 ++ (low 3 6 ++ low 3 5))) [1, 1, 1] := by
  have hend : (pixelCoding 2).Codes (some ([[1, 1]], [1, 1])) [5] (low 3 5) [] := .ending _
  have hnext : (pixelCoding 2).Codes (some ([], [1])) [6, 5] (low 3 6 ++ low 3 5) [1, 1] :=
    .next (by decide) rfl hend
  have hfirst : (pixelCoding 2).Codes none [1, 6, 5] (low 3 1 ++ (low 3 6 ++ low 3 5)) [1, 1, 1] := .first (by decide) hnext
  exact .clear none hfirst

def row : Picture plainEnv where
  front := rowFront
  size := 2
  codes := [4, 1, 6, 5]
  bits := low 3 4 ++ (low 3 1 ++ (low 3 6 ++ low 3 5))
  pad := [false, false, false, false]
  pixels := [1, 1, 1]
  blocks := [[0x8C, 0x0B]]
  valid := rowFront_valid
  sizes := by decide
  coding := row_coding
  clear := rfl
  packed := by simp [SubBlock]
  stream := by decide

/-- The color indices of an image are its pixels, and do not depend on how the file was cut. -/
theorem picture_pixels (E : GifEnv) (P : Picture E) (tail : List Byte) : ∃ gif, gif.state = .Skip ∧
    gif.out.emitted = P.pixels.map (fun p : Nat => (p : Int)) ∧ ∀ reads : List (List Byte), reads.flatten = P.bytes tail →
      ∃ iop, gif_deliver E gif_start reads = some iop ∧ iop.ihook = gif := by
  obtain ⟨horder, t, q, hfeeds, hskip, hemitted⟩ := P.shows tail
  refine ⟨t, hskip, hemitted, fun reads hreads => ?_⟩
  exact deliver_end horder hfeeds hskip hreads

theorem picture_pixels_row : ∃ iop, gif_deliver plainEnv gif_start [(row.bytes [0]).take 30, (row.bytes [0]).drop 30] = some iop ∧
    iop.ihook.out.emitted = [1, 1, 1] := by
  obtain ⟨gif, _, hemitted, hdeliver⟩ := picture_pixels plainEnv row [0]
  obtain ⟨iop, hiop, rfl⟩ := hdeliver [(row.bytes [0]).take 30, (row.bytes [0]).drop 30] (by decide)
  exact ⟨iop, hiop, hemitted⟩

end WWindowSystem.Gif

namespace WWindowSystem.Gif

open Bits Lzw

variable {E : GifEnv} {gif t : gif_info_t} {cp q : List Byte} {img : gif_image} {cmap : List Byte} {table : gif_table} {c : Int}

/-- A file whose codes are in order is read to its end, with all accesses inside the arrays. -/
theorem gif_deliver_safe (E : GifEnv) (reads : List (List Byte)) (h : Orderly E gif_info_alloc reads.flatten) :
    ∃ iop, gif_deliver E gif_start reads = some iop := by
  obtain ⟨iop, hiop, _⟩ := deliver_place place_start h
  exact ⟨iop, hiop⟩

theorem gif_deliver_safe_row :
    ∃ iop, gif_deliver plainEnv gif_start [(row.bytes [0]).take 30, (row.bytes [0]).drop 30] = some iop :=
  gif_deliver_safe plainEnv [(row.bytes [0]).take 30, (row.bytes [0]).drop 30] (row.shows [0]).1

theorem scan_self (hlow : table.newcodes ≤ c) (hlink : short (table.prefixes c) = c) (n : Nat) (dstack : List Byte) :
    (runLoop (scan table) n (c, dstack)).join = none := by
  induction n generalizing dstack with
  | zero => rfl
  | succ n ih =>
    have hturn : scan table (c, dstack) = .inr none ∨ ∃ more, scan table (c, dstack) = .inl (c, more) := by
      unfold scan
      dsimp only
      rw [if_pos hlow, hlink]
      split_ifs
      · cases push (table.suffix c) dstack with
        | none => exact .inl rfl
        | some more => exact .inr ⟨more, rfl⟩
      · exact .inl rfl
    unfold runLoop
    rcases hturn with hturn | ⟨more, hturn⟩
    · rw [hturn]
      rfl
    · rw [hturn]
      exact ih more

theorem decode_self (hlow : table.newcodes ≤ c) (hhigh : c < table.slot) (hlink : short (table.prefixes c) = c) :
    decode_code c table = none := by
  unfold decode_code
  dsimp only
  rw [if_neg (by omega), Option.bind_some, scan_self hlow hlink]
  rfl

theorem loop_bad (h : Feeds (gifStep E) gif cp t q) (hstate : t.state = .InImage) (himg : t.img = some img)
    (hcmap : t.cmap = some cmap) (hbad : codeTurn E (t.screen img cmap) (t.reading q) = .inr none) :
    (gif.state = .InImage → ∃ img cmap, gif.img = some img ∧ gif.cmap = some cmap ∧ ∀ n,
      (runLoop (codeTurn E (gif.screen img cmap)) n (gif.reading cp)).join = none) ∧
        ∀ n, (runLoop (gifLoop E) n (gif, cp)).join = none := by
  have himage : ∀ (g : gif_info_t) (r : List Byte) img cmap, g.state = .InImage → g.img = some img → g.cmap = some cmap →
      (∀ n, (runLoop (codeTurn E (g.screen img cmap)) n (g.reading r)).join = none) →
      ∀ n, (runLoop (gifLoop E) n (g, r)).join = none := by
    intro g r img cmap hg hgimg hgcmap hcodes n
    cases n with
    | zero => rfl
    | succ n =>
      have hturn : gifTurn E g r = .bad := by
        obtain ⟨img', state, cmap', cmapsz, maxval, interlaced, block, table, out⟩ := g
        cases hg
        cases hgimg
        cases hgcmap
        unfold gifTurn image_turn decoder
        dsimp only
        unfold gif_info_t.reading at hcodes
        dsimp only at hcodes
        rw [hcodes]
      unfold runLoop gifLoop
      dsimp only
      rw [hturn]
      rfl
  induction h with
  | refl t q =>
    have hcodes : ∀ n, (runLoop (codeTurn E (t.screen img cmap)) n (t.reading q)).join = none := by
      intro n
      cases n with
      | zero => rfl
      | succ n =>
        unfold runLoop
        rw [hbad]
        rfl
    exact ⟨fun _ => ⟨img, cmap, himg, hcmap, hcodes⟩, himage t q img cmap hstate himg hcmap hcodes⟩
  | @head g g' t r r' q hstep hrest ih =>
    obtain ⟨hin, hloop⟩ := ih hstate himg hcmap hbad
    by_cases hg : g.state = .InImage
    · have hcodes : ∃ img cmap, g.img = some img ∧ g.cmap = some cmap ∧
          ∀ n, (runLoop (codeTurn E (g.screen img cmap)) n (g.reading r)).join = none := by
        cases hgimg : g.img with
        | none =>
          unfold gifStep at hstep
          rw [hg, hgimg] at hstep
          cases hstep
        | some img₁ =>
          cases hgcmap : g.cmap with
          | none =>
            unfold gifStep at hstep
            rw [hg, hgimg, hgcmap] at hstep
            cases hstep
          | some cmap₁ =>
            refine ⟨img₁, cmap₁, rfl, rfl, fun n => ?_⟩
            rw [step_image hg hgimg hgcmap] at hstep
            cases hturn : codeTurn E (g.screen img₁ cmap₁) (g.reading r) with
            | inl d =>
              rw [hturn] at hstep
              cases hstep
              obtain ⟨img₂, cmap₂, himg₂, hcmap₂, hnone⟩ := hin hg
              cases hgimg.symm.trans himg₂
              cases hgcmap.symm.trans hcmap₂
              cases n with
              | zero => rfl
              | succ n =>
                unfold runLoop
                rw [hturn]
                exact hnone n
            | inr result =>
              cases result with
              | none =>
                rw [hturn] at hstep
                cases hstep
              | some p =>
                obtain ⟨i, d⟩ := p
                rw [hturn] at hstep
                dsimp only at hstep
                split_ifs at hstep
                cases hstep
                -- the ending code is the last one
                cases hrest with
                | refl => cases hstate
                | head hnext _ =>
                  rw [step_skip rfl] at hnext
                  cases hnext
      obtain ⟨img₁, cmap₁, hgimg, hgcmap, hnone⟩ := hcodes
      exact ⟨fun _ => ⟨img₁, cmap₁, hgimg, hgcmap, hnone⟩, himage g r img₁ cmap₁ hg hgimg hgcmap hnone⟩
    · refine ⟨fun hin => absurd hin hg, fun n => ?_⟩
      cases n with
      | zero => rfl
      | succ n =>
        rw [step_early hg] at hstep
        unfold runLoop gifLoop
        dsimp only
        cases hturn : gifTurn E g r with
        | next g₁ r₁ =>
          rw [hturn] at hstep
          cases hstep
          exact hloop n
        | stop g₁ r₁ i =>
          rw [hturn] at hstep
          cases hstep
        | bad =>
          rw [hturn] at hstep
          cases hstep

def badCodes : List Byte :=
  rowFront.bytes 2 ++ [2, 0xC7, 0x01]

def codeValue : Code → Nat
  | .code c _ _ => c
  | _ => 0

/-- After an undefined code the next entry is linked to itself. -/
theorem gif_deliver_unsafe : gif_deliver plainEnv gif_start [badCodes] = none := by
  have hrun : (feed (gifStep plainEnv) 6 gif_info_alloc badCodes).map (fun p =>
      ((p.1.state, p.1.img.isSome, p.1.cmap.isSome, p.1.table.dec_clearing),
        (p.1.table.newcodes, p.1.table.slot, p.1.table.prefixes 7), (p.1.table.ending, p.1.table.clear),
        codeValue (get_next_code p.1.table.curr_size p.1.block p.2))) =
          some ((.InImage, true, true, false), (6, 8, 7), (5, 4), 7) := by decide +kernel
  rw [Option.map_eq_some_iff] at hrun
  obtain ⟨⟨t, q⟩, hfeed, ht⟩ := hrun
  simp only [Prod.mk.injEq] at ht
  obtain ⟨⟨hstate, himg, hcmap, hclearing⟩, ⟨hnew, hslot, hlink⟩, ⟨hending, hclear⟩, hcode⟩ := ht
  obtain ⟨img, himg⟩ := Option.isSome_iff_exists.mp himg
  obtain ⟨cmap, hcmap⟩ := Option.isSome_iff_exists.mp hcmap
  have hbad : codeTurn plainEnv (t.screen img cmap) (t.reading q) = .inr none := by
    cases hget : get_next_code t.table.curr_size t.block q with
    | bad =>
      rw [hget] at hcode
      cases hcode
    | eof =>
      rw [hget] at hcode
      cases hcode
    | code c block input =>
      rw [hget] at hcode
      have hseven : c = 7 := hcode
      subst hseven
      have hself : decode_code 7 t.table = none := decode_self (by omega) (by omega) (by rw [hlink]; rfl)
      rw [codeTurn_code (E := plainEnv) (s := t.screen img cmap) (d := t.reading q) hget, take_code]
      have hsame : ({ t.reading q with block := block, input := input } : Reading).table = t.table := rfl
      rw [hsame, hending, hclear, hclearing]
      simp only [Nat.cast_ofNat]
      rw [hself]
      rfl
  have hloop := (loop_bad (Feeds.of_feed hfeed) hstate himg hcmap hbad).2
  have hnone : gif_decoder_decode plainEnv (gif_start.read badCodes false) = none := by
    unfold gif_decoder_decode
    have hhook : (gif_start.read badCodes false).ihook = gif_info_alloc := rfl
    have hibuf : (gif_start.read badCodes false).ibuf = badCodes := rfl
    rw [hhook, hibuf, hloop]
    rfl
  rw [gif_deliver, hnone]
  rfl

end WWindowSystem.Gif
