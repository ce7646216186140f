import Mathlib.Tactic.Positivity
import WWindowSystem.Wetscape.GifLzw

namespace WWindowSystem.Gif

variable {E : GifEnv} {s : gif_screen} {out : gif_pixels}

structure Screen (s : gif_screen) : Prop where
  colors : (s.cmap.length : Int) = s.cmapsz
  wd : 0 < s.img.wd ∧ s.img.wd ≤ 65535

structure Drawn (s : gif_screen) (out : gif_pixels) : Prop where
  low : 0 ≤ out.dec_x
  high : out.dec_x < max 1 (short s.img.wd)
  buffer : s.interlaced = false → (out.errbuf.length : Int) = s.img.wd + 4

theorem short_width (h : Screen s) : short s.img.wd ≤ s.img.wd ∧ short s.img.wd ≤ 32767 := by
  have hwd := h.wd
  unfold short
  omega

theorem pixel_color_safe (h : Screen s) {c : Int} (hc : 0 ≤ c) : ∃ color, pixel_color s c = some color := by
  have hcolors := h.colors
  unfold pixel_color
  split_ifs with hless
  · exact ⟨_, List.getElem?_eq_getElem (by omega)⟩
  · exact ⟨0, rfl⟩

theorem cell_length (buf : List (Int × Int)) (k : Int) (odd : Bool) (f : Int → Int) : (cell buf k odd f).length = buf.length :=
  List.length_modify _ _ _

theorem dither_fs_safe {x : Int} {buf : List (Int × Int)} (hlow : 0 ≤ x) (hhigh : x + 2 < buf.length) (y : Int) (col : Byte)
    (maxval : Int) : ∃ val buf', dither_fs x y col buf maxval = some (val, buf') ∧ buf'.length = buf.length := by
  unfold dither_fs
  rw [if_neg (by omega), List.getElem?_eq_getElem (by omega : (x + 1).toNat < buf.length)]
  refine ⟨_, _, rfl, ?_⟩
  rw [cell_length, cell_length, cell_length, cell_length, cell_length]

theorem dither_safe (h : Screen s) (hd : Drawn s out) (col : Byte) : ∃ val buf,
    dither E s col out = some (val, { out with errbuf := buf }) ∧ (s.interlaced = false → (buf.length : Int) = s.img.wd + 4) := by
  have hlow := hd.low
  have hhigh := hd.high
  have hwd := h.wd
  have hshort := short_width h
  unfold dither
  dsimp only
  split_ifs with hilace
  · refine ⟨_, out.errbuf, rfl, ?_⟩
    intro hnot
    rw [hilace] at hnot
    cases hnot
  · have hbuffer := hd.buffer (by simpa using hilace)
    have hinside : out.dec_x + 2 < out.errbuf.length := by omega
    obtain ⟨val, buf, hval, hbuf⟩ :=
      dither_fs_safe hlow hinside (E.cur_y s.img.wd s.img.ht s.interlaced out.added) col s.maxval
    refine ⟨val, buf, by rw [hval]; rfl, fun _ => ?_⟩
    rw [hbuf]
    exact hbuffer

theorem put_pixel_safe (h : Screen s) (hd : Drawn s out) {c : Int} (hc : 0 ≤ c) :
    ∃ out', put_pixel E s out c = some out' ∧ Drawn s out' ∧ out'.emitted = out.emitted ++ [c] := by
  have hlow := hd.low
  have hhigh := hd.high
  have hshort := short_width h
  obtain ⟨color, hcolor⟩ := pixel_color_safe h hc
  obtain ⟨val, buf, hdither, hbuf⟩ := dither_safe (E := E) h hd color
  have hx : short (out.dec_x + 1) = out.dec_x + 1 := short_of_range (by omega) (by omega)
  unfold put_pixel
  rw [hcolor, Option.bind_some, hdither, Option.map_some]
  dsimp only
  rw [hx]
  generalize (if val = true then out.pixels else out.pixels ||| out.mask) = pix
  split_ifs with hline hbyte
  · exact ⟨_, rfl, ⟨le_refl _, by dsimp only; omega, hbuf⟩, rfl⟩
  · exact ⟨_, rfl, ⟨by dsimp only; omega, by dsimp only; omega, hbuf⟩, rfl⟩
  · exact ⟨_, rfl, ⟨by dsimp only; omega, by dsimp only; omega, hbuf⟩, rfl⟩

theorem fold_pixels_safe (h : Screen s) (hd : Drawn s out) {l : List Int} (hl : ∀ c ∈ l, 0 ≤ c) :
    ∃ out', l.foldlM (put_pixel E s) out = some out' ∧ Drawn s out' ∧ out'.emitted = out.emitted ++ l := by
  induction l generalizing out with
  | nil => exact ⟨out, rfl, hd, (List.append_nil _).symm⟩
  | cons c l ih =>
    rw [List.forall_mem_cons] at hl
    obtain ⟨next, hnext, hdrawn, hemitted⟩ := put_pixel_safe (E := E) h hd hl.1
    obtain ⟨last, hlast, hend, hall⟩ := ih hdrawn hl.2
    refine ⟨last, ?_, hend, ?_⟩
    · rw [List.foldlM_cons, hnext]
      exact hlast
    · rw [hall, hemitted, List.append_assoc]
      rfl

theorem put_pixels_safe (h : Screen s) (hd : Drawn s out) (dstack : List Byte) :
    ∃ out', put_pixels E s out dstack = some out' ∧ Drawn s out' ∧
      out'.emitted = out.emitted ++ dstack.map fun c => (c.toNat : Int) := by
  apply fold_pixels_safe h hd
  intro c hc
  obtain ⟨b, _, rfl⟩ := List.mem_map.mp hc
  exact Int.natCast_nonneg _

end WWindowSystem.Gif

namespace WWindowSystem.Gif

variable {t t' : gif_table} {c d : Int} {l dstack : List Byte}

structure Entered (t : gif_table) : Prop where
  size : 2 ≤ t.dec_size ∧ t.dec_size ≤ 9
  clear : t.clear = 2 ^ t.dec_size
  ending : t.ending = t.clear + 1
  newcodes : t.newcodes = t.clear + 2
  low : t.newcodes ≤ t.slot
  width : t.dec_size + 1 ≤ t.curr_size ∧ t.curr_size ≤ 12
  top : t.top_slot = 2 ^ t.curr_size
  fit : t.slot ≤ t.top_slot
  links : ∀ k, t.newcodes ≤ k → k < t.slot → 0 ≤ t.prefixes k ∧ t.prefixes k < k
  oc : t.dec_clearing = false → 0 ≤ t.dec_oc ∧ t.dec_oc < t.slot

structure Table (t : gif_table) : Prop extends Entered t where
  room : t.slot < t.top_slot ∨ t.curr_size = 12 ∧ t.slot = 4096

theorem pow_le_4096 {n : Nat} (h : n ≤ 12) : (2 : Int) ^ n ≤ 4096 := by
  have hpow : (2 : Int) ^ n ≤ 2 ^ 12 := pow_le_pow_right₀ (by decide) h
  exact hpow

theorem Entered.high (h : Entered t) : t.slot ≤ 4096 := by
  have hpow := pow_le_4096 h.width.2
  have hfit := h.fit
  rw [h.top] at hfit
  omega

theorem Entered.clear_range (h : Entered t) : 4 ≤ t.clear ∧ t.clear ≤ 512 := by
  obtain ⟨hlow, hhigh⟩ := h.size
  have hle : (2 : Int) ^ 2 ≤ 2 ^ t.dec_size := pow_le_pow_right₀ (by decide) hlow
  have hge : (2 : Int) ^ t.dec_size ≤ 2 ^ 9 := pow_le_pow_right₀ (by decide) hhigh
  rw [h.clear]
  exact ⟨hle, hge⟩

/-- The list that is linked from the code `c`: it ends at `d`, and its characters are `l`. -/
inductive Chain (t : gif_table) : Int → Int → List Byte → Prop
  | bottom {c : Int} (hc : c < t.newcodes) : Chain t c c []
  | entry {c d : Int} {l : List Byte} (hlow : t.newcodes ≤ c) (hhigh : c < t.slot) (h : Chain t (t.prefixes c) d l) :
      Chain t c d (l ++ [t.suffix c])

theorem chain_exists (h : Table t) (hc : c < t.slot) : ∃ d l, Chain t c d l ∧ (0 ≤ c → 0 ≤ d) := by
  have hclear := h.clear_range
  have hnew := h.newcodes
  induction hn : c.toNat using Nat.strong_induction_on generalizing c with
  | _ n ih =>
    by_cases hbottom : c < t.newcodes
    · exact ⟨c, [], .bottom hbottom, id⟩
    · obtain ⟨hpos, hless⟩ := h.links c (by omega) hc
      obtain ⟨d, l, hchain, hd⟩ := ih (t.prefixes c).toNat (by omega) (by omega) rfl
      exact ⟨d, l ++ [t.suffix c], .entry (by omega) hc hchain, fun _ => hd hpos⟩

theorem Chain.length_le (h : Table t) (hchain : Chain t c d l) : (l.length : Int) ≤ max 0 (c - t.newcodes + 1) := by
  induction hchain with
  | bottom hc => simp
  | @entry c d l hlow hhigh _ ih =>
    obtain ⟨_, hless⟩ := h.links c hlow hhigh
    rw [List.length_append, List.length_singleton]
    push_cast
    omega

theorem scan_chain (ht : Table t) (h : Chain t c d l) {n : Nat} (hroom : dstack.length + l.length ≤ 4096) (hn : l.length < n) :
    runLoop (scan t) n (c, dstack) = some (some (d, l ++ dstack)) := by
  have hclear := ht.clear_range
  have hnew := ht.newcodes
  have hslot := ht.high
  induction h generalizing dstack n with
  | bottom hc =>
    obtain ⟨n, rfl⟩ : ∃ k, n = k + 1 := ⟨n - 1, by omega⟩
    rw [runLoop, scan, if_neg (by dsimp only; omega)]
    rfl
  | @entry c d l hlow hhigh h ih =>
    rw [List.length_append, List.length_singleton] at hroom hn
    obtain ⟨n, rfl⟩ : ∃ k, n = k + 1 := ⟨n - 1, by omega⟩
    obtain ⟨hpos, hless⟩ := ht.links c hlow hhigh
    have hin : inTable c := by
      unfold inTable MAX_CODES
      omega
    have hpush : push (t.suffix c) dstack = some (t.suffix c :: dstack) := by
      unfold push MAX_CODES
      rw [if_pos (by omega)]
    have hturn : scan t (c, dstack) = .inl (t.prefixes c, t.suffix c :: dstack) := by
      unfold scan
      dsimp only
      rw [if_pos hlow, if_pos hin, hpush]
      dsimp only
      rw [short_of_range (by omega) (by omega)]
    have hrest : runLoop (scan t) n (t.prefixes c, t.suffix c :: dstack) = some (some (d, l ++ t.suffix c :: dstack)) :=
      ih (by rw [List.length_cons]; omega) (by omega)
    rw [runLoop, hturn]
    dsimp only
    rw [hrest, List.append_assoc]
    rfl

def added (c d : Int) (t : gif_table) : gif_table :=
  if t.slot < t.top_slot then
    { t with
      dec_fc := d
      suffix := fun k => if k = t.slot then uchar d else t.suffix k
      prefixes := fun k => if k = t.slot then t.dec_oc else t.prefixes k
      slot := t.slot + 1
      dec_oc := c }
  else t

theorem new_slot_added (h : Table t) (c d : Int) : new_slot c d t = some (added c d t) := by
  have hclear := h.clear_range
  have hnew := h.newcodes
  have hlow := h.low
  have hpow := pow_le_4096 h.width.2
  have htop := h.top
  unfold new_slot added
  split_ifs with hroom hin
  · rfl
  · exact absurd ⟨by omega, by unfold MAX_CODES; push_cast; omega⟩ hin
  · rfl

theorem decode_known (h : Table t) (hc : c < t.slot) (hchain : Chain t c d l) :
    decode_code c t = some (uchar d :: l, grow (added c d t)) := by
  have hclear := h.clear_range
  have hnew := h.newcodes
  have hhigh := h.high
  have hlen := hchain.length_le h
  have hscan : runLoop (scan t) (MAX_CODES + 2) (c, []) = some (some (d, l ++ [])) :=
    scan_chain h hchain (by rw [List.length_nil]; omega) (by unfold MAX_CODES; omega)
  rw [List.append_nil] at hscan
  have hpush : push (uchar d) l = some (uchar d :: l) := by
    unfold push MAX_CODES
    rw [if_pos (by omega)]
  unfold decode_code
  dsimp only
  rw [if_neg (by omega), Option.bind_some, hscan]
  dsimp only [Option.join_some, Option.bind_some]
  rw [hpush, Option.bind_some, new_slot_added h]
  rfl

theorem decode_next (h : Table t) (hoc : t.dec_oc < t.slot) (hc : t.slot ≤ c) (hchain : Chain t t.dec_oc d l) :
    decode_code c t = some (uchar d :: (l ++ [uchar t.dec_fc]), grow (added c d t)) := by
  have hclear := h.clear_range
  have hnew := h.newcodes
  have hhigh := h.high
  have hlen := hchain.length_le h
  have hscan : runLoop (scan t) (MAX_CODES + 2) (t.dec_oc, [uchar t.dec_fc]) = some (some (d, l ++ [uchar t.dec_fc])) :=
    scan_chain h hchain (by rw [List.length_singleton]; omega) (by unfold MAX_CODES; omega)
  have hpush : push (uchar d) (l ++ [uchar t.dec_fc]) = some (uchar d :: (l ++ [uchar t.dec_fc])) := by
    unfold push MAX_CODES
    rw [if_pos (by rw [List.length_append, List.length_singleton]; omega)]
  have hfirst : push (uchar t.dec_fc) [] = some [uchar t.dec_fc] := rfl
  unfold decode_code
  dsimp only
  rw [if_pos hc, hfirst, Option.map_some, Option.bind_some, hscan]
  dsimp only [Option.join_some, Option.bind_some]
  rw [hpush, Option.bind_some, new_slot_added h]
  rfl

theorem Entered.grow (h : Entered t) : Table (grow t) := by
  have htop := h.top
  have hwidth := h.width
  have hfit := h.fit
  unfold Gif.grow
  split_ifs with hfull hsize
  · have hdouble : t.top_slot * 2 = 2 ^ (t.curr_size + 1) := by rw [pow_succ, ← htop]
    refine ⟨⟨h.size, h.clear, h.ending, h.newcodes, h.low, ⟨by dsimp only; omega, by dsimp only; omega⟩, hdouble, ?_, h.links, h.oc⟩, .inl ?_⟩
    · have hpos : (0 : Int) < 2 ^ t.curr_size := by positivity
      dsimp only
      omega
    · have hpos : (0 : Int) < 2 ^ t.curr_size := by positivity
      dsimp only
      omega
  · have hlast : t.curr_size = 12 := by omega
    refine ⟨h, .inr ⟨hlast, ?_⟩⟩
    rw [hlast] at htop
    have hpow : (2 : Int) ^ 12 = 4096 := by norm_num
    omega
  · exact ⟨h, .inl (by omega)⟩

theorem Table.added (h : Table t) (hclearing : t.dec_clearing = false) (hpos : 0 ≤ c) (hc : c ≤ t.slot) (d : Int) :
    Table (Gif.grow (added c d t)) := by
  obtain ⟨hoclow, hochigh⟩ := h.oc hclearing
  have hlow := h.low
  apply Entered.grow
  unfold Gif.added
  split_ifs with hroom
  · refine ⟨h.size, h.clear, h.ending, h.newcodes, by dsimp only; omega, h.width, h.top, by dsimp only; omega, ?_, ?_⟩
    · intro k hk hk'
      dsimp only at hk hk' ⊢
      by_cases hlast : k = t.slot
      · rw [if_pos hlast, hlast]
        exact ⟨hoclow, hochigh⟩
      · rw [if_neg hlast]
        exact h.links k hk (by omega)
    · intro _
      dsimp only
      omega
  · exact h.toEntered

def cleared (t : gif_table) : gif_table :=
  { t with
    curr_size := t.dec_size + 1
    slot := t.newcodes
    top_slot := 2 ^ (t.dec_size + 1)
    dec_clearing := true }

theorem Table.cleared (h : Table t) : Table (cleared t) := by
  have hsize := h.size
  have hclear := h.clear
  have hnew := h.newcodes
  have hroom : t.newcodes < 2 ^ (t.dec_size + 1) := by
    have hrange := h.clear_range
    rw [pow_succ, ← hclear]
    omega
  refine ⟨⟨hsize, hclear, h.ending, hnew, le_refl _, ⟨le_refl _, ?_⟩, rfl, ?_, ?_, ?_⟩, .inl hroom⟩
  · unfold Gif.cleared
    dsimp only
    omega
  · exact le_of_lt hroom
  · intro k hk hk'
    unfold Gif.cleared at hk hk'
    dsimp only at hk hk'
    omega
  · intro hoff
    cases hoff

theorem Table.begun (h : Table t) (hpos : 0 ≤ c) (hc : c < t.slot) :
    Table { t with dec_oc := c, dec_fc := c, dec_clearing := false } :=
  ⟨⟨h.size, h.clear, h.ending, h.newcodes, h.low, h.width, h.top, h.fit, h.links, fun _ => ⟨hpos, hc⟩⟩, h.room⟩

end WWindowSystem.Gif
