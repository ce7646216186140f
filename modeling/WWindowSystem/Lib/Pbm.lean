import WWindowSystem.Lib.Rows
import WWindowSystem.Library.Strings
import WWindowSystem.Server.Fonts

namespace WWindowSystem.Pbm

open List Option

structure Image where
  head : BITMAP
  data : List Byte
  palette : List Rgb := []

def writeRows (n stride : Nat) : Nat → List Byte → List Byte
  | 0, _ => []
  | height + 1, data => data.take n ++ writeRows n stride height (data.drop stride)

def mono_saver (im : Image) : List Byte :=
  writeRows ((im.head.width + 7) / 8) im.head.linesize.toNat im.head.height im.data

def color_saver (im : Image) : List Byte :=
  decimal im.head.colors.toNat ++ ascii "\n" ++
    (im.palette.take im.head.colors.toNat).flatMap (fun c => [c.red, c.green, c.blue]) ++
    writeRows im.head.width im.head.linesize.toNat im.head.height im.data

def trueColor_saver (im : Image) : List Byte :=
  decimal 255 ++ ascii "\n" ++ im.data.take (im.head.width * 3 * im.head.height)

def pbmHeader (type : Byte) (bm : BITMAP) : List Byte :=
  [0x50, type, 0x0a] ++ decimal bm.width ++ ascii " " ++ decimal bm.height ++ ascii "\n"

def w_writepbm (w_convertBitmap : Image → Option Image) (im : Image) : Option (List Byte) :=
  match im.head.type with
  | .packedmono => some (pbmHeader 0x34 im.head ++ mono_saver im)
  | .packedcolor => (w_convertBitmap im).map fun im => pbmHeader 0x38 im.head ++ color_saver im
  | .direct8 => some (pbmHeader 0x38 im.head ++ color_saver im)
  | .direct24 => some (pbmHeader 0x36 im.head ++ trueColor_saver im)
  | .packedcolormono => none

def IS_SPACE (c : Byte) : Bool := c = 0x20 || c = 0x09 || c = 0x0a || c = 0x0d

def IS_LINE_END (c : Byte) : Bool := c = 0x0a || c = 0x0d

/-- The calls of `pbm_getc` in `pbm_next`, inside a comment or outside. The end of a comment is white space,
and `none` is EOF. -/
def pbm_next (comment : Bool) : List Byte → Option Byte × List Byte
  | [] => (none, [])
  | c :: s =>
    if comment then pbm_next (!IS_LINE_END c) s
    else if c = 0x23 then pbm_next true s
    else if IS_SPACE c then pbm_next false s
    else (some c, s)

def digits (number : Int) (ch : Option Byte) : List Byte → Int × Option Byte × List Byte
  | [] =>
    match ch with
    | some c => if isdigit c then (number * 10 + c.toNat - 48, none, []) else (number, ch, [])
    | none => (number, ch, [])
  | d :: s =>
    match ch with
    | some c => if isdigit c then digits (number * 10 + c.toNat - 48) (some d) s else (number, ch, d :: s)
    | none => (number, ch, d :: s)

def pbm_getint (s : List Byte) : Int × List Byte :=
  let r := pbm_next false s
  let r := digits 0 r.1 r.2
  (if r.2.1.any IS_SPACE then r.1 else -1, r.2.2)

def w_allocbm (width height : Int) (type : BitmapType) (colors : Int) : Option BITMAP :=
  if width < 1 ∨ height < 1 then none
  else if type = .direct8 ∧ colors < 2 then none
  else (w_bmheader 8 { width := width.toNat, height := height.toNat, type, colors }).bind fun bm =>
    if bm.linesize < 0 then none else some bm

/-- `height` times `n` bytes from the file into lines of `stride` bytes, whose ends stay as `malloc` left
them. -/
def readRows (n stride : Nat) (garbage : Nat → Nat → Byte) : Nat → List Byte → Option (List Byte)
  | 0, _ => some []
  | height + 1, s =>
    if s.length < n then none
    else (readRows n stride garbage height (s.drop n)).map fun l =>
      s.take n ++ (List.range (stride - n)).map (garbage height) ++ l

def mono_loader (garbage : Nat → Nat → Byte) (width height : Int) (s : List Byte) : Option Image := do
  let bm ← w_allocbm (short width) (short height) .packedmono 0
  let data ← readRows ((width + 7) / 8).toNat bm.linesize.toNat garbage height.toNat s
  return ⟨bm, data, []⟩

def gray_loader (garbage : Nat → Nat → Byte) (width height : Int) (s : List Byte) : Option Image := do
  let maxval := pbm_getint s
  if maxval.1 < 1 ∨ maxval.1 > 255 then none
  else
    let bm ← w_allocbm (short width) (short height) .direct8 (maxval.1 + 1)
    let data ← readRows width.toNat bm.linesize.toNat garbage height.toNat maxval.2
    let gray := (List.range maxval.1.toNat).map fun i => (⟨BitVec.ofNat 8 i, BitVec.ofNat 8 i, BitVec.ofNat 8 i⟩ : Rgb)
    return ⟨bm, data, gray ++ [⟨garbage 0 0, garbage 0 1, garbage 0 2⟩]⟩

def trueColor_loader (width height : Int) (s : List Byte) : Option Image := do
  let maxval := pbm_getint s
  if maxval.1 < 1 ∨ maxval.1 > 255 then none
  else
    let bm ← w_allocbm (short width) (short height) .direct24 0
    let dbytes := (bm.linesize * bm.height).toNat
    if maxval.2.length < dbytes then none else return ⟨bm, maxval.2.take dbytes, []⟩

def readPalette : Nat → List Byte → Option (List Rgb × List Byte)
  | 0, s => some ([], s)
  | colors + 1, red :: green :: blue :: s => (readPalette colors s).map fun r => (⟨red, green, blue⟩ :: r.1, r.2)
  | _ + 1, _ => none

def color_loader (garbage : Nat → Nat → Byte) (width height : Int) (s : List Byte) : Option Image := do
  let colors := pbm_getint s
  if colors.1 < 2 ∨ colors.1 > 256 then none
  else
    let bm ← w_allocbm (short width) (short height) .direct8 colors.1
    let r ← readPalette colors.1.toNat colors.2
    let data ← readRows width.toNat bm.linesize.toNat garbage height.toNat r.2
    return ⟨bm, data, r.1⟩

/-- `none` for NULL. The loaders of the ASCII formats, which `w_writepbm` does not write, are a parameter. -/
def w_readpbm (asciiLoader : Byte → Int → Int → List Byte → Option Image) (garbage : Nat → Nat → Byte) :
    List Byte → Option Image
  | p :: type :: s =>
    let width := pbm_getint s
    let height := pbm_getint width.2
    if p ≠ 0x50 then none
    else if type ∉ [0x34, 0x35, 0x36, 0x38, 0x41, 0x43] then none
    else if width.1 < 1 ∨ height.1 < 1 then none
    else if type = 0x34 then mono_loader garbage width.1 height.1 height.2
    else if type = 0x35 then gray_loader garbage width.1 height.1 height.2
    else if type = 0x36 then trueColor_loader width.1 height.1 height.2
    else if type = 0x38 then color_loader garbage width.1 height.1 height.2
    else asciiLoader type width.1 height.1 height.2
  | _ => none

def Image.color (im : Image) (x y : Nat) : Rgb :=
  let line := y * im.head.linesize.toNat
  match im.head.type with
  | .direct8 => im.palette.getD (im.data.getD (line + x) 0).toNat ⟨0, 0, 0⟩
  | .direct24 => ⟨im.data.getD (line + 3 * x) 0, im.data.getD (line + (3 * x + 1)) 0, im.data.getD (line + (3 * x + 2)) 0⟩
  | _ => if im.data.getD (line + x / 8) 0 &&& 0x80#8 >>> (x % 8) ≠ 0 then ⟨0, 0, 0⟩ else ⟨255, 255, 255⟩

structure Image.Sound (im : Image) : Prop where
  type : im.head.type = .packedmono ∨ im.head.type = .direct8 ∨ im.head.type = .direct24
  width : 1 ≤ im.head.width ∧ im.head.width ≤ 32767
  height : 1 ≤ im.head.height ∧ im.head.height ≤ 32767
  header : Headed 8 im.head
  size : (im.data.length : Int) = im.head.linesize * im.head.height
  palette : im.head.type = .direct8 → (im.palette.length : Int) = im.head.colors
  colors : im.head.type = .direct8 → ∀ x < im.head.width, ∀ y < im.head.height,
    (im.data.getD (y * im.head.linesize.toNat + x) 0).toNat < im.head.colors

theorem isdigit_of_space {c : Byte} (h : IS_SPACE c = true) : isdigit c = false ∧ c ≠ 0x23 := by
  simp only [IS_SPACE, Bool.or_eq_true, decide_eq_true_eq] at h
  rcases h with ((rfl | rfl) | rfl) | rfl <;> decide

theorem digits_append {sep : Byte} (hsep : isdigit sep = false) (rest : List Byte) {c : Byte} {l : List Byte} {v : Int}
    (h : ∀ d ∈ c :: l, isdigit d = true) : digits v (some c) (l ++ sep :: rest) =
      ((c :: l).foldl (fun v c => 10 * v + ((c.toNat : Int) - 48)) v, some sep, rest) := by
  induction l generalizing c v with
  | nil =>
    have hc := h c mem_cons_self
    rw [nil_append, digits]
    simp only [hc, if_true, foldl_cons, foldl_nil]
    cases rest with
    | nil =>
      simp only [digits, hsep, Bool.false_eq_true, if_false, Prod.mk.injEq, and_true]
      omega
    | cons d rest =>
      simp only [digits, hsep, Bool.false_eq_true, if_false, Prod.mk.injEq, and_true]
      omega
  | cons d l ih =>
    obtain ⟨hc, hl⟩ := forall_mem_cons.mp h
    rw [cons_append, digits]
    have hv : v * 10 + (c.toNat : Int) - 48 = 10 * v + ((c.toNat : Int) - 48) := by omega
    simp only [hc, if_true]
    rw [hv, ih hl]
    rfl

theorem pbm_getint_decimal {n : Nat} (hn : 0 < n) {sep : Byte} (hsep : IS_SPACE sep = true) (rest : List Byte) {before : List Byte}
    (hb : ∀ c ∈ before, IS_SPACE c = true) : pbm_getint (before ++ decimal n ++ sep :: rest) = ((n : Int), rest) := by
  obtain ⟨c, l, hc⟩ : ∃ c l, decimal n = c :: l := by
    cases hd : decimal n with
    | nil =>
      have hzero := foldl_decimal n
      rw [hd, foldl_nil] at hzero
      omega
    | cons c l => exact ⟨c, l, rfl⟩
  have hdigits : ∀ d ∈ c :: l, isdigit d = true := hc ▸ isdigit_decimal n
  have hnext : pbm_next false (before ++ decimal n ++ sep :: rest) = (some c, l ++ sep :: rest) := by
    induction before with
    | nil =>
      have hcd := hdigits c mem_cons_self
      have hspace : IS_SPACE c = false := by
        by_contra hs
        rw [(isdigit_of_space (by simpa using hs)).1] at hcd
        cases hcd
      have hcomment : c ≠ 0x23 := by
        rintro rfl
        exact absurd hcd (by decide)
      rw [nil_append, hc, cons_append, pbm_next]
      simp only [Bool.false_eq_true, if_false, if_neg hcomment, hspace]
    | cons b before ih =>
      obtain ⟨hbs, hb⟩ := forall_mem_cons.mp hb
      rw [cons_append, cons_append, pbm_next]
      simp only [Bool.false_eq_true, if_false, if_neg (isdigit_of_space hbs).2, hbs, if_true]
      exact ih hb
  have hvalue := foldl_decimal n
  rw [hc] at hvalue
  rw [pbm_getint, hnext]
  dsimp only
  rw [digits_append (isdigit_of_space hsep).1 rest hdigits, hvalue]
  simp [hsep]

theorem readRows_writeRows {n stride stride' : Nat} (hn : n ≤ stride) (hn' : n ≤ stride') (garbage : Nat → Nat → Byte)
    (height : Nat) (data rest : List Byte) (hd : height * stride ≤ data.length) :
    ∃ out, readRows n stride' garbage height (writeRows n stride height data ++ rest) = some out ∧
      ∀ y < height, ∀ i < n, out.getD (y * stride' + i) 0 = data.getD (y * stride + i) 0 := by
  induction height generalizing data with
  | zero => exact ⟨[], rfl, fun y hy => absurd hy (Nat.not_lt_zero y)⟩
  | succ height ih =>
    rw [Nat.succ_mul] at hd
    have hlen : (data.take n).length = n := by
      rw [length_take]
      omega
    obtain ⟨out, hrun, hout⟩ := ih (data.drop stride) (by rw [length_drop]; omega)
    rw [writeRows, append_assoc, readRows, if_neg (by rw [length_append, hlen]; omega),
      drop_left' hlen, hrun, take_left' hlen]
    refine ⟨_, rfl, fun y hy i hi => ?_⟩
    have hrow : (data.take n ++ (List.range (stride' - n)).map (garbage height)).length = stride' := by
      rw [length_append, hlen, length_map, length_range]
      omega
    dsimp only
    cases y with
    | zero =>
      rw [append_assoc, getD_append _ _ _ _ (by omega)]
      simp only [getD_eq_getElem?_getD, Nat.zero_mul, Nat.zero_add, getElem?_take, if_pos hi]
    | succ y =>
      have hy := hout y (by omega) i hi
      rw [getD_append_right _ _ _ _ (by rw [hrow, Nat.succ_mul]; omega), hrow, Nat.succ_mul,
        show y * stride' + stride' + i - stride' = y * stride' + i by omega, hy]
      simp only [getD_eq_getElem?_getD, getElem?_drop]
      congr 2
      rw [Nat.succ_mul]
      omega

theorem getint_line {n : Nat} (hn : 0 < n) (body : List Byte) :
    pbm_getint (decimal n ++ ascii "\n" ++ body) = ((n : Int), body) := by
  rw [← @pbm_getint_decimal n hn 0x0a rfl body [] (by simp)]
  simp [ascii]

theorem header_read {bm : BITMAP} (hw : 0 < bm.width) (hh : 0 < bm.height) (type : Byte) (body : List Byte) :
    ∃ s, pbmHeader type bm ++ body = 0x50 :: type :: s ∧
      pbm_getint s = ((bm.width : Int), decimal bm.height ++ ascii "\n" ++ body) ∧
      pbm_getint (decimal bm.height ++ ascii "\n" ++ body) = ((bm.height : Int), body) := by
  refine ⟨[0x0a] ++ decimal bm.width ++ ascii " " ++ decimal bm.height ++ ascii "\n" ++ body, ?_, ?_, ?_⟩
  · simp [pbmHeader]
  · rw [← @pbm_getint_decimal _ hw 0x20 rfl (decimal bm.height ++ ascii "\n" ++ body) [0x0a] (by decide)]
    simp [ascii]
  · exact getint_line hh body

variable {im : Image}

theorem Image.Sound.linesize_nonneg (h : im.Sound) : 0 ≤ im.head.linesize := by
  have hs := h.size
  have hh := h.height
  by_contra hneg
  have hlt : im.head.linesize * im.head.height < 0 :=
    Int.mul_neg_of_neg_of_pos (by omega) (by omega)
  omega

theorem w_bmheader_headed (width height : Nat) {type : BitmapType} (ht : type ≠ .packedcolormono) (colors : Int) :
    ∃ bm, w_bmheader 8 { width, height, type, colors } = some bm ∧ bm.type = type := by
  cases type with
  | packedcolormono => exact absurd rfl ht
  | _ => exact ⟨_, rfl, rfl⟩

theorem headed_linesize {planes : Nat} {a b : BITMAP} (ha : Headed planes a) (hb : Headed planes b) (ht : a.type = b.type)
    (hw : a.width = b.width) : a.linesize = b.linesize := by
  unfold Headed at ha hb
  rw [ht, hw] at ha
  unfold BITMAP.linesize
  cases hbt : b.type <;> simp only [hbt] at ha hb
  case packedcolor => rw [ha.2.1, ha.2.2, hb.2.1, hb.2.2]
  all_goals rw [ha.1, ha.2, hb.1, hb.2]

theorem Image.Sound.alloc (h : im.Sound) {colors : Int} (hc : im.head.type = .direct8 → 2 ≤ colors) :
    ∃ bm, w_allocbm (short im.head.width) (short im.head.height) im.head.type colors = some bm ∧
      bm.type = im.head.type ∧ bm.width = im.head.width ∧ bm.height = im.head.height ∧
      bm.linesize = im.head.linesize := by
  have hw := h.width
  have hh := h.height
  have hsw : short im.head.width = im.head.width := short_of_range (by omega) (by omega)
  have hsh : short im.head.height = im.head.height := short_of_range (by omega) (by omega)
  have hcount : ¬ (im.head.type = .direct8 ∧ colors < 2) := fun hc' => absurd (hc hc'.1) (Int.not_le.mpr hc'.2)
  have htype : im.head.type ≠ .packedcolormono := by
    rcases h.type with ht | ht | ht <;> simp [ht]
  obtain ⟨bm, hbm, ht⟩ := w_bmheader_headed im.head.width im.head.height htype colors
  obtain ⟨hheaded, hbw, hbh⟩ := headed hbm
  have hline := headed_linesize hheaded h.header ht hbw
  rw [hsw, hsh, w_allocbm, if_neg (by omega), if_neg hcount, Int.toNat_natCast, Int.toNat_natCast, hbm, bind_some,
    if_neg (hline ▸ Int.not_lt.mpr h.linesize_nonneg)]
  exact ⟨bm, rfl, ht, hbw, hbh, hline⟩

def RoundTrips (w_convertBitmap : Image → Option Image) (asciiLoader : Byte → Int → Int → List Byte → Option Image)
    (garbage : Nat → Nat → Byte) (im : Image) : Prop :=
  ∃ file im', w_writepbm w_convertBitmap im = some file ∧ w_readpbm asciiLoader garbage file = some im' ∧
    im'.head.width = im.head.width ∧ im'.head.height = im.head.height ∧
    ∀ x < im.head.width, ∀ y < im.head.height, im'.color x y = im.color x y

variable {w_convertBitmap : Image → Option Image} {asciiLoader : Byte → Int → Int → List Byte → Option Image}
  {garbage : Nat → Nat → Byte}

theorem w_readpbm_header (h : im.Sound) {c : Byte} (hc : c ∈ [(0x34 : Byte), 0x35, 0x36, 0x38, 0x41, 0x43]) (body : List Byte) :
    w_readpbm asciiLoader garbage (pbmHeader c im.head ++ body) =
      if c = 0x34 then mono_loader garbage im.head.width im.head.height body
      else if c = 0x35 then gray_loader garbage im.head.width im.head.height body
      else if c = 0x36 then trueColor_loader im.head.width im.head.height body
      else if c = 0x38 then color_loader garbage im.head.width im.head.height body
      else asciiLoader c im.head.width im.head.height body := by
  have hw := h.width
  have hh := h.height
  obtain ⟨s, hfile, hwidth, hheight⟩ := @header_read im.head (by omega) (by omega) c body
  rw [hfile, w_readpbm, hwidth]
  dsimp only
  rw [hheight]
  dsimp only
  rw [if_neg (by decide), if_neg (not_not.mpr hc), if_neg (by omega)]

theorem Image.Sound.rows (h : im.Sound) : im.head.height * im.head.linesize.toNat ≤ im.data.length := by
  have hs := h.size
  rw [← Int.toNat_of_nonneg h.linesize_nonneg, ← Int.natCast_mul] at hs
  rw [Nat.mul_comm]
  omega

theorem mono_round_trip (h : im.Sound) (ht : im.head.type = .packedmono) :
    RoundTrips w_convertBitmap asciiLoader garbage im := by
  have hw := h.width
  obtain ⟨bm, halloc, hbt, hbw, hbh, hline⟩ := @Image.Sound.alloc im h 0 (by simp [ht])
  have hstride : (im.head.width + 7) / 8 ≤ im.head.linesize.toNat := by
    have hh := h.header
    simp only [Headed, ht] at hh
    rw [BITMAP.linesize, hh.1, hh.2, short_of_range (by omega) (by omega)]
    omega
  obtain ⟨out, hread, hout⟩ := readRows_writeRows hstride hstride garbage im.head.height im.data [] h.rows
  rw [append_nil] at hread
  refine ⟨pbmHeader 0x34 im.head ++ mono_saver im, ⟨bm, out, []⟩, by rw [w_writepbm, ht], ?_, hbw, hbh, ?_⟩
  · rw [w_readpbm_header h (by decide), if_pos rfl, mono_loader, ← ht, halloc, bind_eq_bind,
      bind_some, hline, Int.toNat_natCast, show ((im.head.width : Int) + 7) / 8 = ((im.head.width + 7) / 8 : Nat) by omega,
      Int.toNat_natCast]
    exact congrArg (Option.bind · fun data => some (⟨bm, data, []⟩ : Image)) hread
  · intro x hx y hy
    have hbyte := hout y hy (x / 8) (by omega)
    simp only [Image.color, hbt, ht, hline, hbyte]

theorem readPalette_flatMap (l : List Rgb) (rest : List Byte) :
    readPalette l.length (l.flatMap (fun c => [c.red, c.green, c.blue]) ++ rest) = some (l, rest) := by
  induction l with
  | nil => rfl
  | cons c l ih =>
    simp only [flatMap_cons, length_cons, cons_append, nil_append, readPalette, ih, map_some]

theorem direct8_round_trip (h : im.Sound) (ht : im.head.type = .direct8) (hc : 2 ≤ im.head.colors ∧ im.head.colors ≤ 256) :
    RoundTrips w_convertBitmap asciiLoader garbage im := by
  have hw := h.width
  obtain ⟨bm, halloc, hbt, hbw, hbh, hline⟩ := h.alloc (fun _ => hc.1)
  have hstride : im.head.width ≤ im.head.linesize.toNat := by
    have hh := h.header
    have hpos := h.linesize_nonneg
    simp only [Headed, ht] at hh
    rw [BITMAP.linesize, hh.1, hh.2] at hpos ⊢
    by_cases hfits : ((im.head.width : Int) + 3) / 4 * 4 < 32768
    · rw [short_of_range (by omega) hfits]
      omega
    · have hmost : ((im.head.width : Int) + 3) / 4 * 4 = 32768 := by omega
      rw [hmost] at hpos
      exact absurd hpos (by decide)
  obtain ⟨out, hread, hout⟩ := readRows_writeRows hstride hstride garbage im.head.height im.data [] h.rows
  rw [append_nil] at hread
  have hlen : im.palette.length = im.head.colors.toNat := by
    have := h.palette ht
    omega
  have hpalette := readPalette_flatMap im.palette (writeRows im.head.width im.head.linesize.toNat im.head.height im.data)
  rw [hlen] at hpalette
  have hcolors : pbm_getint (color_saver im) = (im.head.colors, im.palette.flatMap (fun c => [c.red, c.green, c.blue]) ++
      writeRows im.head.width im.head.linesize.toNat im.head.height im.data) := by
    rw [color_saver, ← hlen, take_length, append_assoc, getint_line (by omega), h.palette ht]
  refine ⟨pbmHeader 0x38 im.head ++ color_saver im, ⟨bm, out, im.palette⟩, by rw [w_writepbm, ht], ?_, hbw, hbh, ?_⟩
  · rw [w_readpbm_header h (by decide), if_neg (by decide), if_neg (by decide), if_neg (by decide),
      if_pos rfl, color_loader, hcolors]
    dsimp only
    rw [if_neg (by omega), ← ht, halloc, bind_eq_bind, bind_some, hpalette, bind_eq_bind, bind_some,
      hline, Int.toNat_natCast]
    exact congrArg (Option.bind · fun data => some (⟨bm, data, im.palette⟩ : Image)) hread
  · intro x hx y hy
    simp only [Image.color, hbt, ht, hline, hout y hy x hx]

theorem direct24_round_trip (h : im.Sound) (ht : im.head.type = .direct24) :
    RoundTrips w_convertBitmap asciiLoader garbage im := by
  have hw := h.width
  obtain ⟨bm, halloc, hbt, hbw, hbh, hline⟩ := @Image.Sound.alloc im h 0 (by simp [ht])
  have hsize : im.data.length = im.head.width * 3 * im.head.height := by
    have hs := h.size
    have hh := h.header
    simp only [Headed, ht] at hh
    rw [BITMAP.linesize, hh.1, hh.2, short_of_range (by omega) (by omega), Int.mul_comm 3] at hs
    exact_mod_cast hs
  have hbytes : (bm.linesize * bm.height).toNat = im.data.length := by
    rw [hline, hbh, ← h.size, Int.toNat_natCast]
  have hmax : pbm_getint (trueColor_saver im) = (255, im.data) := by
    rw [trueColor_saver, ← hsize, take_length, getint_line (by decide)]
    rfl
  refine ⟨pbmHeader 0x36 im.head ++ trueColor_saver im, ⟨bm, im.data, []⟩, by rw [w_writepbm, ht], ?_, hbw, hbh, ?_⟩
  · rw [w_readpbm_header h (by decide), if_neg (by decide), if_neg (by decide), if_pos rfl,
      trueColor_loader, hmax]
    dsimp only
    rw [if_neg (by decide), ← ht, halloc, bind_eq_bind, bind_some, hbytes, if_neg (Nat.lt_irrefl _), take_length]
    rfl
  · intro x _ y _
    simp only [Image.color, hbt, ht, hline]

def monoLine : Image :=
  { head := { width := 10, height := 1, type := .packedmono, unitsize := 4, upl := 1, planes := 1, colors := 2 }
    data := [0xa5, 0x40, 0, 0] }

def oneColor : Image :=
  { head := { width := 1, height := 1, type := .direct8, unitsize := 1, upl := 4, planes := 8, colors := 1 }
    data := [0, 0, 0, 0], palette := [⟨10, 20, 30⟩] }

end WWindowSystem.Pbm
