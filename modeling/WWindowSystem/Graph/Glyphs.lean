import Mathlib.Tactic.Ring
import WWindowSystem.Library.Words

namespace WWindowSystem.Graph.Text

def F_REVERSE : BitVec 16 := 0x0001
def F_UNDERLINE : BitVec 16 := 0x0002
def F_ITALIC : BitVec 16 := 0x0004
def F_BOLD : BitVec 16 := 0x0008
def F_LIGHT : BitVec 16 := 0x0010

def has (effects style : BitVec 16) : Bool := effects &&& style ≠ 0

structure FONT where
  height : Int
  baseline : Int
  styles : BitVec 16
  skew : BitVec 16
  slant_size : Int
  slant_offset : Int
  widths : Byte → Byte
  data : Int → BitVec 32
  offsets : Byte → Int

structure GC where
  font : FONT
  textstyle : BitVec 16
  fgCol : Byte
  bgCol : Byte
  pattern : Int → BitVec 16

structure Pixel where
  x : Int
  y : Int
  color : Byte
  deriving DecidableEq

def GC.paper (gc : GC) : Byte := if has gc.textstyle F_REVERSE then gc.fgCol else gc.bgCol

def GC.ink (gc : GC) : Byte := if has gc.textstyle F_REVERSE then gc.bgCol else gc.fgCol

def GC.bold (gc : GC) : BitVec 32 := if has gc.textstyle F_BOLD then 0xffffffff else 0

def GC.lighten (gc : GC) (row : Int) : BitVec 16 := if has gc.textstyle F_LIGHT then ~~~gc.pattern (row % 16) else 0

def GC.skew (gc : GC) : BitVec 32 := if has gc.textstyle F_ITALIC then gc.font.skew.setWidth 32 else 0

structure Stream where
  cptr : Int
  cdata : BitVec 32
  cbit : BitVec 32

def stream (f : FONT) (c : Byte) (bit : Int) : Stream :=
  ⟨f.offsets c + bit / 32 + 1, f.data (f.offsets c + bit / 32), 0x80000000#32 >>> (bit % 32).toNat⟩

def Stream.next (f : FONT) (s : Stream) : Stream :=
  if s.cbit >>> 1 = 0#32 then ⟨s.cptr + 1, f.data s.cptr, 0x80000000#32⟩ else { s with cbit := s.cbit >>> 1 }

def Stream.skip (f : FONT) : Nat → Stream → Stream
  | 0, s => s
  | n + 1, s => Stream.skip f n (s.next f)

def glyph_row (gc : GC) (lighten : BitVec 16) (y : Int) : Nat → Int → BitVec 16 → BitVec 32 → Stream → List Pixel × Stream
  | 0, _, _, _, s => ([], s)
  | lcwidth + 1, x, light, prevbit, s =>
    let fbit := (s.cdata &&& s.cbit) ||| (gc.bold &&& prevbit)
    let prevbit := fbit &&& s.cbit
    let fbit := if light &&& lighten ≠ 0 then 0#32 else fbit
    let light := if light >>> 1 = 0#16 then 0x8000#16 else light >>> 1
    let rest := glyph_row gc lighten y lcwidth (x + 1) light prevbit (s.next gc.font)
    (⟨x, y, if fbit ≠ 0 then gc.ink else gc.paper⟩ :: rest.1, rest.2)

def style_rows (gc : GC) (cwidth : Int) : Nat → BitVec 32 → Int → Int → Stream → List Pixel
  | 0, _, _, _, _ => []
  | cheight + 1, skew, x, y, s =>
    let slants := skew &&& 1 ≠ 0
    let skew := (if slants then skew ||| 0x10000 else skew) >>> 1
    let x := if slants then x - 1 else x
    let row := glyph_row gc (gc.lighten cheight) y cwidth.toNat x 0x8000#16 0 s
    row.1 ++ style_rows gc cwidth cheight skew x (y + 1) row.2

def stylec (gc : GC) (x0 y0 : Int) (c : Byte) : List Pixel :=
  style_rows gc (gc.font.widths c).toNat gc.font.height.toNat gc.skew x0 y0 (stream gc.font c 0)

def clip_rows (gc : GC) : Nat → BitVec 32 → Int → Int → Int → Int → Int → Stream → List Pixel
  | 0, _, _, _, _, _, _, _ => []
  | cheight + 1, skew, sskip, cwidth, xoff, x, y, s =>
    let slants := skew &&& 1 ≠ 0
    -- the leftmost pixel is skipped
    let drops := slants ∧ sskip = 1
    -- the right side is clipped
    let grows := slants ∧ sskip < 0
    let s := if drops then s.next gc.font else s
    let cwidth := if drops then cwidth - 1 else if grows then cwidth + 1 else cwidth
    let xoff := if drops then xoff + 1 else if grows then xoff - 1 else xoff
    let x := if slants ∧ ¬ drops then x - 1 else x
    let sskip := if grows then sskip + 1 else if slants ∧ sskip > 1 then sskip - 1 else sskip
    let skew := (if slants then skew ||| 0x10000 else skew) >>> 1
    let row := glyph_row gc (gc.lighten cheight) y cwidth.toNat x 0x8000#16 0 s
    row.1 ++ clip_rows gc cheight skew sskip cwidth xoff x (y + 1) (Stream.skip gc.font xoff.toNat row.2)

def clipc (gc : GC) (x0 y0 xoff yoff sskip cwidth cheight : Int) (c : Byte) : List Pixel :=
  let width := ((gc.font.widths c).toNat : Int)
  clip_rows gc cheight.toNat gc.skew sskip cwidth (width - cwidth) x0 y0 (stream gc.font c (short (yoff * width + xoff)))

def GC.Upright (gc : GC) : Prop := has gc.textstyle F_BOLD = false ∧ has gc.textstyle F_ITALIC = false

/-- Whether a bit of a glyph is drawn when it stands in the column `i`, with `down` rows below it. -/
def GC.inked (gc : GC) (c : Byte) (bit down i : Int) : Bool :=
  gc.font.data (gc.font.offsets c + bit / 32) &&& (0x80000000#32 >>> (bit % 32).toNat) ≠ 0#32 &&
    (0x8000#16 >>> (i % 16).toNat) &&& gc.lighten down = 0#16

def GC.shade (gc : GC) (c : Byte) (bit down i : Int) : Byte := if gc.inked c bit down i then gc.ink else gc.paper

variable {gc : GC} {c : Byte} {lighten : BitVec 16} {x y bit : Int} {p : Pixel}

theorem stream_next (f : FONT) (c : Byte) (bit : Int) : (stream f c bit).next f = stream f c (bit + 1) := by
  have hmask : ∀ k : Fin 32, (0x80000000#32 >>> k.val >>> 1 = 0#32 ↔ k.val = 31) ∧
      (k.val < 31 → 0x80000000#32 >>> k.val >>> 1 = 0x80000000#32 >>> (k.val + 1)) := by
    decide
  obtain ⟨hlast, hstep⟩ := hmask ⟨(bit % 32).toNat, by omega⟩
  simp only at hlast hstep
  unfold Stream.next stream
  simp only [hlast]
  split_ifs with h
  · rw [show (bit + 1) / 32 = bit / 32 + 1 by omega, show ((bit + 1) % 32).toNat = 0 by omega, ← add_assoc]
    rfl
  · rw [hstep (by omega), show (bit + 1) / 32 = bit / 32 by omega,
      show ((bit + 1) % 32).toNat = (bit % 32).toNat + 1 by omega]

theorem stream_skip (f : FONT) (c : Byte) (bit : Int) (n : Nat) :
    Stream.skip f n (stream f c bit) = stream f c (bit + n) := by
  induction n generalizing bit with
  | zero => simp [Stream.skip]
  | succ n ih =>
    rw [Stream.skip, stream_next, ih]
    congr 1
    push_cast
    omega

theorem light_next (i : Int) :
    (if 0x8000#16 >>> (i % 16).toNat >>> 1 = 0#16 then 0x8000#16 else 0x8000#16 >>> (i % 16).toNat >>> 1) =
      0x8000#16 >>> ((i + 1) % 16).toNat := by
  have hmask : ∀ k : Fin 16, (0x8000#16 >>> k.val >>> 1 = 0#16 ↔ k.val = 15) ∧
      (k.val < 15 → 0x8000#16 >>> k.val >>> 1 = 0x8000#16 >>> (k.val + 1)) := by
    decide
  obtain ⟨hlast, hstep⟩ := hmask ⟨(i % 16).toNat, by omega⟩
  simp only at hlast hstep
  simp only [hlast]
  split_ifs with h
  · rw [show ((i + 1) % 16).toNat = 0 by omega]
    rfl
  · rw [hstep (by omega), show ((i + 1) % 16).toNat = (i % 16).toNat + 1 by omega]

theorem GC.Upright.bold (h : gc.Upright) : gc.bold = 0 := by
  unfold GC.bold
  rw [if_neg (by rw [h.1]; simp)]

theorem GC.Upright.skew (h : gc.Upright) : gc.skew = 0#32 := by
  unfold GC.skew
  rw [if_neg (by rw [h.2]; simp)]
  rfl

theorem glyph_row_mem (h : gc.Upright) (down : Int) (n : Nat) (k x bit : Int) (prevbit : BitVec 32) :
    (p ∈ (glyph_row gc (gc.lighten down) y n x (0x8000#16 >>> (k % 16).toNat) prevbit (stream gc.font c bit)).1 ↔
      ∃ i, 0 ≤ i ∧ i < (n : Int) ∧ p = ⟨x + i, y, gc.shade c (bit + i) down (k + i)⟩) ∧
    (glyph_row gc (gc.lighten down) y n x (0x8000#16 >>> (k % 16).toNat) prevbit (stream gc.font c bit)).2 =
      stream gc.font c (bit + n) := by
  induction n generalizing k x bit prevbit with
  | zero =>
    constructor
    · simp only [glyph_row, List.not_mem_nil, false_iff]
      rintro ⟨i, h0, h1, -⟩
      omega
    · simp [glyph_row]
  | succ n ih =>
    rw [glyph_row]
    simp only [light_next, stream_next]
    have hink : (if (if 0x8000#16 >>> (k % 16).toNat &&& gc.lighten down ≠ 0 then 0#32
        else (stream gc.font c bit).cdata &&& (stream gc.font c bit).cbit ||| gc.bold &&& prevbit) ≠ 0 then gc.ink else gc.paper) =
        gc.shade c bit down k := by
      rw [h.bold]
      unfold GC.shade GC.inked stream
      by_cases hl : 0x8000#16 >>> (k % 16).toNat &&& gc.lighten down = 0#16 <;> simp [hl]
    rw [hink]
    obtain ⟨hmem, hstream⟩ := ih (k + 1) (x + 1) (bit + 1)
      (((stream gc.font c bit).cdata &&& (stream gc.font c bit).cbit ||| gc.bold &&& prevbit) &&& (stream gc.font c bit).cbit)
    constructor
    · rw [List.mem_cons, hmem]
      constructor
      · rintro (rfl | ⟨i, h0, h1, rfl⟩)
        · exact ⟨0, le_rfl, by omega, by rw [add_zero, add_zero, add_zero]⟩
        · exact ⟨i + 1, by omega, by push_cast; omega, by rw [add_assoc, add_assoc, add_assoc, add_comm 1 i]⟩
      · rintro ⟨i, h0, h1, rfl⟩
        by_cases hi : i = 0
        · left
          rw [hi, add_zero, add_zero, add_zero]
        · right
          exact ⟨i - 1, by omega, by push_cast at h1; omega, by
            rw [add_assoc, add_assoc, add_assoc, show 1 + (i - 1) = i by omega]⟩
    · rw [hstream]
      congr 1
      push_cast
      omega

theorem style_rows_upright (cwidth x y sskip : Int) (n : Nat) (s : Stream) :
    style_rows gc cwidth n 0#32 x y s = clip_rows gc n 0#32 sskip cwidth 0 x y s := by
  induction n generalizing y s with
  | zero => rfl
  | succ n ih =>
    simp [style_rows, clip_rows, ih, Stream.skip]

theorem clip_rows_mem (h : gc.Upright) {cwidth xoff : Int} (hw : 0 ≤ cwidth) (hoff : 0 ≤ xoff) (sskip x : Int) (n : Nat)
    (y bit : Int) :
    p ∈ clip_rows gc n 0#32 sskip cwidth xoff x y (stream gc.font c bit) ↔ ∃ i r, 0 ≤ i ∧ i < cwidth ∧ 0 ≤ r ∧ r < (n : Int) ∧
      p = ⟨x + i, y + r, gc.shade c (bit + r * (cwidth + xoff) + i) (n - 1 - r) i⟩ := by
  induction n generalizing y bit with
  | zero =>
    simp only [clip_rows, List.not_mem_nil, false_iff]
    rintro ⟨i, r, -, -, h0, h1, -⟩
    omega
  | succ n ih =>
    have hrow := fun p => glyph_row_mem (c := c) (y := y) (p := p) h n cwidth.toNat 0 x bit 0#32
    have hcast : ((cwidth.toNat : Nat) : Int) = cwidth := Int.toNat_of_nonneg hw
    simp only [hcast, zero_add, Int.zero_emod, Int.toNat_zero, BitVec.ushiftRight_zero] at hrow
    have hrest : (stream gc.font c (bit + cwidth)).skip gc.font xoff.toNat = stream gc.font c (bit + (cwidth + xoff)) := by
      rw [stream_skip, Int.toNat_of_nonneg hoff, add_assoc]
    have hstep : clip_rows gc (n + 1) 0#32 sskip cwidth xoff x y (stream gc.font c bit) =
        (glyph_row gc (gc.lighten n) y cwidth.toNat x 0x8000#16 0#32 (stream gc.font c bit)).1 ++
          clip_rows gc n 0#32 sskip cwidth xoff x (y + 1) (stream gc.font c (bit + (cwidth + xoff))) := by
      simp [clip_rows, (hrow ⟨0, 0, 0⟩).2, hrest]
    rw [hstep, List.mem_append, (hrow p).1, ih]
    constructor
    · rintro (⟨i, h0, h1, rfl⟩ | ⟨i, r, h0, h1, h2, h3, rfl⟩)
      · refine ⟨i, 0, h0, h1, le_rfl, by omega, ?_⟩
        rw [add_zero, zero_mul, add_zero, sub_zero]
        push_cast
        rw [add_sub_cancel_right]
      · refine ⟨i, r + 1, h0, h1, by omega, by push_cast; omega, ?_⟩
        rw [show y + 1 + r = y + (r + 1) by omega,
          show bit + (cwidth + xoff) + r * (cwidth + xoff) + i = bit + (r + 1) * (cwidth + xoff) + i by ring,
          show ((n + 1 : Nat) : Int) - 1 - (r + 1) = n - 1 - r by push_cast; omega]
    · rintro ⟨i, r, h0, h1, h2, h3, rfl⟩
      by_cases hr : r = 0
      · left
        refine ⟨i, h0, h1, ?_⟩
        rw [hr, add_zero, zero_mul, add_zero, sub_zero]
        push_cast
        rw [add_sub_cancel_right]
      · right
        refine ⟨i, r - 1, h0, h1, by omega, by push_cast at h3; omega, ?_⟩
        rw [show y + 1 + (r - 1) = y + r by omega,
          show bit + (cwidth + xoff) + (r - 1) * (cwidth + xoff) + i = bit + r * (cwidth + xoff) + i by ring,
          show ((n + 1 : Nat) : Int) - 1 - r = n - 1 - (r - 1) by push_cast; omega]

def FONT.width (f : FONT) (c : Byte) : Int := (f.widths c).toNat

theorem FONT.width_nonneg (f : FONT) (c : Byte) : 0 ≤ f.width c := Int.natCast_nonneg _

theorem clipc_mem (h : gc.Upright) {x0 y0 xoff yoff sskip cwidth cheight : Int} (hw : 0 ≤ cwidth)
    (hoff : cwidth ≤ gc.font.width c) :
    p ∈ clipc gc x0 y0 xoff yoff sskip cwidth cheight c ↔ ∃ i r, 0 ≤ i ∧ i < cwidth ∧ 0 ≤ r ∧ r < cheight ∧
      p = ⟨x0 + i, y0 + r, gc.shade c (short (yoff * gc.font.width c + xoff) + r * gc.font.width c + i) (cheight - 1 - r) i⟩ := by
  have hcut : 0 ≤ gc.font.width c - cwidth := by omega
  change p ∈ clip_rows gc cheight.toNat gc.skew sskip cwidth (gc.font.width c - cwidth) x0 y0
    (stream gc.font c (short (yoff * gc.font.width c + xoff))) ↔ _
  rw [h.skew, clip_rows_mem h hw hcut, add_sub_cancel]
  constructor
  · rintro ⟨i, r, h0, h1, h2, h3, rfl⟩
    exact ⟨i, r, h0, h1, h2, by omega, by rw [Int.toNat_of_nonneg (by omega)]⟩
  · rintro ⟨i, r, h0, h1, h2, h3, rfl⟩
    exact ⟨i, r, h0, h1, h2, by omega, by rw [Int.toNat_of_nonneg (by omega)]⟩

theorem stylec_eq_clipc (h : gc.Upright) (x0 y0 : Int) (c : Byte) :
    stylec gc x0 y0 c = clipc gc x0 y0 0 0 0 (gc.font.width c) gc.font.height c := by
  unfold stylec clipc
  rw [h.skew]
  simp only [FONT.width, zero_mul, add_zero, sub_self]
  exact style_rows_upright _ _ _ _ _ _

theorem stylec_mem (h : gc.Upright) {x0 y0 : Int} :
    p ∈ stylec gc x0 y0 c ↔ ∃ i r, 0 ≤ i ∧ i < gc.font.width c ∧ 0 ≤ r ∧ r < gc.font.height ∧
      p = ⟨x0 + i, y0 + r, gc.shade c (r * gc.font.width c + i) (gc.font.height - 1 - r) i⟩ := by
  rw [stylec_eq_clipc h, clipc_mem h (gc.font.width_nonneg c) le_rfl]
  have hstart : short (0 * gc.font.width c + 0) = 0 := by
    rw [zero_mul, add_zero]
    rfl
  simp only [hstart, zero_add]

end WWindowSystem.Graph.Text
