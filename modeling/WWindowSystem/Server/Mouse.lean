import WWindowSystem.Graph.Bitblk
import WWindowSystem.Library.Words

namespace WWindowSystem.Graph.Mouse

structure MOUSEPOINTER where
  xDrawOffset : Int
  yDrawOffset : Int
  mask : List (BitVec 16)
  icon : List (BitVec 16)

/-- `theScreen` with `direct8_mbg`, the 256 bytes that keep what is under the pointer. -/
structure Screen where
  bm : BITMAP
  direct8_mbg : Int
  FGCOL_INDEX : BitVec 8
  BGCOL_INDEX : BitVec 8
  wide : 16 ≤ bm.width ∧ bm.width < 32768
  high : 16 ≤ bm.height ∧ bm.height < 32768
  apart : direct8_mbg + 16 * 16 ≤ bm.data ∨ bm.data + bm.height * bm.upl ≤ direct8_mbg

structure MOUSE where
  visible : Bool := false
  disabled : Int := 0
  real : Point := (0, 0)
  drawn : Box := ⟨0, 0, 0, 0⟩

structure Shown where
  mem : Memory
  glob_mouse : MOUSE

def ink (S : Screen) (moval mpval bit : BitVec 16) (v : BitVec 8) : BitVec 8 :=
  if mpval &&& bit ≠ 0 then S.FGCOL_INDEX else if moval &&& bit ≠ 0 then S.BGCOL_INDEX else v

def showRow (S : Screen) (moval mpval : BitVec 16) : Nat → BitVec 16 → Int → Int → Memory → Memory
  | 0, _, _, _, mem => mem
  | n + 1, bit, ptr, bptr, mem =>
    let kept := Function.update mem bptr (mem ptr)
    showRow S moval mpval n (bit >>> 1) (ptr + 1) (bptr + 1) (Function.update kept ptr (ink S moval mpval bit (kept ptr)))

def showRows (S : Screen) (p : MOUSEPOINTER) (startBit : BitVec 16) (w : Nat) : Nat → Nat → Int → Int → Memory → Memory
  | 0, _, _, _, mem => mem
  | n + 1, r, sptr, bptr, mem =>
    showRows S p startBit w n (r + 1) (sptr + S.bm.upl) (bptr + w)
      (showRow S (p.mask.getD r 0) (p.icon.getD r 0) w startBit sptr bptr mem)

/-- One side of the pointer: where it begins on the screen, how many of the 16 are left, how many were skipped. -/
structure Side where
  start : Int
  length : Int
  skipped : Int

def clipSide (d size : Int) : Side :=
  if d < 0 then ⟨0, 16 + d, -d⟩ else if size - d < 16 then ⟨d, size - d, 0⟩ else ⟨d, 16, 0⟩

def columns (S : Screen) (p : MOUSEPOINTER) (real : Point) : Side := clipSide (short (real.1 + p.xDrawOffset)) S.bm.width

def lines (S : Screen) (p : MOUSEPOINTER) (real : Point) : Side := clipSide (short (real.2 + p.yDrawOffset)) S.bm.height

def drawnAt (S : Screen) (p : MOUSEPOINTER) (real : Point) : Box :=
  ⟨(columns S p real).start, (lines S p real).start, (columns S p real).length, (lines S p real).length⟩

def direct8_mouseShow (S : Screen) (p : MOUSEPOINTER) (s : Shown) : Shown :=
  let x := columns S p s.glob_mouse.real
  let y := lines S p s.glob_mouse.real
  { mem := showRows S p (0x8000#16 >>> x.skipped.toNat) x.length.toNat y.length.toNat y.skipped.toNat
      (S.bm.pixel x.start y.start) S.direct8_mbg s.mem
    glob_mouse := { s.glob_mouse with drawn := drawnAt S p s.glob_mouse.real } }

/-- `none` is the `memcpy` of a negative size. -/
def direct8_mouseHide (S : Screen) (s : Shown) : Option Shown :=
  let drawn := s.glob_mouse.drawn
  if drawn.w < 0 ∧ 0 < drawn.h then none
  else some { s with mem := moveRows drawn.w drawn.w S.bm.upl drawn.h.toNat S.direct8_mbg (S.bm.pixel drawn.x drawn.y) s.mem }

def mouse_show (S : Screen) (getPointerType : MOUSEPOINTER) (s : Shown) : Shown :=
  if s.glob_mouse.visible ∨ s.glob_mouse.disabled ≠ 0 then s
  else direct8_mouseShow S getPointerType { s with glob_mouse := { s.glob_mouse with visible := true } }

def mouse_hide (S : Screen) (s : Shown) : Option Shown :=
  if s.glob_mouse.visible then direct8_mouseHide S { s with glob_mouse := { s.glob_mouse with visible := false } } else some s

/-- `b0` is the mouse, `b1` the other rectangle. -/
def intersect (b0 b1 : Box) : Bool :=
  if b1.y + b1.h - 1 < b0.y then false
  else if b1.x > b0.x + b0.w - 1 then false
  else if b1.y > b0.y + b0.h - 1 then false
  else if b1.x + b1.w - 1 < b0.x then false
  else true

def mouse_rcintersect (m : MOUSE) (b : Box) : Bool :=
  if m.visible then intersect m.drawn ⟨short b.x, short b.y, short b.w, short b.h⟩ else false

/-- What the server does with the screen. `draw` is the drawing of a request on the screen memory, with the rectangles that it
asks `mouse_rcintersect` for. -/
inductive Event where
  | mouse_show (getPointerType : MOUSEPOINTER)
  | mouse_hide
  | moved (real : Point)
  | disabled (n : Int)
  | draw (boxes : List Box) (f : Memory → Memory)
  | bitblk (glob_clip0 glob_clip1 : Rec) (b : Blit)

def drawn (S : Screen) (boxes : List Box) (f : Memory → Option Memory) (s : Shown) : Option Shown := do
  let s ← if boxes.any (mouse_rcintersect s.glob_mouse) then mouse_hide S s else some s
  let mem ← f s.mem
  return { s with mem }

def sides (b : Blit) : List Box := [⟨b.xs, b.ys, b.w, b.h⟩, ⟨b.xd, b.yd, b.w, b.h⟩]

def step (S : Screen) (s : Shown) : Event → Option Shown
  | .mouse_show p => some (mouse_show S p s)
  | .mouse_hide => mouse_hide S s
  | .moved real => some { s with glob_mouse := { s.glob_mouse with real } }
  | .disabled n => some { s with glob_mouse := { s.glob_mouse with disabled := s.glob_mouse.disabled + n } }
  | .draw boxes f => drawn S boxes (some ∘ f) s
  | .bitblk c0 c1 b => drawn S (sides b) (direct8_bitblk (some c0) (some c1) S.bm b.xs b.ys b.w b.h S.bm b.xd b.yd) s

def run (S : Screen) (s : Shown) (es : List Event) : Option Shown := es.foldlM (step S) s

variable {S : Screen} {p : MOUSEPOINTER} {mem : Memory}

theorem showRow_frame {moval mpval bit : BitVec 16} {n : Nat} {ptr bptr a : Int} (hp : ¬ (ptr ≤ a ∧ a < ptr + n))
    (hb : ¬ (bptr ≤ a ∧ a < bptr + n)) : showRow S moval mpval n bit ptr bptr mem a = mem a := by
  induction n generalizing bit ptr bptr mem with
  | zero => rfl
  | succ n ih =>
    push_cast at hp hb
    rw [showRow, ih (by omega) (by omega), Function.update_of_ne (by omega), Function.update_of_ne (by omega)]

theorem showRow_saved {moval mpval bit : BitVec 16} {n : Nat} {ptr bptr a : Int} (ha : ptr + n ≤ bptr ∨ bptr + n ≤ ptr)
    (hb : bptr ≤ a ∧ a < bptr + n) : showRow S moval mpval n bit ptr bptr mem a = mem (ptr + (a - bptr)) := by
  induction n generalizing bit ptr bptr mem with
  | zero => simp at hb; omega
  | succ n ih =>
    push_cast at ha hb
    rw [showRow]
    rcases eq_or_ne a bptr with rfl | hne
    · rw [showRow_frame (by omega) (by omega), Function.update_of_ne (by omega), Function.update_self, sub_self, add_zero]
    · rw [ih (by omega) (by omega), Function.update_of_ne (by omega), Function.update_of_ne (by omega)]
      congr 1
      ring

theorem showRow_shown {moval mpval bit : BitVec 16} {n : Nat} {ptr bptr a : Int} (ha : ptr + n ≤ bptr ∨ bptr + n ≤ ptr)
    (hp : ptr ≤ a ∧ a < ptr + n) :
    showRow S moval mpval n bit ptr bptr mem a = ink S moval mpval (bit >>> (a - ptr).toNat) (mem a) := by
  induction n generalizing bit ptr bptr mem with
  | zero => simp at hp; omega
  | succ n ih =>
    push_cast at ha hp
    rw [showRow]
    rcases eq_or_ne a ptr with rfl | hne
    · rw [showRow_frame (by omega) (by omega), Function.update_self, Function.update_of_ne (by omega)]
      simp
    · rw [ih (by omega) (by omega), Function.update_of_ne (by omega), Function.update_of_ne (by omega), ← BitVec.shiftRight_add]
      congr 2
      omega

variable {startBit : BitVec 16} {w n r : Nat} {sptr bptr : Int}

theorem showRows_frame {a : Int} (hs : ∀ k : Nat, k < n → ¬ (sptr + k * S.bm.upl ≤ a ∧ a < sptr + k * S.bm.upl + w))
    (hb : ¬ (bptr ≤ a ∧ a < bptr + n * w)) : showRows S p startBit w n r sptr bptr mem a = mem a := by
  induction n generalizing r sptr bptr mem with
  | zero => rfl
  | succ n ih =>
    have hfirst := hs 0 (by simp)
    rw [Nat.cast_zero, zero_mul, add_zero] at hfirst
    rw [Nat.cast_succ, add_mul, one_mul] at hb
    have hpos : (0 : Int) ≤ n * w := by positivity
    rw [showRows, ih, showRow_frame hfirst (by omega)]
    · intro k hk
      have := hs (k + 1) (by omega)
      rw [Nat.cast_succ, add_mul, one_mul] at this
      omega
    · omega

theorem showRows_cells (hw : (w : Int) ≤ S.bm.upl) (ha : sptr + n * S.bm.upl + w ≤ bptr + S.bm.upl ∨ bptr + n * w ≤ sptr) {k : Nat} (hk : k < n)
    {c : Int} (h0 : 0 ≤ c) (hc : c < w) :
    showRows S p startBit w n r sptr bptr mem (bptr + k * w + c) = mem (sptr + k * S.bm.upl + c) ∧
    showRows S p startBit w n r sptr bptr mem (sptr + k * S.bm.upl + c) =
      ink S (p.mask.getD (r + k) 0) (p.icon.getD (r + k) 0) (startBit >>> c.toNat) (mem (sptr + k * S.bm.upl + c)) := by
  induction n generalizing r sptr bptr mem k with
  | zero => cases hk
  | succ n ih =>
    have hn : (0 : Int) ≤ n * w := by positivity
    have hu : (0 : Int) ≤ n * S.bm.upl := mul_nonneg (by simp) (by omega)
    rw [Nat.cast_succ, add_mul, one_mul, add_mul, one_mul] at ha
    rw [showRows]
    cases k with
    | zero =>
      have hrest : ∀ k : Nat, 0 ≤ (k : Int) * S.bm.upl := fun k => mul_nonneg (by simp) (by omega)
      have hlast : ∀ k : Nat, k < n → (k : Int) * S.bm.upl + S.bm.upl ≤ n * S.bm.upl := by
        intro k hk
        have := mul_le_mul_of_nonneg_right (show (k + 1 : Int) ≤ n by omega) (show 0 ≤ S.bm.upl by omega)
        rwa [add_mul, one_mul] at this
      simp only [Nat.cast_zero, zero_mul, add_zero]
      constructor
      · rw [showRows_frame, showRow_saved (by omega) (by omega)]
        · congr 1
          ring
        · intro k hk
          have := hrest k
          have := hlast k hk
          omega
        · omega
      · rw [showRows_frame, showRow_shown (by omega) (by omega)]
        · rw [add_sub_cancel_left]
        · intro k hk
          have := hrest k
          omega
        · omega
    | succ k =>
      have hk : k < n := by omega
      have hkw : ((k : Int) + 1) * w = k * w + w := by ring
      have hku : ((k : Int) + 1) * S.bm.upl = k * S.bm.upl + S.bm.upl := by ring
      have hk0 : (0 : Int) ≤ k * S.bm.upl := mul_nonneg (by simp) (by omega)
      have hlast : (k : Int) * S.bm.upl + S.bm.upl ≤ n * S.bm.upl := by
        have := mul_le_mul_of_nonneg_right (show (k + 1 : Int) ≤ n by omega) (show 0 ≤ S.bm.upl by omega)
        rwa [add_mul, one_mul] at this
      obtain ⟨h1, h2⟩ := @ih (showRow S (p.mask.getD r 0) (p.icon.getD r 0) w startBit sptr bptr mem) (r + 1)
        (sptr + S.bm.upl) (bptr + w) (by omega) k hk
      have hold : showRow S (p.mask.getD r 0) (p.icon.getD r 0) w startBit sptr bptr mem (sptr + S.bm.upl + k * S.bm.upl + c) =
          mem (sptr + S.bm.upl + k * S.bm.upl + c) := showRow_frame (by omega) (by omega)
      rw [hold] at h1 h2
      rw [Nat.cast_succ, hkw, hku, show bptr + (k * w + w) + c = bptr + w + k * w + c by ring,
        show sptr + (k * S.bm.upl + S.bm.upl) + c = sptr + S.bm.upl + k * S.bm.upl + c by ring, show r + (k + 1) = r + 1 + k by omega]
      exact ⟨h1, h2⟩

def Screen.Buffer (S : Screen) (a : Int) : Prop := S.direct8_mbg ≤ a ∧ a < S.direct8_mbg + 16 * 16

def Screen.Has (S : Screen) (x y : Int) : Prop := (0 ≤ x ∧ x < S.bm.width) ∧ 0 ≤ y ∧ y < S.bm.height

def Box.Covers (b : Box) (x y : Int) : Prop := (b.x ≤ x ∧ x < b.x + b.w) ∧ b.y ≤ y ∧ y < b.y + b.h

def Screen.Elsewhere (S : Screen) (a : Int) : Prop := ¬ S.Buffer a ∧ ∀ x y, S.Has x y → a ≠ S.bm.pixel x y

theorem pixel_buffer {x y : Int} (h : S.Has x y) : ¬ S.Buffer (S.bm.pixel x y) := by
  obtain ⟨hx, hy⟩ := h
  have hf := S.bm.fits
  have h0 := mul_nonneg hy.1 (show 0 ≤ S.bm.upl by omega)
  have h1 := mul_le_mul_of_nonneg_right (show y + 1 ≤ S.bm.height by omega) (show 0 ≤ S.bm.upl by omega)
  rw [add_mul, one_mul] at h1
  rcases S.apart with h | h
  all_goals
    simp only [Screen.Buffer, BITMAP.pixel]
    omega

theorem pixel_eq {x y x1 y1 : Int} (h : S.Has x y) (h1 : S.Has x1 y1) (he : S.bm.pixel x y = S.bm.pixel x1 y1) : x = x1 ∧ y = y1 :=
  (pixel_inj (.inl rfl) h.1 h.2 h1.1 h1.2 he).2

/-- What of the screen the pointer has drawn on, at most 16 lines of at most 16 pixels. -/
structure Screen.Fits (S : Screen) (b : Box) : Prop where
  width : 0 ≤ b.w ∧ b.w ≤ 16
  height : 0 ≤ b.h ∧ b.h ≤ 16
  inside : S.bm.Inside b.x b.y b.w b.h

theorem Screen.Fits.has {b : Box} (h : S.Fits b) {x y : Int} (hc : Box.Covers b x y) : S.Has x y := by
  obtain ⟨h1, h2, h3, h4⟩ := h.inside
  obtain ⟨hx, hy⟩ := hc
  exact ⟨by omega, by omega⟩

theorem Screen.Fits.kept {b : Box} (h : S.Fits b) {x y : Int} (hc : Box.Covers b x y) :
    S.Buffer (S.direct8_mbg + (y - b.y) * b.w + (x - b.x)) := by
  obtain ⟨hw, hh, -⟩ := h
  obtain ⟨hx, hy⟩ := hc
  have h0 := mul_nonneg (show 0 ≤ y - b.y by omega) hw.1
  have h1 := mul_le_mul_of_nonneg_right (show y - b.y ≤ 15 by omega) hw.1
  unfold Screen.Buffer
  omega

theorem Screen.Fits.apart {b : Box} (h : S.Fits b) : S.bm.pixel b.x b.y + b.h * S.bm.upl + b.w ≤ S.direct8_mbg + S.bm.upl ∨
    S.direct8_mbg + b.h * b.w ≤ S.bm.pixel b.x b.y := by
  obtain ⟨hw, hh, h1, h2, h3, h4⟩ := h
  have hf := S.bm.fits
  have hwide := S.wide
  unfold BITMAP.pixel
  rcases S.apart with ha | ha
  · right
    have hbuf := mul_le_mul hh.2 hw.2 hw.1 (by simp)
    have hup := mul_nonneg h3 (show 0 ≤ S.bm.upl by omega)
    omega
  · left
    have hlow := mul_le_mul_of_nonneg_right h4 (show 0 ≤ S.bm.upl by omega)
    rw [add_mul] at hlow
    omega

theorem Screen.Fits.rows {b : Box} (h : S.Fits b) {x y : Int} (hs : S.Has x y) (hc : ¬ Box.Covers b x y) (k : Nat) (hk : k < b.h.toNat) :
    ¬ (S.bm.pixel b.x b.y + k * S.bm.upl ≤ S.bm.pixel x y ∧ S.bm.pixel x y < S.bm.pixel b.x b.y + k * S.bm.upl + b.w) := by
  rintro ⟨hlo, hhi⟩
  have he : S.bm.pixel x y = S.bm.pixel (b.x + (S.bm.pixel x y - S.bm.pixel b.x b.y - k * S.bm.upl)) (b.y + k) := by
    unfold BITMAP.pixel
    ring
  have hin : Box.Covers b (b.x + (S.bm.pixel x y - S.bm.pixel b.x b.y - k * S.bm.upl)) (b.y + k) := ⟨by omega, by omega⟩
  obtain ⟨h1, h2⟩ := pixel_eq hs (h.has hin) he
  rw [← h1, ← h2] at hin
  exact hc hin

theorem Screen.Fits.elsewhere {b : Box} (h : S.Fits b) {a : Int} (ha : S.Elsewhere a) (k : Nat) (hk : k < b.h.toNat) :
    ¬ (S.bm.pixel b.x b.y + k * S.bm.upl ≤ a ∧ a < S.bm.pixel b.x b.y + k * S.bm.upl + b.w) := by
  rintro ⟨hlo, hhi⟩
  apply ha.2 (b.x + (a - S.bm.pixel b.x b.y - k * S.bm.upl)) (b.y + k) (h.has ⟨by omega, by omega⟩)
  unfold BITMAP.pixel
  ring

theorem Screen.Fits.buffer {b : Box} (h : S.Fits b) {a : Int} (ha : ¬ S.Buffer a) :
    ¬ (S.direct8_mbg ≤ a ∧ a < S.direct8_mbg + b.h.toNat * b.w.toNat) := by
  obtain ⟨hw, hh, -⟩ := h
  have hbuf := mul_le_mul hh.2 hw.2 hw.1 (by simp)
  rintro ⟨hlo, hhi⟩
  apply ha
  unfold Screen.Buffer
  rw [Int.toNat_of_nonneg hw.1, Int.toNat_of_nonneg hh.1] at hhi
  omega

/-- What `direct8_mouseHide` puts back. -/
def Kept (S : Screen) (b : Box) (mem picture : Memory) : Prop :=
  ∀ x y, Box.Covers b x y → mem (S.direct8_mbg + (y - b.y) * b.w + (x - b.x)) = picture (S.bm.pixel x y)

theorem shown_cells {b : Box} (h : S.Fits b) {x y : Int} (hc : Box.Covers b x y) :
    showRows S p startBit b.w.toNat b.h.toNat r (S.bm.pixel b.x b.y) S.direct8_mbg mem
      (S.direct8_mbg + (y - b.y) * b.w + (x - b.x)) = mem (S.bm.pixel x y) ∧
    showRows S p startBit b.w.toNat b.h.toNat r (S.bm.pixel b.x b.y) S.direct8_mbg mem (S.bm.pixel x y) =
      ink S (p.mask.getD (r + (y - b.y).toNat) 0) (p.icon.getD (r + (y - b.y).toNat) 0) (startBit >>> (x - b.x).toNat)
        (mem (S.bm.pixel x y)) := by
  obtain ⟨hx, hy⟩ := hc
  have hw := h.width
  have hh := h.height
  have hf := S.bm.fits
  have hin := h.inside
  have hcells := @showRows_cells S p mem startBit b.w.toNat b.h.toNat r (S.bm.pixel b.x b.y) S.direct8_mbg
    (by unfold BITMAP.Inside at hin; omega) (by rw [Int.toNat_of_nonneg hw.1, Int.toNat_of_nonneg hh.1]; exact h.apart)
    (y - b.y).toNat (by omega) (x - b.x) (by omega) (by omega)
  have hp : S.bm.pixel b.x b.y + (y - b.y) * S.bm.upl + (x - b.x) = S.bm.pixel x y := by
    unfold BITMAP.pixel
    ring
  rwa [Int.toNat_of_nonneg hw.1, Int.toNat_of_nonneg (by omega), hp] at hcells

theorem hidden_cells {picture : Memory} {b : Box} (h : S.Fits b) (hk : Kept S b mem picture) {x y : Int} (hc : Box.Covers b x y) :
    moveRows b.w b.w S.bm.upl b.h.toNat S.direct8_mbg (S.bm.pixel b.x b.y) mem (S.bm.pixel x y) = picture (S.bm.pixel x y) := by
  obtain ⟨hx, hy⟩ := hc
  have hp : S.bm.pixel x y = S.bm.pixel b.x b.y + (y - b.y).toNat * S.bm.upl + (x - b.x) := by
    rw [Int.toNat_of_nonneg (by omega)]
    unfold BITMAP.pixel
    ring
  rw [← hk x y ⟨hx, hy⟩, hp, moveRows_cell _ (by omega) (by omega) (by omega), Int.toNat_of_nonneg (by omega)]
  intro k k' hlt hk' i i' h0 hi h0' hi'
  have hcov : Box.Covers b (b.x + i) (b.y + k') := ⟨by omega, by omega⟩
  have hcov' : Box.Covers b (b.x + i') (b.y + k) := ⟨by omega, by omega⟩
  have hrow (m : Nat) (j : Int) : S.bm.pixel b.x b.y + m * S.bm.upl + j = S.bm.pixel (b.x + j) (b.y + m) := by
    unfold BITMAP.pixel
    ring
  rw [hrow, hrow]
  constructor
  · intro he
    apply pixel_buffer (h.has hcov')
    rw [← he]
    simpa using h.kept hcov
  · intro he
    have := (pixel_eq (h.has hcov) (h.has hcov') he).2
    omega

theorem hidden_frame {b : Box} {a : Int}
    (ha : ∀ k : Nat, k < b.h.toNat → ¬ (S.bm.pixel b.x b.y + k * S.bm.upl ≤ a ∧ a < S.bm.pixel b.x b.y + k * S.bm.upl + b.w)) :
    moveRows b.w b.w S.bm.upl b.h.toNat S.direct8_mbg (S.bm.pixel b.x b.y) mem a = mem a := by
  apply moveRows_frame
  intro k hk i h0 hi he
  apply ha k hk
  omega

/-- The pointer over a pixel: bit `15 - c` of a line is column `c`. -/
def MOUSEPOINTER.paints (S : Screen) (p : MOUSEPOINTER) (real : Point) (x y : Int) (v : BitVec 8) : BitVec 8 :=
  let c := x - (real.1 + p.xDrawOffset)
  let r := y - (real.2 + p.yDrawOffset)
  if (0 ≤ c ∧ c < 16) ∧ 0 ≤ r ∧ r < 16 then
    if (p.icon.getD r.toNat 0).getLsbD (15 - c.toNat) then S.FGCOL_INDEX
    else if (p.mask.getD r.toNat 0).getLsbD (15 - c.toNat) then S.BGCOL_INDEX
    else v
  else v

theorem bit_and (v : BitVec 16) {c : Nat} (hc : c < 16) : v &&& (0x8000#16 >>> c) ≠ 0 ↔ v.getLsbD (15 - c) = true := by
  have hbit : 0x8000#16 >>> c = BitVec.twoPow 16 (15 - c) := by
    interval_cases c <;> rfl
  have hne : 0x8000#16 >>> c ≠ 0 := by
    interval_cases c <;> decide
  rw [hbit, BitVec.and_twoPow, ← hbit]
  split_ifs with h
  · exact iff_of_true hne h
  · simp [h]

def Touches (S : Screen) (p : MOUSEPOINTER) (real : Point) : Prop :=
  (-16 ≤ real.1 + p.xDrawOffset ∧ real.1 + p.xDrawOffset ≤ S.bm.width) ∧ -16 ≤ real.2 + p.yDrawOffset ∧ real.2 + p.yDrawOffset ≤ S.bm.height

theorem clipSide_spec {d size : Int} (hs : 16 ≤ size ∧ size < 32768) (hd : -16 ≤ d ∧ d ≤ size) {s : Side} (h : clipSide (short d) size = s) :
    (0 ≤ s.start ∧ s.start + s.length ≤ size) ∧ (0 ≤ s.length ∧ s.length ≤ 16) ∧ 0 ≤ s.skipped ∧ s.start - s.skipped = d ∧
      ∀ x, 0 ≤ x → x < size → (s.start ≤ x ∧ x < s.start + s.length ↔ 0 ≤ x - d ∧ x - d < 16) := by
  rw [short_of_range (by omega) (by omega)] at h
  unfold clipSide at h
  split_ifs at h
  all_goals
    subst h
    refine ⟨by simp only; omega, by simp only; omega, by simp only; omega, by simp only; omega, ?_⟩
    intro x h0 hx
    simp only
    omega

/-- The picture as it would be without a mouse, and the pointer that is drawn over it. -/
structure Scene where
  mem : Memory
  pointer : Option (MOUSEPOINTER × Point) := none
  disabled : Int := 0
  real : Point := (0, 0)

def Scene.overlay (S : Screen) (c : Scene) (x y : Int) : BitVec 8 :=
  match c.pointer with
  | none => c.mem (S.bm.pixel x y)
  | some (p, real) => p.paints S real x y (c.mem (S.bm.pixel x y))

structure Represents (S : Screen) (c : Scene) (s : Shown) : Prop where
  visible : s.glob_mouse.visible = c.pointer.isSome
  disabled : s.glob_mouse.disabled = c.disabled
  real : s.glob_mouse.real = c.real
  screen : ∀ x y, S.Has x y → s.mem (S.bm.pixel x y) = c.overlay S x y
  elsewhere : ∀ a, S.Elsewhere a → s.mem a = c.mem a
  under : ∀ p real, c.pointer = some (p, real) →
    Touches S p real ∧ s.glob_mouse.drawn = drawnAt S p real ∧ Kept S (drawnAt S p real) s.mem c.mem

theorem drawn_fits {real : Point} (h : Touches S p real) : S.Fits (drawnAt S p real) := by
  obtain ⟨h1, h2, -⟩ := clipSide_spec S.wide h.1 rfl
  obtain ⟨h3, h4, -⟩ := clipSide_spec S.high h.2 rfl
  exact ⟨h2, h4, h1.1, h1.2, h3.1, h3.2⟩

theorem paints_outside {real : Point} (h : Touches S p real) {x y : Int} (hs : S.Has x y)
    (hc : ¬ Box.Covers (drawnAt S p real) x y) (v : BitVec 8) : p.paints S real x y v = v := by
  obtain ⟨-, -, -, -, hx⟩ := clipSide_spec S.wide h.1 rfl
  obtain ⟨-, -, -, -, hy⟩ := clipSide_spec S.high h.2 rfl
  unfold MOUSEPOINTER.paints
  apply if_neg
  rintro ⟨hcol, hrow⟩
  exact hc ⟨(hx x hs.1.1 hs.1.2).mpr hcol, (hy y hs.2.1 hs.2.2).mpr hrow⟩

theorem skip_toNat {s : Side} {d x : Int} (hk : 0 ≤ s.skipped) (hd : s.start - s.skipped = d) (hx : s.start ≤ x) :
    s.skipped.toNat + (x - s.start).toNat = (x - d).toNat := by
  omega

theorem paints_inside {real : Point} (h : Touches S p real) {x y : Int} (hc : Box.Covers (drawnAt S p real) x y) (v : BitVec 8) :
    p.paints S real x y v = ink S (p.mask.getD ((lines S p real).skipped.toNat + (y - (drawnAt S p real).y).toNat) 0)
      (p.icon.getD ((lines S p real).skipped.toNat + (y - (drawnAt S p real).y).toNat) 0)
      (0x8000#16 >>> (columns S p real).skipped.toNat >>> (x - (drawnAt S p real).x).toNat) v := by
  have hs := (drawn_fits h).has hc
  obtain ⟨-, -, hk, hd, hx⟩ := clipSide_spec S.wide h.1 rfl
  obtain ⟨-, -, hk', hd', hy⟩ := clipSide_spec S.high h.2 rfl
  have hcol := (hx x hs.1.1 hs.1.2).mp hc.1
  have hrow := (hy y hs.2.1 hs.2.2).mp hc.2
  have hbit : (x - (real.1 + p.xDrawOffset)).toNat < 16 := by omega
  have hc0 : (columns S p real).skipped.toNat + (x - (drawnAt S p real).x).toNat = (x - (real.1 + p.xDrawOffset)).toNat :=
    skip_toNat hk hd hc.1.1
  have hr0 : (lines S p real).skipped.toNat + (y - (drawnAt S p real).y).toNat = (y - (real.2 + p.yDrawOffset)).toNat :=
    skip_toNat hk' hd' hc.2.1
  rw [hr0, ← BitVec.shiftRight_add, hc0]
  unfold MOUSEPOINTER.paints ink
  rw [if_pos ⟨hcol, hrow⟩]
  simp only [bit_and _ hbit]

def Scene.mouse_show (getPointerType : MOUSEPOINTER) (c : Scene) : Scene :=
  if c.pointer.isSome ∨ c.disabled ≠ 0 then c else { c with pointer := some (getPointerType, c.real) }

def Scene.mouse_rcintersect (S : Screen) (c : Scene) (b : Box) : Bool :=
  c.pointer.any fun q => intersect (drawnAt S q.1 q.2) ⟨short b.x, short b.y, short b.w, short b.h⟩

def Scene.drawn (S : Screen) (boxes : List Box) (f : Memory → Memory) (c : Scene) : Scene :=
  { c with mem := f c.mem, pointer := if boxes.any (c.mouse_rcintersect S) then none else c.pointer }

variable {c : Scene} {s : Shown}

theorem show_represents (h : Represents S c s) (hp : Touches S p c.real) :
    Represents S (c.mouse_show p) (mouse_show S p s) := by
  unfold Scene.mouse_show mouse_show
  rw [h.visible, h.disabled]
  split_ifs with hno
  · exact h
  · have hhidden : c.pointer = none := by
      simp only [not_or, Option.not_isSome_iff_eq_none] at hno
      exact hno.1
    have hsame : ∀ x y, S.Has x y → s.mem (S.bm.pixel x y) = c.mem (S.bm.pixel x y) := by
      intro x y hs
      rw [h.screen x y hs, Scene.overlay, hhidden]
    have hfits := drawn_fits hp
    constructor
    · rfl
    · exact h.disabled
    · exact h.real
    · intro x y hs
      simp only [Scene.overlay, direct8_mouseShow, h.real]
      rw [← hsame x y hs]
      by_cases hc : Box.Covers (drawnAt S p c.real) x y
      · rw [paints_inside hp hc]
        exact (shown_cells hfits hc).2
      · rw [paints_outside hp hs hc]
        apply showRows_frame
        · intro k hk
          have := hfits.rows hs hc k hk
          rwa [← Int.toNat_of_nonneg hfits.width.1] at this
        · exact hfits.buffer (pixel_buffer hs)
    · intro a ha
      simp only [direct8_mouseShow, h.real]
      rw [← h.elsewhere a ha]
      apply showRows_frame
      · intro k hk
        have := hfits.elsewhere ha k hk
        rwa [← Int.toNat_of_nonneg hfits.width.1] at this
      · exact hfits.buffer ha.1
    · intro q real hq
      obtain ⟨rfl, rfl⟩ := Prod.mk.inj (Option.some.inj hq)
      refine ⟨hp, by simp only [direct8_mouseShow, h.real], ?_⟩
      intro x y hc
      simp only [direct8_mouseShow, h.real]
      rw [← hsame x y (hfits.has hc)]
      exact (shown_cells hfits hc).1

theorem hide_represents (h : Represents S c s) :
    ∃ s', mouse_hide S s = some s' ∧ s'.glob_mouse.visible = false ∧ Represents S { c with pointer := none } s' := by
  unfold mouse_hide
  rw [h.visible]
  cases hc : c.pointer with
  | none =>
    refine ⟨s, rfl, by rw [h.visible, hc]; rfl, ?_⟩
    rwa [show { c with pointer := none } = c by rw [← hc]]
  | some q =>
    obtain ⟨p, real⟩ := q
    obtain ⟨ht, hd, hk⟩ := h.under p real hc
    have hfits := drawn_fits ht
    rw [Option.isSome_some, if_pos rfl, direct8_mouseHide]
    simp only [hd]
    rw [if_neg (by have := hfits.width; omega)]
    refine ⟨_, rfl, rfl, rfl, h.disabled, h.real, ?_, ?_, by simp⟩
    · intro x y hs
      simp only [Scene.overlay]
      by_cases hc : Box.Covers (drawnAt S p real) x y
      · exact hidden_cells hfits hk hc
      · rw [hidden_frame (hfits.rows hs hc), h.screen x y hs, Scene.overlay, ‹c.pointer = _›]
        exact paints_outside ht hs hc _
    · intro a ha
      simp only
      rw [hidden_frame (hfits.elsewhere ha), h.elsewhere a ha]

def Box.shorts (b : Box) : Box := ⟨short b.x, short b.y, short b.w, short b.h⟩

/-- The memory that a drawing may look at and change: what is not the screen's, and the pixels of the rectangles it asks for. -/
def Reaches (S : Screen) (boxes : List Box) (a : Int) : Prop :=
  S.Elsewhere a ∨ ∃ x y, (S.Has x y ∧ ∃ b ∈ boxes, Box.Covers (Box.shorts b) x y) ∧ a = S.bm.pixel x y

structure Confined (S : Screen) (boxes : List Box) (f : Memory → Memory) : Prop where
  writes : ∀ mem a, ¬ Reaches S boxes a → f mem a = mem a
  reads : ∀ mem mem', (∀ a, Reaches S boxes a → mem a = mem' a) → ∀ a, Reaches S boxes a → f mem a = f mem' a

theorem intersect_of_covers {b0 b1 : Box} {x y : Int} (h0 : Box.Covers b0 x y) (h1 : Box.Covers b1 x y) : intersect b0 b1 = true := by
  unfold Box.Covers at h0 h1
  unfold intersect
  rw [if_neg (by omega), if_neg (by omega), if_neg (by omega), if_neg (by omega)]

theorem rcintersect_eq (h : Represents S c s) : mouse_rcintersect s.glob_mouse = c.mouse_rcintersect S := by
  funext b
  unfold mouse_rcintersect Scene.mouse_rcintersect
  rw [h.visible]
  cases hc : c.pointer with
  | none => rfl
  | some q => simp [(h.under q.1 q.2 hc).2.1]

theorem apart_pointer {boxes : List Box} (hno : boxes.any (c.mouse_rcintersect S) = false) {p : MOUSEPOINTER} {real : Point}
    (hp : c.pointer = some (p, real)) {x y : Int} (hb : ∃ b ∈ boxes, Box.Covers (Box.shorts b) x y) :
    ¬ Box.Covers (drawnAt S p real) x y := by
  intro hc
  obtain ⟨b, hb, hin⟩ := hb
  have := (List.any_eq_false.mp hno) b hb
  apply this
  simp only [Scene.mouse_rcintersect, hp, Option.any_some]
  exact intersect_of_covers hc hin

theorem overlay_apart (h : Represents S c s) {boxes : List Box} (hno : boxes.any (c.mouse_rcintersect S) = false) {x y : Int}
    (hs : S.Has x y) (hb : ∃ b ∈ boxes, Box.Covers (Box.shorts b) x y) (mem : Memory) :
    Scene.overlay S { c with mem } x y = mem (S.bm.pixel x y) := by
  unfold Scene.overlay
  cases hc : c.pointer with
  | none => rfl
  | some q => exact paints_outside (h.under q.1 q.2 hc).1 hs (apart_pointer hno hc hb) _

theorem write_represents (h : Represents S c s) {boxes : List Box} {f : Memory → Memory}
    (hno : boxes.any (c.mouse_rcintersect S) = false) (hf : Confined S boxes f) :
    Represents S { c with mem := f c.mem } { s with mem := f s.mem } := by
  have hagree : ∀ a, Reaches S boxes a → s.mem a = c.mem a := by
    rintro a (ha | ⟨x, y, ⟨hs, hb⟩, rfl⟩)
    · exact h.elsewhere a ha
    · rw [h.screen x y hs]
      exact overlay_apart h hno hs hb c.mem
  constructor
  · exact h.visible
  · exact h.disabled
  · exact h.real
  · intro x y hs
    by_cases hb : ∃ b ∈ boxes, Box.Covers (Box.shorts b) x y
    · rw [overlay_apart h hno hs hb]
      exact hf.reads _ _ hagree _ (.inr ⟨x, y, ⟨hs, hb⟩, rfl⟩)
    · have hno : ¬ Reaches S boxes (S.bm.pixel x y) := by
        rintro (ha | ⟨x', y', ⟨hs', hb'⟩, he⟩)
        · exact ha.2 x y hs rfl
        · obtain ⟨rfl, rfl⟩ := pixel_eq hs hs' he
          exact hb hb'
      simp only [Scene.overlay, hf.writes _ _ hno]
      exact h.screen x y hs
  · intro a ha
    exact hf.reads _ _ hagree _ (.inl ha)
  · intro p real hp
    obtain ⟨ht, hd, hk⟩ := h.under p real hp
    refine ⟨ht, hd, ?_⟩
    intro x y hc
    have hs := (drawn_fits ht).has hc
    have hbuf := (drawn_fits ht).kept hc
    simp only
    rw [hf.writes, hf.writes]
    · exact hk x y hc
    · rintro (ha | ⟨x', y', ⟨hs', hb'⟩, he⟩)
      · exact ha.2 x y hs rfl
      · obtain ⟨rfl, rfl⟩ := pixel_eq hs hs' he
        exact apart_pointer hno hp hb' hc
    · rintro (ha | ⟨x', y', ⟨hs', hb'⟩, he⟩)
      · exact ha.1 hbuf
      · rw [he] at hbuf
        exact pixel_buffer hs' hbuf

theorem draw_represents (h : Represents S c s) {boxes : List Box} {f : Memory → Memory} (hf : Confined S boxes f) :
    ∃ s', drawn S boxes (some ∘ f) s = some s' ∧ Represents S (c.drawn S boxes f) s' := by
  unfold drawn Scene.drawn
  rw [rcintersect_eq h]
  split_ifs with hany
  · obtain ⟨s', hs', -, hr⟩ := hide_represents h
    rw [hs']
    exact ⟨_, rfl, write_represents hr (by simp [Scene.mouse_rcintersect]) hf⟩
  · exact ⟨_, rfl, write_represents h (by simpa using hany) hf⟩

def blitted (S : Screen) (c0 c1 : Rec) (b : Blit) (mem : Memory) : Memory :=
  (direct8_bitblk (some c0) (some c1) S.bm b.xs b.ys b.w b.h S.bm b.xd b.yd mem).getD mem

theorem bitblk_confined {c0 c1 : Rec} {b : Blit} (h0 : S.bm.Holds c0) (h1 : S.bm.Holds c1)
    (hb : ∀ z ∈ [b.xs, b.ys, b.w, b.h, b.xd, b.yd], -32768 ≤ z ∧ z < 32768) :
    (some ∘ blitted S c0 c1 b = direct8_bitblk (some c0) (some c1) S.bm b.xs b.ys b.w b.h S.bm b.xd b.yd) ∧
      Confined S (sides b) (blitted S c0 c1 b) := by
  have hdone : ∀ mem, direct8_bitblk (some c0) (some c1) S.bm b.xs b.ys b.w b.h S.bm b.xd b.yd mem = some (blitted S c0 c1 b mem) ∧
      b.Done c0 c1 S.bm S.bm mem (blitted S c0 c1 b mem) := by
    intro mem
    obtain ⟨mem', he, hd⟩ := bitblk_done (.inl rfl) h0 h1 b.xs b.ys b.w b.h b.xd b.yd mem
    unfold blitted
    rw [he]
    exact ⟨rfl, hd⟩
  have hshort : ∀ z ∈ [b.xs, b.ys, b.w, b.h, b.xd, b.yd], short z = z := fun z hz => short_of_range (hb z hz).1 (hb z hz).2
  simp only [List.mem_cons, List.not_mem_nil, or_false, forall_eq_or_imp, forall_eq] at hshort
  obtain ⟨e1, e2, e3, e4, e5, e6⟩ := hshort
  have hsrc : ∀ i j, b.Moves c0 c1 i j → Reaches S (sides b) (S.bm.pixel (b.xs + i) (b.ys + j)) := by
    rintro i j ⟨hi, hi', hj, hj', ⟨m1, m2, m3, m4⟩, -⟩
    obtain ⟨l1, l2, l3, l4⟩ := h0
    refine .inr ⟨_, _, ⟨⟨⟨by omega, by omega⟩, by omega, by omega⟩, ⟨b.xs, b.ys, b.w, b.h⟩, by simp [sides], ?_⟩, rfl⟩
    simp only [Box.Covers, Box.shorts, e1, e2, e3, e4]
    omega
  have hdst : ∀ i j, b.Moves c0 c1 i j → Reaches S (sides b) (S.bm.pixel (b.xd + i) (b.yd + j)) := by
    rintro i j ⟨hi, hi', hj, hj', -, m1, m2, m3, m4⟩
    obtain ⟨l1, l2, l3, l4⟩ := h1
    refine .inr ⟨_, _, ⟨⟨⟨by omega, by omega⟩, by omega, by omega⟩, ⟨b.xd, b.yd, b.w, b.h⟩, by simp [sides], ?_⟩, rfl⟩
    simp only [Box.Covers, Box.shorts, e3, e4, e5, e6]
    omega
  refine ⟨funext fun mem => (hdone mem).1.symm, ?_, ?_⟩
  · intro mem a ha
    apply (hdone mem).2.2
    rintro i j hm rfl
    exact ha (hdst i j hm)
  · intro mem mem' heq a ha
    by_cases hm : ∃ i j, b.Moves c0 c1 i j ∧ a = S.bm.pixel (b.xd + i) (b.yd + j)
    · obtain ⟨i, j, hm, rfl⟩ := hm
      rw [(hdone mem).2.1 i j hm, (hdone mem').2.1 i j hm]
      exact heq _ (hsrc i j hm)
    · have hno : ∀ i j, b.Moves c0 c1 i j → a ≠ S.bm.pixel (b.xd + i) (b.yd + j) := fun i j h he => hm ⟨i, j, h, he⟩
      rw [(hdone mem).2.2 a hno, (hdone mem').2.2 a hno]
      exact heq a ha

def Scene.step (S : Screen) (c : Scene) : Event → Scene
  | .mouse_show p => c.mouse_show p
  | .mouse_hide => { c with pointer := none }
  | .moved real => { c with real }
  | .disabled n => { c with disabled := c.disabled + n }
  | .draw boxes f => c.drawn S boxes f
  | .bitblk c0 c1 b => c.drawn S (sides b) (blitted S c0 c1 b)

/-- What a request draws where there is no mouse at all. -/
def Event.draws (S : Screen) (mem : Memory) : Event → Memory
  | .draw _ f => f mem
  | .bitblk c0 c1 b => blitted S c0 c1 b mem
  | _ => mem

/-- The mouse stays on the screen, the pointers are near it, and a drawing keeps to its rectangles. -/
def Event.Safe (S : Screen) : Event → Prop
  | .mouse_show p => (-16 ≤ p.xDrawOffset ∧ p.xDrawOffset ≤ 1) ∧ -16 ≤ p.yDrawOffset ∧ p.yDrawOffset ≤ 1
  | .moved real => S.Has real.1 real.2
  | .draw boxes f => Confined S boxes f
  | .bitblk c0 c1 b => (S.bm.Holds c0 ∧ S.bm.Holds c1) ∧ ∀ z ∈ [b.xs, b.ys, b.w, b.h, b.xd, b.yd], -32768 ≤ z ∧ z < 32768
  | _ => True

theorem step_represents (h : Represents S c s) (hreal : S.Has c.real.1 c.real.2) {e : Event} (he : e.Safe S) :
    ∃ s', step S s e = some s' ∧ Represents S (c.step S e) s' ∧ S.Has (c.step S e).real.1 (c.step S e).real.2 := by
  cases e with
  | mouse_show p =>
    obtain ⟨hx, hy⟩ := hreal
    obtain ⟨ox, oy⟩ := he
    refine ⟨_, rfl, show_represents h ⟨by omega, by omega⟩, ?_⟩
    unfold Scene.step Scene.mouse_show
    split_ifs
    · exact ⟨hx, hy⟩
    · exact ⟨hx, hy⟩
  | mouse_hide =>
    obtain ⟨s', hs', -, hr⟩ := hide_represents h
    exact ⟨s', hs', hr, hreal⟩
  | moved real => exact ⟨_, rfl, ⟨h.visible, h.disabled, rfl, h.screen, h.elsewhere, h.under⟩, he⟩
  | disabled n =>
    exact ⟨_, rfl, ⟨h.visible, by simp only [Scene.step, h.disabled], h.real, h.screen, h.elsewhere, h.under⟩, hreal⟩
  | draw boxes f =>
    obtain ⟨s', hs', hr⟩ := draw_represents h he
    exact ⟨s', hs', hr, hreal⟩
  | bitblk c0 c1 b =>
    obtain ⟨heq, hconf⟩ := bitblk_confined he.1.1 he.1.2 he.2
    obtain ⟨s', hs', hr⟩ := draw_represents h hconf
    rw [heq] at hs'
    exact ⟨s', hs', hr, hreal⟩

theorem step_mem (c : Scene) (e : Event) : (c.step S e).mem = e.draws S c.mem := by
  cases e with
  | mouse_show p =>
    unfold Scene.step Scene.mouse_show
    split_ifs <;> rfl
  | _ => rfl

theorem run_represents (h : Represents S c s) (hreal : S.Has c.real.1 c.real.2) (es : List Event) (hes : ∀ e ∈ es, e.Safe S) :
    ∃ s', run S s es = some s' ∧ Represents S (es.foldl (Scene.step S) c) s' ∧
      (es.foldl (Scene.step S) c).mem = es.foldl (Event.draws S) c.mem := by
  induction es generalizing c s with
  | nil => exact ⟨s, rfl, h, rfl⟩
  | cons e es ih =>
    obtain ⟨s1, hs1, hr, hreal⟩ := step_represents h hreal (hes e (by simp))
    obtain ⟨s', hs', hr', hm⟩ := ih hr hreal fun e he => hes e (by simp [he])
    refine ⟨s', ?_, hr', ?_⟩
    · rw [run, List.foldlM_cons, hs1]
      exact hs'
    · rw [List.foldl_cons, List.foldl_cons, hm, step_mem]

/-- The pointer never shows in what is drawn: at every time the screen is what the requests draw where there is no mouse, with
the pointer over it. -/
theorem pointer_over_picture (S : Screen) (mem : Memory) (real : Point) (hreal : S.Has real.1 real.2) (es : List Event)
    (hes : ∀ e ∈ es, e.Safe S) :
    ∃ s, run S ⟨mem, { real }⟩ es = some s ∧ Represents S (es.foldl (Scene.step S) { mem, real }) s ∧
      (es.foldl (Scene.step S) { mem, real }).mem = es.foldl (Event.draws S) mem := by
  apply run_represents _ hreal es hes
  exact ⟨rfl, rfl, rfl, fun _ _ _ => rfl, fun _ _ => rfl, by simp⟩

def smallScreen : Screen := ⟨⟨1000, 20, 20, 20, le_rfl⟩, 0, 1, 2, by decide, by decide, by decide⟩

/-- A copy on the screen under the pointer, which is then shown elsewhere. -/
def copyUnderPointer : List Event :=
  [.mouse_show ⟨-8, -8, [0xffff], [0x7ffe]⟩, .bitblk (rect_create 0 0 20 20) (rect_create 0 0 20 20) ⟨0, 0, 8, 8, 3, 5⟩,
    .moved (19, 0), .mouse_show ⟨0, 0, [0xffff], [0x7ffe]⟩]

theorem pointer_over_picture_copy : ∃ s, run smallScreen ⟨fun a => BitVec.ofInt 8 a, { real := (4, 4) }⟩ copyUnderPointer = some s ∧
    Represents smallScreen (copyUnderPointer.foldl (Scene.step smallScreen) { mem := fun a => BitVec.ofInt 8 a, real := (4, 4) }) s ∧
    (copyUnderPointer.foldl (Scene.step smallScreen) { mem := fun a => BitVec.ofInt 8 a, real := (4, 4) }).mem =
      copyUnderPointer.foldl (Event.draws smallScreen) fun a => BitVec.ofInt 8 a := by
  apply pointer_over_picture smallScreen _ (4, 4) ⟨by decide, by decide⟩ copyUnderPointer
  simp only [copyUnderPointer, List.forall_mem_cons, Event.Safe]
  refine ⟨⟨by decide, by decide⟩, ⟨⟨?_, ?_⟩, by decide⟩, ⟨by decide, by decide⟩, ⟨by decide, by decide⟩, by simp⟩
  · exact ⟨by decide, by decide, by decide, by decide⟩
  · exact ⟨by decide, by decide, by decide, by decide⟩

theorem direct8_mouseHide_none (s : Shown) : direct8_mouseHide S s = none ↔ s.glob_mouse.drawn.w < 0 ∧ 0 < s.glob_mouse.drawn.h := by
  simp [direct8_mouseHide]

theorem clipSide_length (d : Int) {size : Int} (hs : 16 ≤ size) :
    ((clipSide d size).length < 0 ↔ d < -16 ∨ size < d) ∧ (0 < (clipSide d size).length ↔ -16 < d ∧ d < size) := by
  unfold clipSide
  split_ifs
  all_goals
    simp only
    omega

end WWindowSystem.Graph.Mouse
