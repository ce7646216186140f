import Mathlib.Data.BitVec
import Mathlib.Data.Int.ConditionallyCompleteOrder
import WWindowSystem.Graph.Clip
import WWindowSystem.Library.RowCopy

namespace WWindowSystem.Graph

open Option

structure BITMAP where
  data : Int
  upl : Int
  width : Int
  height : Int
  fits : width ≤ upl

abbrev Memory := Int → BitVec 8

def BITMAP.pixel (bm : BITMAP) (x y : Int) : Int := bm.data + y * bm.upl + x

def direct8_bitblk (glob_clip0 glob_clip1 : Option Rec) (bm : BITMAP) (x0 y0 width height : Int) (bm1 : BITMAP)
    (x1 y1 : Int) (mem : Memory) : Option Memory :=
  match CLIP_BITBLIT ⟨x0, y0, width, height, x1, y1⟩ glob_clip0 glob_clip1 with
  | none => some mem
  | some b =>
    if b.w < 0 ∨ b.h < 0 then none
    else if b.yd < b.ys then
      some (moveRows b.w bm.upl bm1.upl b.h.toNat (bm.data + b.ys * bm.upl + b.xs) (bm1.data + b.yd * bm1.upl + b.xd) mem)
    else
      some (moveRows b.w (-bm.upl) (-bm1.upl) b.h.toNat (bm.data + (b.ys + b.h - 1) * bm.upl + b.xs)
        (bm1.data + (b.yd + b.h - 1) * bm1.upl + b.xd) mem)

def direct8_scroll (glob_clip0 : Option Rec) (bm : BITMAP) (x0 y0 width height y1 : Int) (mem : Memory) : Option Memory :=
  if y0 = y1 then some mem
  else
    match CLIP_BITBLIT ⟨x0, y0, width, height, x0, y1⟩ glob_clip0 glob_clip0 with
    | none => some mem
    | some b =>
      if b.w < 0 ∨ b.h < 0 then none
      else if b.yd < b.ys then
        some (moveRows b.w bm.upl bm.upl b.h.toNat (bm.data + b.ys * bm.upl + b.xs) (bm.data + b.yd * bm.upl + b.xs) mem)
      else
        some (moveRows b.w (-bm.upl) (-bm.upl) b.h.toNat (bm.data + (b.ys + b.h - 1) * bm.upl + b.xs)
          (bm.data + (b.yd + b.h - 1) * bm.upl + b.xs) mem)

def Shows (R : Rec) (x y : Int) : Prop := R.x0 ≤ x ∧ x ≤ R.x1 ∧ R.y0 ≤ y ∧ y ≤ R.y1

def BITMAP.Holds (bm : BITMAP) (R : Rec) : Prop := 0 ≤ R.x0 ∧ R.x1 < bm.width ∧ 0 ≤ R.y0 ∧ R.y1 < bm.height

def BITMAP.Beside (bm bm1 : BITMAP) : Prop :=
  bm = bm1 ∨ bm.data + bm.height * bm.upl ≤ bm1.data ∨ bm1.data + bm1.height * bm1.upl ≤ bm.data

def Blit.Moves (b : Blit) (c0 c1 : Rec) (i j : Int) : Prop :=
  0 ≤ i ∧ i < b.w ∧ 0 ≤ j ∧ j < b.h ∧ Shows c0 (b.xs + i) (b.ys + j) ∧ Shows c1 (b.xd + i) (b.yd + j)

def Blit.Done (b : Blit) (c0 c1 : Rec) (bm bm1 : BITMAP) (mem mem' : Memory) : Prop :=
  (∀ i j, b.Moves c0 c1 i j → mem' (bm1.pixel (b.xd + i) (b.yd + j)) = mem (bm.pixel (b.xs + i) (b.ys + j))) ∧
    ∀ a, (∀ i j, b.Moves c0 c1 i j → a ≠ bm1.pixel (b.xd + i) (b.yd + j)) → mem' a = mem a

variable {b b' : Blit} {c0 c1 : Rec} {bm bm1 : BITMAP} {mem mem' : Memory}

theorem clip_bitblit_none (h : CLIP_BITBLIT b (some c0) (some c1) = none) (i j : Int) : ¬ b.Moves c0 c1 i j := by
  rintro ⟨h1, h2, h3, h4, h5, h6⟩
  unfold Shows at h5 h6
  simp only [CLIP_BITBLIT, CLIP_BOX, isNone_some, Bool.or_self, Bool.false_eq_true, if_false] at h
  rw [if_pos (by omega)] at h
  simp only [bind_eq_bind, bind_some] at h
  rw [if_pos (by omega)] at h
  cases h

theorem clip_side (xs w xd l0 u0 l1 u1 i : Int) {x' : Int} (hx : x' = max xs l0 + (max (xd + (max xs l0 - xs)) l1 - (xd + (max xs l0 - xs)))) :
    (0 ≤ x' - xs + i ∧ x' - xs + i < w ∧ (l0 ≤ xs + (x' - xs + i) ∧ xs + (x' - xs + i) ≤ u0) ∧ l1 ≤ xd + (x' - xs + i) ∧ xd + (x' - xs + i) ≤ u1) ↔
      0 ≤ i ∧ i < min (xd + (max xs l0 - xs) + (min (xs + w) (u0 + 1) - max xs l0)) (u1 + 1) - max (xd + (max xs l0 - xs)) l1 := by
  omega

theorem clip_bitblit_some (h : CLIP_BITBLIT b (some c0) (some c1) = some b') :
    0 < b'.w ∧ 0 < b'.h ∧ b'.xd - b.xd = b'.xs - b.xs ∧ b'.yd - b.yd = b'.ys - b.ys ∧
      ∀ i j, b.Moves c0 c1 (b'.xs - b.xs + i) (b'.ys - b.ys + j) ↔ 0 ≤ i ∧ i < b'.w ∧ 0 ≤ j ∧ j < b'.h := by
  simp only [CLIP_BITBLIT, CLIP_BOX, isNone_some, Bool.or_self, Bool.false_eq_true, if_false] at h
  split_ifs at h with hs
  · simp only [bind_eq_bind, bind_some] at h
    split_ifs at h with hd
    · obtain rfl := Option.some.inj h
      refine ⟨Int.sub_pos_of_lt hd.1, Int.sub_pos_of_lt hd.2, by simp only; omega, by simp only; omega, ?_⟩
      intro i j
      have hx := clip_side b.xs b.w b.xd c0.x0 c0.x1 c1.x0 c1.x1 i rfl
      have hy := clip_side b.ys b.h b.yd c0.y0 c0.y1 c1.y0 c1.y1 j rfl
      simp only [Blit.Moves, Shows]
      constructor
      · rintro ⟨h1, h2, h3, h4, ⟨h5, h6, h7, h8⟩, h9, h10, h11, h12⟩
        obtain ⟨i1, i2⟩ := hx.mp ⟨h1, h2, ⟨h5, h6⟩, h9, h10⟩
        obtain ⟨j1, j2⟩ := hy.mp ⟨h3, h4, ⟨h7, h8⟩, h11, h12⟩
        exact ⟨i1, i2, j1, j2⟩
      · rintro ⟨h1, h2, h3, h4⟩
        obtain ⟨i1, i2, ⟨i3, i4⟩, i5, i6⟩ := hx.mpr ⟨h1, h2⟩
        obtain ⟨j1, j2, ⟨j3, j4⟩, j5, j6⟩ := hy.mpr ⟨h3, h4⟩
        exact ⟨i1, i2, j1, j2, ⟨i3, i4, j3, j4⟩, i5, i6, j5, j6⟩
    · cases h
  · cases h

theorem pixel_inj (hb : bm.Beside bm1) {x y x1 y1 : Int} (hx : 0 ≤ x ∧ x < bm.width) (hy : 0 ≤ y ∧ y < bm.height)
    (hx1 : 0 ≤ x1 ∧ x1 < bm1.width) (hy1 : 0 ≤ y1 ∧ y1 < bm1.height) (h : bm.pixel x y = bm1.pixel x1 y1) :
    bm = bm1 ∧ x = x1 ∧ y = y1 := by
  have hf := bm.fits
  have hf1 := bm1.fits
  unfold BITMAP.pixel at h
  rcases hb with rfl | hb
  · have he : y * bm.upl + x = y1 * bm.upl + x1 := by omega
    obtain ⟨hy, hx⟩ := row_major hx.1 (by omega) hx1.1 (by omega) he
    exact ⟨rfl, hx, hy⟩
  · have hrow := mul_le_mul_of_nonneg_right (show y + 1 ≤ bm.height by omega) (show 0 ≤ bm.upl by omega)
    have hrow1 := mul_le_mul_of_nonneg_right (show y1 + 1 ≤ bm1.height by omega) (show 0 ≤ bm1.upl by omega)
    have h0 := mul_nonneg hy.1 (show 0 ≤ bm.upl by omega)
    have h1 := mul_nonneg hy1.1 (show 0 ≤ bm1.upl by omega)
    rw [add_mul, one_mul] at hrow hrow1
    omega

def BITMAP.Inside (bm : BITMAP) (x y w h : Int) : Prop :=
  0 ≤ x ∧ x + w ≤ bm.width ∧ 0 ≤ y ∧ y + h ≤ bm.height

theorem rows_moved (hb : bm.Beside bm1) {w h xs ys xd yd sstep dstep src dst : Int} {n : Nat} (row : Nat → Int)
    (hs : bm.Inside xs ys w h) (hd : bm1.Inside xd yd w h) (hrow : ∀ k : Nat, k < n → 0 ≤ row k ∧ row k < h)
    (hsrc : ∀ k : Nat, ∀ i, src + k * sstep + i = bm.pixel (xs + i) (ys + row k))
    (hdst : ∀ k : Nat, ∀ i, dst + k * dstep + i = bm1.pixel (xd + i) (yd + row k))
    (hall : ∀ j, 0 ≤ j → j < h → ∃ k < n, row k = j)
    (hapart : ∀ k k' : Nat, k < k' → k' < n → row k ≠ row k' ∧ (bm = bm1 → ys + row k' ≠ yd + row k)) :
    (∀ i j, 0 ≤ i → i < w → 0 ≤ j → j < h →
      moveRows w sstep dstep n src dst mem (bm1.pixel (xd + i) (yd + j)) = mem (bm.pixel (xs + i) (ys + j))) ∧
    ∀ a, (∀ i j, 0 ≤ i → i < w → 0 ≤ j → j < h → a ≠ bm1.pixel (xd + i) (yd + j)) →
      moveRows w sstep dstep n src dst mem a = mem a := by
  obtain ⟨hs1, hs2, hs3, hs4⟩ := hs
  obtain ⟨hd1, hd2, hd3, hd4⟩ := hd
  constructor
  · intro i j h0 hi hj hjh
    obtain ⟨k, hk, rfl⟩ := hall j hj hjh
    rw [← hdst k i, ← hsrc k i]
    apply moveRows_cell _ hk h0 hi
    intro k k' hk hk' i i' h0 hi h0' hi'
    have hr := hrow k (by omega)
    have hr' := hrow k' hk'
    obtain ⟨hne, hsd⟩ := hapart k k' hk hk'
    rw [hsrc, hdst, hdst]
    constructor
    · intro he
      obtain ⟨hbm, -, hy⟩ := pixel_inj hb ⟨by omega, by omega⟩ ⟨by omega, by omega⟩ ⟨by omega, by omega⟩ ⟨by omega, by omega⟩ he
      exact hsd hbm hy
    · intro he
      obtain ⟨-, -, hy⟩ := pixel_inj (.inl rfl) ⟨by omega, by omega⟩ ⟨by omega, by omega⟩ ⟨by omega, by omega⟩
        ⟨by omega, by omega⟩ he
      omega
  · intro a ha
    apply moveRows_frame
    intro k hk i h0 hi
    rw [hdst]
    have hr := hrow k hk
    exact ha i (row k) h0 hi hr.1 hr.2

def rowsOfBlit (b : Blit) (bm bm1 : BITMAP) (mem : Memory) : Memory :=
  if b.yd < b.ys then moveRows b.w bm.upl bm1.upl b.h.toNat (bm.data + b.ys * bm.upl + b.xs) (bm1.data + b.yd * bm1.upl + b.xd) mem
  else moveRows b.w (-bm.upl) (-bm1.upl) b.h.toNat (bm.data + (b.ys + b.h - 1) * bm.upl + b.xs)
    (bm1.data + (b.yd + b.h - 1) * bm1.upl + b.xd) mem

theorem rowsOfBlit_moved (mem : Memory) (hb : bm.Beside bm1) (hh : 0 < b.h) (hs : bm.Inside b.xs b.ys b.w b.h)
    (hd : bm1.Inside b.xd b.yd b.w b.h) : (∀ i j, 0 ≤ i → i < b.w → 0 ≤ j → j < b.h →
      rowsOfBlit b bm bm1 mem (bm1.pixel (b.xd + i) (b.yd + j)) = mem (bm.pixel (b.xs + i) (b.ys + j))) ∧
    ∀ a, (∀ i j, 0 ≤ i → i < b.w → 0 ≤ j → j < b.h → a ≠ bm1.pixel (b.xd + i) (b.yd + j)) →
      rowsOfBlit b bm bm1 mem a = mem a := by
  unfold rowsOfBlit
  split_ifs with hup
  · apply rows_moved hb (fun k => k) hs hd
    · intro k hk
      omega
    · intro k i
      unfold BITMAP.pixel
      ring
    · intro k i
      unfold BITMAP.pixel
      ring
    · intro j h0 hj
      exact ⟨j.toNat, by omega, by omega⟩
    · intro k k' hk hk'
      exact ⟨by omega, fun _ => by omega⟩
  · apply rows_moved hb (fun k => b.h - 1 - k) hs hd
    · intro k hk
      omega
    · intro k i
      unfold BITMAP.pixel
      ring
    · intro k i
      unfold BITMAP.pixel
      ring
    · intro j h0 hj
      exact ⟨(b.h - 1 - j).toNat, by omega, by omega⟩
    · intro k k' hk hk'
      exact ⟨by omega, fun _ => by omega⟩

theorem done_none (h : ∀ i j, ¬ b.Moves c0 c1 i j) : b.Done c0 c1 bm bm1 mem mem :=
  ⟨fun i j hm => absurd hm (h i j), fun _ _ => rfl⟩

theorem clip_inside (hclip : CLIP_BITBLIT b (some c0) (some c1) = some b') (h0 : bm.Holds c0) (h1 : bm1.Holds c1) :
    bm.Inside b'.xs b'.ys b'.w b'.h ∧ bm1.Inside b'.xd b'.yd b'.w b'.h := by
  obtain ⟨hw, hh, hx, hy, hmoves⟩ := clip_bitblit_some hclip
  have hfirst := (hmoves 0 0).mpr ⟨le_rfl, hw, le_rfl, hh⟩
  have hlast := (hmoves (b'.w - 1) (b'.h - 1)).mpr (by omega)
  unfold Blit.Moves Shows at hfirst hlast
  unfold BITMAP.Holds at h0 h1
  unfold BITMAP.Inside
  omega

theorem rowsOfBlit_done (hb : bm.Beside bm1) (hclip : CLIP_BITBLIT b (some c0) (some c1) = some b')
    (h0 : bm.Holds c0) (h1 : bm1.Holds c1) : b.Done c0 c1 bm bm1 mem (rowsOfBlit b' bm bm1 mem) := by
  obtain ⟨hw, hh, hx, hy, hmoves⟩ := clip_bitblit_some hclip
  obtain ⟨hs, hd⟩ := clip_inside hclip h0 h1
  obtain ⟨hcell, hframe⟩ := rowsOfBlit_moved mem hb hh hs hd
  have hmoved : ∀ i j, b.Moves c0 c1 i j →
      0 ≤ i - (b'.xs - b.xs) ∧ i - (b'.xs - b.xs) < b'.w ∧ 0 ≤ j - (b'.ys - b.ys) ∧ j - (b'.ys - b.ys) < b'.h := by
    intro i j hm
    apply (hmoves _ _).mp
    rwa [add_sub_cancel, add_sub_cancel]
  constructor
  · intro i j hm
    obtain ⟨h1, h2, h3, h4⟩ := hmoved i j hm
    have hc := hcell _ _ h1 h2 h3 h4
    rwa [show b'.xd + (i - (b'.xs - b.xs)) = b.xd + i by omega, show b'.yd + (j - (b'.ys - b.ys)) = b.yd + j by omega,
      show b'.xs + (i - (b'.xs - b.xs)) = b.xs + i by omega, show b'.ys + (j - (b'.ys - b.ys)) = b.ys + j by omega] at hc
  · intro a ha
    apply hframe
    intro i j h1 h2 h3 h4
    have hm := ha _ _ ((hmoves i j).mpr ⟨h1, h2, h3, h4⟩)
    rwa [show b.xd + (b'.xs - b.xs + i) = b'.xd + i by omega, show b.yd + (b'.ys - b.ys + j) = b'.yd + j by omega] at hm

theorem bitblk_done (hb : bm.Beside bm1) (h0 : bm.Holds c0) (h1 : bm1.Holds c1) (x0 y0 width height x1 y1 : Int)
    (mem : Memory) : ∃ mem', direct8_bitblk (some c0) (some c1) bm x0 y0 width height bm1 x1 y1 mem = some mem' ∧
      Blit.Done ⟨x0, y0, width, height, x1, y1⟩ c0 c1 bm bm1 mem mem' := by
  unfold direct8_bitblk
  cases hclip : CLIP_BITBLIT ⟨x0, y0, width, height, x1, y1⟩ (some c0) (some c1) with
  | none => exact ⟨mem, rfl, done_none (clip_bitblit_none hclip)⟩
  | some b =>
    obtain ⟨hw, hh, -⟩ := clip_bitblit_some hclip
    refine ⟨rowsOfBlit b bm bm1 mem, ?_, rowsOfBlit_done hb hclip h0 h1⟩
    simp only [if_neg (show ¬ (b.w < 0 ∨ b.h < 0) by omega), rowsOfBlit]
    split_ifs <;> rfl

theorem scroll_done (h0 : bm.Holds c0) (x0 y0 width height y1 : Int) (mem : Memory) :
    ∃ mem', direct8_scroll (some c0) bm x0 y0 width height y1 mem = some mem' ∧
      Blit.Done ⟨x0, y0, width, height, x0, y1⟩ c0 c0 bm bm mem mem' := by
  unfold direct8_scroll
  split_ifs with hy
  · subst hy
    exact ⟨mem, rfl, fun _ _ _ => rfl, fun _ _ => rfl⟩
  · cases hclip : CLIP_BITBLIT ⟨x0, y0, width, height, x0, y1⟩ (some c0) (some c0) with
    | none => exact ⟨mem, rfl, done_none (clip_bitblit_none hclip)⟩
    | some b =>
      obtain ⟨hw, hh, hx, -⟩ := clip_bitblit_some hclip
      have hx : b.xd = b.xs := by
        simp only at hx
        omega
      refine ⟨rowsOfBlit b bm bm mem, ?_, rowsOfBlit_done (.inl rfl) hclip h0 h0⟩
      simp only [if_neg (show ¬ (b.w < 0 ∨ b.h < 0) by omega), rowsOfBlit, hx]
      split_ifs <;> rfl

theorem direct8_copies (bm bm1 : BITMAP) (c0 c1 : Rec) (hb : bm.Beside bm1) (h0 : bm.Holds c0) (h1 : bm1.Holds c1)
    (x0 y0 width height x1 y1 : Int) (mem : Memory) :
    (∃ mem', direct8_bitblk (some c0) (some c1) bm x0 y0 width height bm1 x1 y1 mem = some mem' ∧
      Blit.Done ⟨x0, y0, width, height, x1, y1⟩ c0 c1 bm bm1 mem mem') ∧
    ∃ mem', direct8_scroll (some c0) bm x0 y0 width height y1 mem = some mem' ∧
      Blit.Done ⟨x0, y0, width, height, x0, y1⟩ c0 c0 bm bm mem mem' :=
  ⟨bitblk_done hb h0 h1 x0 y0 width height x1 y1 mem, scroll_done h0 x0 y0 width height y1 mem⟩

/-- An area that overlaps its own copy. -/
theorem direct8_copies_overlap :
    (∃ mem', direct8_bitblk (some (rect_create 0 0 8 8)) (some (rect_create 0 0 8 8)) ⟨0, 8, 8, 8, le_rfl⟩ 1 1 5 5
        ⟨0, 8, 8, 8, le_rfl⟩ 2 3 (fun a => BitVec.ofInt 8 a) = some mem' ∧
      Blit.Done ⟨1, 1, 5, 5, 2, 3⟩ (rect_create 0 0 8 8) (rect_create 0 0 8 8) ⟨0, 8, 8, 8, le_rfl⟩ ⟨0, 8, 8, 8, le_rfl⟩
        (fun a => BitVec.ofInt 8 a) mem') ∧
    ∃ mem', direct8_scroll (some (rect_create 0 0 8 8)) ⟨0, 8, 8, 8, le_rfl⟩ 1 1 5 5 3 (fun a => BitVec.ofInt 8 a) = some mem' ∧
      Blit.Done ⟨1, 1, 5, 5, 1, 3⟩ (rect_create 0 0 8 8) (rect_create 0 0 8 8) ⟨0, 8, 8, 8, le_rfl⟩ ⟨0, 8, 8, 8, le_rfl⟩
        (fun a => BitVec.ofInt 8 a) mem' :=
  direct8_copies _ _ _ _ (.inl rfl) ⟨by decide, by decide, by decide, by decide⟩ ⟨by decide, by decide, by decide, by decide⟩
    1 1 5 5 2 3 _

end WWindowSystem.Graph
