import WWindowSystem.Graph.Bitblk
import WWindowSystem.Graph.PackedLine

namespace WWindowSystem.Graph.Packed

open Set

/-- A bitmap whose shorts of one plane lie `planes` apart; `addr` is the address of the structure itself. -/
structure BITMAP where
  addr : Int
  data : Int
  upl : Int
  planes : Int
  width : Int
  height : Int
  planes_pos : 0 < planes
  fits : (width + 15) / 16 * planes ≤ upl

def BITMAP.pixel (bm : BITMAP) (x y : Int) : Int × Nat := cell (bm.data + y * bm.upl) bm.planes x

def lines (line : Int → Int → Memory → Memory) (supl dupl : Int) : Nat → Int → Int → Memory → Memory
  | 0, _, _, m => m
  | height + 1, sptr, dptr, m => lines line supl dupl height (sptr + supl) (dptr + dupl) (line sptr dptr m)

def bitblk_clipped (bm0 bm1 : BITMAP) : Blit → Memory → Memory
  | ⟨x0, y0, width, height, x1, y1⟩, m =>
    let down := y1 ≥ y0
    let y0 := if down then y0 + (height - 1) else y0
    let y1 := if down then y1 + (height - 1) else y1
    let supl := if y1 ≥ y0 then -bm0.upl else bm0.upl
    let dupl := if y1 ≥ y0 then -bm1.upl else bm1.upl
    if x1 > x0 ∧ y1 = y0 ∧ bm1.addr = bm0.addr ∧ x1 < x0 + width then
      -- one pixel behind the line
      let x0 := x0 + width
      let x1 := x1 + width
      lines (fun sptr dptr => bitline2left sptr (x0 % 16) bm0.planes dptr (x1 % 16) bm1.planes width) supl dupl height.toNat
        (bm0.data + y0 * bm0.upl + x0 / 16 * bm0.planes) (bm1.data + y1 * bm1.upl + x1 / 16 * bm1.planes) m
    else
      lines (fun sptr dptr => bitline2right sptr (x0 % 16) bm0.planes dptr (x1 % 16) bm1.planes width) supl dupl height.toNat
        (bm0.data + y0 * bm0.upl + x0 / 16 * bm0.planes) (bm1.data + y1 * bm1.upl + x1 / 16 * bm1.planes) m

def bitblk (glob_clip0 glob_clip1 : Option Rec) (bm0 : BITMAP) (x0 y0 width height : Int) (bm1 : BITMAP) (x1 y1 : Int)
    (m : Memory) : Memory :=
  if height ≤ 0 ∨ width ≤ 0 then m
  else
    match CLIP_BITBLIT ⟨x0, y0, width, height, x1, y1⟩ glob_clip0 glob_clip1 with
    | none => m
    | some b => bitblk_clipped bm0 bm1 b m

def BITMAP.Beside (bm bm1 : BITMAP) : Prop :=
  bm = bm1 ∨ bm.data + bm.height * bm.upl ≤ bm1.data ∨ bm1.data + bm1.height * bm1.upl ≤ bm.data

def BITMAP.Inside (bm : BITMAP) (x y w h : Int) : Prop :=
  0 ≤ x ∧ x + w ≤ bm.width ∧ 0 ≤ y ∧ y + h ≤ bm.height

def BITMAP.Holds (bm : BITMAP) (R : Rec) : Prop := 0 ≤ R.x0 ∧ R.x1 < bm.width ∧ 0 ≤ R.y0 ∧ R.y1 < bm.height

def Shown (clip0 clip1 : Option Rec) (b : Blit) : Set (Int × Int) :=
  {p | 0 ≤ p.1 ∧ p.1 < b.w ∧ 0 ≤ p.2 ∧ p.2 < b.h ∧
    ∀ c0 c1, clip0 = some c0 → clip1 = some c1 → Shows c0 (b.xs + p.1) (b.ys + p.2) ∧ Shows c1 (b.xd + p.1) (b.yd + p.2)}

def Bounded (clip0 clip1 : Option Rec) (bm0 bm1 : BITMAP) (b : Blit) : Prop :=
  (∀ c0 c1, clip0 = some c0 → clip1 = some c1 → bm0.Holds c0 ∧ bm1.Holds c1) ∧
    (clip0 = none ∨ clip1 = none → bm0.Inside b.xs b.ys b.w b.h ∧ bm1.Inside b.xd b.yd b.w b.h)

variable {bm bm1 : BITMAP} {b b' : Blit} {clip0 clip1 : Option Rec} {m : Memory}

theorem cell_column (ptr planes x i : Int) : cell (ptr + x / 16 * planes) planes (x % 16 + i) = cell ptr planes (x + i) := by
  simp only [cell, bitCell]
  rw [show (x + i) / ((16 : Nat) : Int) = x / 16 + (x % 16 + i) / ((16 : Nat) : Int) by omega,
    show (x + i) % ((16 : Nat) : Int) = (x % 16 + i) % ((16 : Nat) : Int) by omega, add_mul, add_assoc]

theorem BITMAP.at_column (bm : BITMAP) (x y : Int) :
    At (bm.data + y * bm.upl + x / 16 * bm.planes) bm.planes (x % 16) (fun i => bm.pixel (x + i) y) 0 := by
  intro i
  rw [cell_column, zero_add]
  rfl

theorem short_inside {x : Int} (hx : 0 ≤ x ∧ x < bm.width) : 0 ≤ x / 16 * bm.planes ∧ x / 16 * bm.planes < bm.upl := by
  have hp := bm.planes_pos
  have := mul_le_mul_of_nonneg_right (show x / 16 + 1 ≤ (bm.width + 15) / 16 by omega) hp.le
  rw [add_mul, one_mul] at this
  have := bm.fits
  exact ⟨mul_nonneg (by omega) hp.le, by omega⟩

theorem pixel_inj (hb : bm.Beside bm1) {x y x1 y1 : Int} (hx : 0 ≤ x ∧ x < bm.width) (hy : 0 ≤ y ∧ y < bm.height)
    (hx1 : 0 ≤ x1 ∧ x1 < bm1.width) (hy1 : 0 ≤ y1 ∧ y1 < bm1.height) (h : bm.pixel x y = bm1.pixel x1 y1) :
    bm = bm1 ∧ x = x1 ∧ y = y1 := by
  obtain ⟨hshort, hshort'⟩ := short_inside hx
  obtain ⟨hshort1, hshort1'⟩ := short_inside hx1
  simp only [BITMAP.pixel, cell, bitCell, Prod.mk.injEq] at h
  obtain ⟨hword, hbit⟩ := h
  have hc : ∀ z : Int, z / ((16 : Nat) : Int) = z / 16 := fun _ => rfl
  rw [hc, hc] at hword
  rcases hb with rfl | hb
  · have he : y * bm.upl + x / 16 * bm.planes = y1 * bm.upl + x1 / 16 * bm.planes := by omega
    obtain ⟨hy, hq⟩ := row_major hshort hshort' hshort1 hshort1' he
    have hq := mul_right_cancel₀ bm.planes_pos.ne' hq
    exact ⟨rfl, by omega, hy⟩
  · have hrow := mul_le_mul_of_nonneg_right (show y + 1 ≤ bm.height by omega) (show 0 ≤ bm.upl by omega)
    have hrow1 := mul_le_mul_of_nonneg_right (show y1 + 1 ≤ bm1.height by omega) (show 0 ≤ bm1.upl by omega)
    have h0 := mul_nonneg hy.1 (show 0 ≤ bm.upl by omega)
    have h1 := mul_nonneg hy1.1 (show 0 ≤ bm1.upl by omega)
    rw [add_mul, one_mul] at hrow hrow1
    omega

variable {line : Int → Int → Memory → Memory}

theorem lines_snapshot {src dst : Int × Int → Int × Nat} {w sptr dptr supl dupl : Int}
    {n : Nat} {row : Nat → Int}
    (hline : ∀ t : Nat, t < n → ∀ m, Snapshot (fun i => src (i, row t)) (fun i => dst (i, row t)) (Set.Ico 0 w) (bitOf m)
      (bitOf (line (sptr + t * supl) (dptr + t * dupl) m)))
    (hapart : ∀ t t' : Nat, t < t' → t' < n → ∀ i i', 0 ≤ i → i < w → 0 ≤ i' → i' < w →
      src (i', row t') ≠ dst (i, row t) ∧ dst (i', row t') ≠ dst (i, row t)) :
    Snapshot src dst {p | p.1 ∈ Set.Ico 0 w ∧ ∃ t < n, p.2 = row t} (bitOf m) (bitOf (lines line supl dupl n sptr dptr m)) := by
  induction n generalizing sptr dptr row m with
  | zero =>
    have : {p : Int × Int | p.1 ∈ Set.Ico 0 w ∧ ∃ t < 0, p.2 = row t} = ∅ := by
      ext p
      simp
    rw [this]
    exact .empty
  | succ n ih =>
    have hfirst := hline 0 (by omega) m
    simp only [Nat.cast_zero, zero_mul, add_zero] at hfirst
    have hrest := ih (m := line sptr dptr m) 
      (fun t ht m => by
        have := hline (t + 1) (by omega) m
        rwa [show sptr + ((t + 1 : Nat) : Int) * supl = sptr + supl + t * supl by push_cast; ring,
          show dptr + ((t + 1 : Nat) : Int) * dupl = dptr + dupl + t * dupl by push_cast; ring] at this)
      (fun t t' h h' => hapart (t + 1) (t' + 1) (by omega) (by omega))
    have hall : {p : Int × Int | p.1 ∈ Set.Ico 0 w ∧ ∃ t < n + 1, p.2 = row t} =
        (fun i => (i, row 0)) '' Set.Ico 0 w ∪ {p | p.1 ∈ Set.Ico 0 w ∧ ∃ t < n, p.2 = row (t + 1)} := by
      ext ⟨i, j⟩
      simp only [mem_setOf_eq, mem_union, mem_image, Prod.mk.injEq]
      constructor
      · rintro ⟨hi, t, ht, rfl⟩
        cases t with
        | zero => exact .inl ⟨i, hi, rfl, rfl⟩
        | succ t => exact .inr ⟨hi, t, by omega, rfl⟩
      · rintro (⟨_, hi, rfl, rfl⟩ | ⟨hi, t, ht, rfl⟩)
        · exact ⟨hi, 0, by omega, rfl⟩
        · exact ⟨hi, t + 1, by omega, rfl⟩
    rw [hall]
    apply Snapshot.union (Snapshot.image hfirst) hrest
    rintro _ ⟨i, ⟨hi, hi'⟩, rfl⟩ ⟨i', _⟩ ⟨⟨hk, hk'⟩, t, ht, rfl⟩
    exact hapart 0 (t + 1) (by omega) (by omega) i i' hi hi' hk hk'

theorem right_line (hw : 1 ≤ b.w) (y y1 : Int)
    (hr : ∀ i k, 0 ≤ i → i < k → k < b.w → bm.pixel (b.xs + k) y ≠ bm1.pixel (b.xd + i) y1) (m : Memory) :
    Snapshot (fun i => bm.pixel (b.xs + i) y) (fun i => bm1.pixel (b.xd + i) y1) (Set.Ico 0 b.w) (bitOf m)
      (bitOf (bitline2right (bm.data + y * bm.upl + b.xs / 16 * bm.planes) (b.xs % 16) bm.planes
        (bm1.data + y1 * bm1.upl + b.xd / 16 * bm1.planes) (b.xd % 16) bm1.planes b.w m)) := by
  have := bitline2right_snapshot (m := m) (show 0 ≤ b.xs % 16 by omega) (by omega) (show 0 ≤ b.xd % 16 by omega) (by omega)
    bm1.planes_pos.ne' hw (bm.at_column b.xs y) (bm1.at_column b.xd y1) (by rw [zero_add]; exact hr)
  rwa [zero_add] at this

theorem left_line (hw : 1 ≤ b.w) (y y1 : Int)
    (hr : ∀ i k, 0 ≤ i → i < k → k < b.w → bm.pixel (b.xs + i) y ≠ bm1.pixel (b.xd + k) y1) (m : Memory) :
    Snapshot (fun i => bm.pixel (b.xs + i) y) (fun i => bm1.pixel (b.xd + i) y1) (Set.Ico 0 b.w) (bitOf m)
      (bitOf (bitline2left (bm.data + y * bm.upl + (b.xs + b.w) / 16 * bm.planes) ((b.xs + b.w) % 16) bm.planes
        (bm1.data + y1 * bm1.upl + (b.xd + b.w) / 16 * bm1.planes) ((b.xd + b.w) % 16) bm1.planes b.w m)) := by
  have hs : At (bm.data + y * bm.upl + (b.xs + b.w) / 16 * bm.planes) bm.planes ((b.xs + b.w) % 16)
      (fun i => bm.pixel (b.xs + i) y) b.w := by
    intro i
    rw [bm.at_column, zero_add]
    simp only [add_assoc]
  have hd : At (bm1.data + y1 * bm1.upl + (b.xd + b.w) / 16 * bm1.planes) bm1.planes ((b.xd + b.w) % 16)
      (fun i => bm1.pixel (b.xd + i) y1) b.w := by
    intro i
    rw [bm1.at_column, zero_add]
    simp only [add_assoc]
  have := bitline2left_snapshot (m := m) (by omega) (by omega) (by omega) (by omega) bm1.planes_pos.ne' hw hs hd
    (by rw [sub_self]; exact hr)
  rwa [sub_self] at this

def Area (w h : Int) : Set (Int × Int) := {p | 0 ≤ p.1 ∧ p.1 < w ∧ 0 ≤ p.2 ∧ p.2 < h}

theorem area_snapshot (hb : bm.Beside bm1) (hh : 0 < b.h)
    (hs : bm.Inside b.xs b.ys b.w b.h) (hd : bm1.Inside b.xd b.yd b.w b.h) {sx dx : Int}
    (hline : ∀ j m, 0 ≤ j → j < b.h → Snapshot (fun i => bm.pixel (b.xs + i) (b.ys + j)) (fun i => bm1.pixel (b.xd + i) (b.yd + j))
      (Set.Ico 0 b.w) (bitOf m) (bitOf (line (bm.data + (b.ys + j) * bm.upl + sx) (bm1.data + (b.yd + j) * bm1.upl + dx) m))) :
    Snapshot (fun p => bm.pixel (b.xs + p.1) (b.ys + p.2)) (fun p => bm1.pixel (b.xd + p.1) (b.yd + p.2)) (Area b.w b.h) (bitOf m)
      (bitOf (lines line (if b.yd ≥ b.ys then -bm.upl else bm.upl) (if b.yd ≥ b.ys then -bm1.upl else bm1.upl) b.h.toNat
        (bm.data + (if b.yd ≥ b.ys then b.ys + (b.h - 1) else b.ys) * bm.upl + sx)
        (bm1.data + (if b.yd ≥ b.ys then b.yd + (b.h - 1) else b.yd) * bm1.upl + dx) m)) := by
  have hall : ∀ row : Nat → Int, (∀ j, 0 ≤ j ∧ j < b.h ↔ ∃ t < b.h.toNat, j = row t) →
      Area b.w b.h = {p | p.1 ∈ Set.Ico 0 b.w ∧ ∃ t < b.h.toNat, p.2 = row t} := by
    intro row hrow
    ext p
    simp only [Area, mem_setOf_eq, mem_Ico, ← hrow]
    tauto
  have hapart : ∀ j j' i i', 0 ≤ j → j < b.h → 0 ≤ j' → j' < b.h → j ≠ j' → b.ys + j' ≠ b.yd + j → 0 ≤ i → i < b.w → 0 ≤ i' →
      i' < b.w → bm.pixel (b.xs + i') (b.ys + j') ≠ bm1.pixel (b.xd + i) (b.yd + j) ∧
        bm1.pixel (b.xd + i') (b.yd + j') ≠ bm1.pixel (b.xd + i) (b.yd + j) := by
    intro j j' i i' hj hjh hj' hjh' hne hsd hi hiw hi' hiw'
    obtain ⟨hs1, hs2, hs3, hs4⟩ := hs
    obtain ⟨hd1, hd2, hd3, hd4⟩ := hd
    constructor
    · intro he
      obtain ⟨-, -, hy⟩ := pixel_inj hb ⟨by omega, by omega⟩ ⟨by omega, by omega⟩ ⟨by omega, by omega⟩ ⟨by omega, by omega⟩ he
      exact hsd hy
    · intro he
      obtain ⟨-, -, hy⟩ := pixel_inj (.inl rfl) ⟨by omega, by omega⟩ ⟨by omega, by omega⟩ ⟨by omega, by omega⟩
        ⟨by omega, by omega⟩ he
      omega
  split_ifs with hup
  · rw [hall (fun t => b.h - 1 - t) (fun j => ⟨fun hj => ⟨(b.h - 1 - j).toNat, by omega, by omega⟩, by omega⟩)]
    apply lines_snapshot
    · intro t ht m
      have := hline (b.h - 1 - t) m (by omega) (by omega)
      rwa [show bm.data + (b.ys + (b.h - 1 - t)) * bm.upl + sx = bm.data + (b.ys + (b.h - 1)) * bm.upl + sx + t * -bm.upl by ring,
        show bm1.data + (b.yd + (b.h - 1 - t)) * bm1.upl + dx = bm1.data + (b.yd + (b.h - 1)) * bm1.upl + dx + t * -bm1.upl by ring]
        at this
    · intro t t' ht ht' i i' hi hiw hi' hiw'
      exact hapart (b.h - 1 - t) (b.h - 1 - t') i i' (by omega) (by omega) (by omega) (by omega) (by omega) (by omega) hi hiw hi' hiw'
  · rw [hall (fun t => t) (fun j => ⟨fun hj => ⟨j.toNat, by omega, by omega⟩, by omega⟩)]
    apply lines_snapshot
    · intro t ht m
      have := hline t m (by omega) (by omega)
      rwa [show bm.data + (b.ys + t) * bm.upl + sx = bm.data + b.ys * bm.upl + sx + t * bm.upl by ring,
        show bm1.data + (b.yd + t) * bm1.upl + dx = bm1.data + b.yd * bm1.upl + dx + t * bm1.upl by ring] at this
    · intro t t' ht ht' i i' hi hiw hi' hiw'
      exact hapart t t' i i' (by omega) (by omega) (by omega) (by omega) (by omega) (by omega) hi hiw hi' hiw'

theorem bitblk_clipped_snapshot (hb : bm.Beside bm1) (hw : 0 < b.w) (hh : 0 < b.h) (hs : bm.Inside b.xs b.ys b.w b.h)
    (hd : bm1.Inside b.xd b.yd b.w b.h) :
    Snapshot (fun p => bm.pixel (b.xs + p.1) (b.ys + p.2)) (fun p => bm1.pixel (b.xd + p.1) (b.yd + p.2)) (Area b.w b.h) (bitOf m)
      (bitOf (bitblk_clipped bm bm1 b m)) := by
  have hsame : ∀ {j i k}, 0 ≤ j → j < b.h → 0 ≤ i → i < b.w → 0 ≤ k → k < b.w →
      bm.pixel (b.xs + i) (b.ys + j) = bm1.pixel (b.xd + k) (b.yd + j) → bm = bm1 ∧ b.xs + i = b.xd + k ∧ b.ys = b.yd := by
    intro j i k hj hjh hi hiw hk hkw he
    obtain ⟨hs1, hs2, hs3, hs4⟩ := hs
    obtain ⟨hd1, hd2, hd3, hd4⟩ := hd
    obtain ⟨h1, h2, h3⟩ := pixel_inj hb ⟨by omega, by omega⟩ ⟨by omega, by omega⟩ ⟨by omega, by omega⟩ ⟨by omega, by omega⟩ he
    exact ⟨h1, h2, by omega⟩
  have hdown : (if b.yd ≥ b.ys then b.yd + (b.h - 1) else b.yd) ≥ (if b.yd ≥ b.ys then b.ys + (b.h - 1) else b.ys) ↔ b.yd ≥ b.ys := by
    split_ifs <;> omega
  have hlevel : (if b.yd ≥ b.ys then b.yd + (b.h - 1) else b.yd) = (if b.yd ≥ b.ys then b.ys + (b.h - 1) else b.ys) ↔ b.yd = b.ys := by
    split_ifs <;> omega
  simp only [bitblk_clipped, hdown, hlevel]
  by_cases hleft : b.xd > b.xs ∧ b.yd = b.ys ∧ bm1.addr = bm.addr ∧ b.xd < b.xs + b.w
  · rw [if_pos hleft]
    apply area_snapshot hb hh hs hd
    intro j m hj hjh
    apply left_line (by omega)
    intro i k hi hik hk he
    have := hsame hj hjh hi (by omega) (by omega) hk he
    omega
  · rw [if_neg hleft]
    apply area_snapshot hb hh hs hd
    intro j m hj hjh
    apply right_line (by omega)
    intro i k hi hik hk he
    obtain ⟨rfl, hx, hy⟩ := hsame hj hjh (by omega) hk hi (by omega) he
    exact hleft ⟨by omega, hy.symm, rfl, by omega⟩

theorem shown_unclipped (h : clip0 = none ∨ clip1 = none) : Shown clip0 clip1 b = Area b.w b.h := by
  ext p
  simp only [Shown, Area, mem_setOf_eq]
  constructor
  · rintro ⟨h1, h2, h3, h4, -⟩
    exact ⟨h1, h2, h3, h4⟩
  · rintro ⟨h1, h2, h3, h4⟩
    refine ⟨h1, h2, h3, h4, ?_⟩
    rintro c0 c1 rfl rfl
    rcases h with h | h <;> cases h

theorem shown_clipped {c0 c1 : Rec} : Shown (some c0) (some c1) b = {p | b.Moves c0 c1 p.1 p.2} := by
  ext p
  simp only [Shown, Blit.Moves, mem_setOf_eq]
  constructor
  · rintro ⟨h1, h2, h3, h4, h5⟩
    exact ⟨h1, h2, h3, h4, h5 c0 c1 rfl rfl⟩
  · rintro ⟨h1, h2, h3, h4, h5⟩
    refine ⟨h1, h2, h3, h4, ?_⟩
    rintro _ _ ⟨⟩ ⟨⟩
    exact h5

theorem Holds.inside {c0 c1 : Rec} (hclip : CLIP_BITBLIT b (some c0) (some c1) = some b') (h0 : bm.Holds c0) (h1 : bm1.Holds c1) :
    bm.Inside b'.xs b'.ys b'.w b'.h ∧ bm1.Inside b'.xd b'.yd b'.w b'.h := by
  obtain ⟨hw, hh, hx, hy, hmoves⟩ := clip_bitblit_some hclip
  have hfirst := (hmoves 0 0).mpr ⟨le_rfl, hw, le_rfl, hh⟩
  have hlast := (hmoves (b'.w - 1) (b'.h - 1)).mpr (by omega)
  unfold Blit.Moves Shows at hfirst hlast
  unfold BITMAP.Holds at h0 h1
  unfold BITMAP.Inside
  omega

theorem bitblk_snapshot (hb : bm.Beside bm1) (x0 y0 width height x1 y1 : Int)
    (hbound : Bounded clip0 clip1 bm bm1 ⟨x0, y0, width, height, x1, y1⟩) (m : Memory) :
    Snapshot (fun p => bm.pixel (x0 + p.1) (y0 + p.2)) (fun p => bm1.pixel (x1 + p.1) (y1 + p.2))
      (Shown clip0 clip1 ⟨x0, y0, width, height, x1, y1⟩) (bitOf m) (bitOf (bitblk clip0 clip1 bm x0 y0 width height bm1 x1 y1 m)) := by
  have hnone : (∀ p, p ∉ Shown clip0 clip1 ⟨x0, y0, width, height, x1, y1⟩) →
      Snapshot (fun p => bm.pixel (x0 + p.1) (y0 + p.2)) (fun p => bm1.pixel (x1 + p.1) (y1 + p.2))
        (Shown clip0 clip1 ⟨x0, y0, width, height, x1, y1⟩) (bitOf m) (bitOf m) := by
    intro h
    rw [eq_empty_of_forall_notMem h]
    exact .empty
  unfold bitblk
  split_ifs with hempty
  · apply hnone
    rintro p ⟨h1, h2, h3, h4, -⟩
    simp only at h2 h4
    omega
  by_cases hclip : clip0 = none ∨ clip1 = none
  · have he : CLIP_BITBLIT ⟨x0, y0, width, height, x1, y1⟩ clip0 clip1 = some ⟨x0, y0, width, height, x1, y1⟩ := by
      unfold CLIP_BITBLIT
      rw [if_pos (by rcases hclip with rfl | rfl <;> simp)]
    obtain ⟨hs, hd⟩ := hbound.2 hclip
    rw [he, shown_unclipped hclip]
    exact bitblk_clipped_snapshot hb (show 0 < width by omega) (show 0 < height by omega) hs hd
  · obtain ⟨c0, rfl⟩ := Option.ne_none_iff_exists'.mp fun h => hclip (.inl h)
    obtain ⟨c1, rfl⟩ := Option.ne_none_iff_exists'.mp fun h => hclip (.inr h)
    cases he : CLIP_BITBLIT ⟨x0, y0, width, height, x1, y1⟩ (some c0) (some c1) with
    | none =>
      apply hnone
      rw [shown_clipped]
      exact fun p => clip_bitblit_none he p.1 p.2
    | some b =>
      obtain ⟨h0, h1⟩ := hbound.1 c0 c1 rfl rfl
      obtain ⟨hw, hh, hx, hy, hmoves⟩ := clip_bitblit_some he
      obtain ⟨hs, hd⟩ := Holds.inside he h0 h1
      have hcopy := bitblk_clipped_snapshot (m := m) hb hw hh hs hd
      simp only at hx hy hmoves ⊢
      -- the pixels of the clipped area are those that move, counted from the corner of the whole one
      have hshift : Shown (some c0) (some c1) ⟨x0, y0, width, height, x1, y1⟩ =
          (fun p : Int × Int => (b.xs - x0 + p.1, b.ys - y0 + p.2)) '' Area b.w b.h := by
        rw [shown_clipped]
        ext ⟨i, j⟩
        simp only [mem_setOf_eq, mem_image, Prod.mk.injEq, Area]
        constructor
        · intro hm
          refine ⟨(i - (b.xs - x0), j - (b.ys - y0)), ?_, by simp only; omega, by simp only; omega⟩
          apply (hmoves _ _).mp
          rwa [add_sub_cancel, add_sub_cancel]
        · rintro ⟨⟨i', j'⟩, hp, rfl, rfl⟩
          exact (hmoves i' j').mpr hp
      rw [hshift]
      apply Snapshot.image
      apply hcopy.of_eq
      · rintro p -
        simp only [Function.comp]
        congr 1 <;> omega
      · rintro p -
        simp only [Function.comp]
        congr 1 <;> omega

structure LinePair where
  sptr : Int
  sbit : Int
  splanes : Int
  dptr : Int
  dbit : Int
  dplanes : Int
  width : Int

def LinePair.Valid (l : LinePair) : Prop :=
  0 ≤ l.sbit ∧ l.sbit < 16 ∧ 0 ≤ l.dbit ∧ l.dbit < 16 ∧ 0 < l.splanes ∧ 0 < l.dplanes ∧ 1 ≤ l.width

def LinePair.src (l : LinePair) (i : Int) : Int × Nat := cell l.sptr l.splanes (l.sbit + i)

def LinePair.dst (l : LinePair) (i : Int) : Int × Nat := cell l.dptr l.dplanes (l.dbit + i)

/-- No short belongs to both lines, whose first pixels are `first` columns right of the pointers. -/
def LinePair.Disjoint (l : LinePair) (first : Int) : Prop :=
  ∀ i k, 0 ≤ i → i < l.width → 0 ≤ k → k < l.width → (l.src (first + i)).1 ≠ (l.dst (first + k)).1

def LinePair.Columns (l : LinePair) (x0 x1 : Int) : Prop :=
  l.splanes = l.dplanes ∧ ∃ ptr, l.sptr = ptr + x0 / 16 * l.dplanes ∧ l.sbit = x0 % 16 ∧
    l.dptr = ptr + x1 / 16 * l.dplanes ∧ l.dbit = x1 % 16

def LinePair.GoesRight (l : LinePair) : Prop :=
  l.Disjoint 0 ∨ ∃ x0 x1, l.Columns x0 x1 ∧ (x1 ≤ x0 ∨ x0 + l.width ≤ x1)

def LinePair.GoesLeft (l : LinePair) : Prop :=
  l.Disjoint (-l.width) ∨ ∃ x0 x1, l.Columns x0 x1 ∧ x0 < x1 ∧ x1 < x0 + l.width

variable {l : LinePair}

theorem LinePair.Columns.cells {x0 x1 : Int} (h : l.Columns x0 x1) :
    ∃ ptr, ∀ i, l.src i = cell ptr l.dplanes (x0 + i) ∧ l.dst i = cell ptr l.dplanes (x1 + i) := by
  obtain ⟨hp, ptr, h1, h2, h3, h4⟩ := h
  refine ⟨ptr, fun i => ?_⟩
  unfold src dst
  rw [h1, h2, h3, h4, hp, cell_column, cell_column]
  exact ⟨rfl, rfl⟩

theorem bitline2right_copies (hv : l.Valid) (h : l.GoesRight) (m : Memory) :
    Snapshot l.src l.dst (Set.Ico 0 l.width) (bitOf m)
      (bitOf (bitline2right l.sptr l.sbit l.splanes l.dptr l.dbit l.dplanes l.width m)) := by
  obtain ⟨hs, hs', hd, hd', -, hp, hw⟩ := hv
  have hr : ReadsAhead l.src l.dst 0 (0 + l.width) := by
    intro i k hi hik hk he
    rcases h with h | ⟨x0, x1, hcol, hx⟩
    · have := h k i (by omega) (by omega) hi (by omega)
      rw [zero_add, zero_add, he] at this
      exact this rfl
    · obtain ⟨ptr, hcells⟩ := hcol.cells
      rw [(hcells k).1, (hcells i).2] at he
      have := bitCell_inj (by decide) hp.ne' he
      omega
  have := bitline2right_snapshot (m := m) hs hs' hd hd' hp.ne' hw (fun i => by rw [zero_add]; rfl) (fun i => by rw [zero_add]; rfl) hr
  rwa [zero_add] at this

theorem bitline2left_copies (hv : l.Valid) (h : l.GoesLeft) (m : Memory) :
    Snapshot l.src l.dst (Set.Ico (-l.width) 0) (bitOf m)
      (bitOf (bitline2left l.sptr l.sbit l.splanes l.dptr l.dbit l.dplanes l.width m)) := by
  obtain ⟨hs, hs', hd, hd', -, hp, hw⟩ := hv
  have hr : ReadsBehind l.src l.dst (0 - l.width) 0 := by
    intro i k hi hik hk he
    rcases h with h | ⟨x0, x1, hcol, hx⟩
    · have := h (i + l.width) (k + l.width) (by omega) (by omega) (by omega) (by omega)
      rw [show -l.width + (i + l.width) = i by omega, show -l.width + (k + l.width) = k by omega, he] at this
      exact this rfl
    · obtain ⟨ptr, hcells⟩ := hcol.cells
      rw [(hcells i).1, (hcells k).2] at he
      have := bitCell_inj (by decide) hp.ne' he
      omega
  have := bitline2left_snapshot (m := m) hs hs' hd hd' hp.ne' hw (fun i => by rw [zero_add]; rfl) (fun i => by rw [zero_add]; rfl) hr
  rwa [zero_sub] at this

theorem packed_copies (l r : LinePair) (hr : r.Valid) (hright : r.GoesRight) (hl : l.Valid) (hleft : l.GoesLeft) (bm bm1 : BITMAP)
    (hb : bm.Beside bm1) (clip0 clip1 : Option Rec) (x0 y0 width height x1 y1 : Int)
    (hbound : Bounded clip0 clip1 bm bm1 ⟨x0, y0, width, height, x1, y1⟩) (m : Memory) :
    Snapshot r.src r.dst (Set.Ico 0 r.width) (bitOf m)
        (bitOf (bitline2right r.sptr r.sbit r.splanes r.dptr r.dbit r.dplanes r.width m)) ∧
      Snapshot l.src l.dst (Set.Ico (-l.width) 0) (bitOf m)
        (bitOf (bitline2left l.sptr l.sbit l.splanes l.dptr l.dbit l.dplanes l.width m)) ∧
      Snapshot (fun p => bm.pixel (x0 + p.1) (y0 + p.2)) (fun p => bm1.pixel (x1 + p.1) (y1 + p.2))
        (Shown clip0 clip1 ⟨x0, y0, width, height, x1, y1⟩) (bitOf m)
        (bitOf (bitblk clip0 clip1 bm x0 y0 width height bm1 x1 y1 m)) :=
  ⟨bitline2right_copies hr hright m, bitline2left_copies hl hleft m, bitblk_snapshot hb x0 y0 width height x1 y1 hbound m⟩

def screenBitmap : BITMAP := ⟨100, 0, 16, 4, 64, 8, by decide, by decide⟩

/-- A line that overlaps itself in both directions, and an area that moves five pixels to the right. -/
theorem packed_copies_overlap :
    Snapshot (LinePair.mk 0 13 4 0 2 4 40).src (LinePair.mk 0 13 4 0 2 4 40).dst (Set.Ico 0 40) (bitOf fun a => BitVec.ofInt 16 (a * 77))
        (bitOf (bitline2right 0 13 4 0 2 4 40 fun a => BitVec.ofInt 16 (a * 77))) ∧
      Snapshot (LinePair.mk 8 13 4 12 2 4 40).src (LinePair.mk 8 13 4 12 2 4 40).dst (Set.Ico (-40) 0)
        (bitOf fun a => BitVec.ofInt 16 (a * 77)) (bitOf (bitline2left 8 13 4 12 2 4 40 fun a => BitVec.ofInt 16 (a * 77))) ∧
      Snapshot (fun p => screenBitmap.pixel (7 + p.1) (1 + p.2)) (fun p => screenBitmap.pixel (12 + p.1) (1 + p.2))
        (Shown none none ⟨7, 1, 45, 5, 12, 1⟩) (bitOf fun a => BitVec.ofInt 16 (a * 77))
        (bitOf (bitblk none none screenBitmap 7 1 45 5 screenBitmap 12 1 fun a => BitVec.ofInt 16 (a * 77))) :=
  packed_copies ⟨8, 13, 4, 12, 2, 4, 40⟩ ⟨0, 13, 4, 0, 2, 4, 40⟩ (by unfold LinePair.Valid; decide)
    (.inr ⟨13, 2, ⟨rfl, 0, rfl, rfl, rfl, rfl⟩, .inl (by decide)⟩) (by unfold LinePair.Valid; decide)
    (.inr ⟨45, 50, ⟨rfl, 0, rfl, rfl, rfl, rfl⟩, by decide, by decide⟩) screenBitmap screenBitmap (.inl rfl) none none 7 1 45 5 12 1
    ⟨fun _ _ h => (Option.some_ne_none _ h.symm).elim, fun _ => ⟨by unfold BITMAP.Inside; decide, by unfold BITMAP.Inside; decide⟩⟩ _

end WWindowSystem.Graph.Packed
