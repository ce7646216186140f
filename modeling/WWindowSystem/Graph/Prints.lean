import WWindowSystem.Graph.Glyphs
import WWindowSystem.Graph.Line

namespace WWindowSystem.Graph.Text

open List

structure Printed where
  pixels : List Pixel
  underline : Option (DrawMode × Int × Int × Int)

def FONT.text_width (f : FONT) : List Byte → Int
  | [] => 0
  | c :: s => f.width c + f.text_width s

def chars (f : FONT) (draw : Int → Byte → List Pixel) : Int → List Byte → List Pixel
  | _, [] => []
  | x0, c :: s => draw x0 c ++ chars f draw (x0 + f.width c) s

/-- The row and the height of what is left, and how many rows above it are cut; `none` when there is nothing left. -/
def clip_vertical (cl : Rec) (y0 height : Int) : Option (Int × Int × Int) :=
  if y0 < cl.y0 ∨ y0 + height - 1 > cl.y1 then
    if y0 > cl.y1 ∨ y0 + height ≤ cl.y0 then none
    else
      let yoff := if cl.y0 - y0 < 0 ∨ cl.y0 - y0 ≥ height then 0 else cl.y0 - y0
      let wd := cl.y1 - y0
      let height := if wd ≥ 0 ∧ wd < height then wd else height
      some (y0 + yoff, height - yoff, yoff)
  else some (y0, height, 0)

def clip_end (gc : GC) (cl : Rec) (y0 yoff height slant : Int) : List Byte → Int → List Pixel × List Byte
  | [], _ => ([], [])
  | c :: rest, wd =>
    let wd := wd + gc.font.width c
    if wd + slant ≥ 0 then
      let cut := clipc gc (cl.x1 - wd) y0 0 yoff (wd - gc.font.width c) wd height c
      if wd ≥ 0 then (cut, rest)
      else
        let next := clip_end gc cl y0 yoff height slant rest wd
        (cut ++ next.1, next.2)
    else clip_end gc cl y0 yoff height slant rest wd

def clip_start (gc : GC) (cl : Rec) (y0 yoff height slant : Int) : List Byte → Int → Int → List Pixel × List Byte × Int
  | [], _, x0 => ([], [], x0)
  | c :: s, wd, x0 =>
    let cw := gc.font.width c
    let wd := wd + cw
    if wd ≥ 0 then
      let cut :=
        if wd > cw then clipc gc (cl.x0 + (wd - cw)) y0 0 yoff (wd - cw) cw height c
        else clipc gc cl.x0 y0 (cw - wd) yoff 1 wd height c
      if wd - slant ≥ 0 then (cut, s, cl.x0 + wd)
      else
        let next := clip_start gc cl y0 yoff height slant s wd x0
        (cut ++ next.1, next.2)
    else clip_start gc cl y0 yoff height slant s wd x0

def print_rest (gc : GC) (y0 yoff height x0 : Int) (s : List Byte) : List Pixel :=
  if height ≠ gc.font.height then chars gc.font (fun x c => clipc gc x y0 0 yoff 0 (gc.font.width c) height c) x0 s
  else chars gc.font (fun x c => stylec gc x y0 c) x0 s

def print_start (gc : GC) (cl : Rec) (y0 yoff height slant x0 : Int) (s : List Byte) : List Pixel :=
  let start := if x0 - cl.x0 - slant < 0 then clip_start gc cl y0 yoff height slant s (x0 - cl.x0) x0 else ([], s, x0)
  start.1 ++ print_rest gc y0 yoff height start.2.2 start.2.1

def underline (gc : GC) (ul_x y0 width height : Int) : Option (DrawMode × Int × Int × Int) :=
  if has gc.textstyle F_UNDERLINE then
    let y0 := if gc.font.baseline + 2 < height then y0 + (gc.font.baseline + 2) else y0 + (height - 1)
    some (if has (gc.textstyle ||| gc.font.styles) F_REVERSE then .M_CLEAR else .M_DRAW, y0, ul_x, ul_x + width - 1)
  else none

def prints (glob_clip0 : Option Rec) (gc : GC) (x0 y0 : Int) (s : List Byte) : Printed :=
  let width := gc.font.text_width s
  let slant := if has gc.textstyle F_ITALIC then gc.font.slant_size else 0
  let x := if has gc.textstyle F_ITALIC then x0 - gc.font.slant_offset + slant else x0
  match glob_clip0 with
  | none => ⟨chars gc.font (fun x c => stylec gc x y0 c) x s, underline gc x0 y0 width gc.font.height⟩
  | some cl =>
    match clip_vertical cl y0 gc.font.height with
    | none => ⟨[], none⟩
    | some (y0, height, yoff) =>
      let wd := cl.x1 - (x + width)
      let last := if wd < 0 then clip_end gc cl y0 yoff height slant s.reverse wd else ([], s.reverse)
      ⟨last.1 ++ print_start gc cl y0 yoff height slant x last.2.reverse, underline gc x0 y0 width height⟩

def OfChar (f : FONT) (P : Int → Byte → Prop) (x : Int) (s : List Byte) : Prop :=
  ∃ pre c post, s = pre ++ c :: post ∧ P (x + f.text_width pre) c

variable {f : FONT} {gc : GC} {cl : Rec} {P : Int → Byte → Prop} {p : Pixel} {c : Byte} {s : List Byte}
  {x x0 y0 yoff height : Int}

@[simp] theorem text_width_nil (f : FONT) : f.text_width [] = 0 := rfl

@[simp] theorem text_width_cons (f : FONT) (c : Byte) (s : List Byte) : f.text_width (c :: s) = f.width c + f.text_width s := rfl

@[simp] theorem text_width_append (f : FONT) (s t : List Byte) : f.text_width (s ++ t) = f.text_width s + f.text_width t := by
  induction s with
  | nil => simp
  | cons c s ih => simp [ih, add_assoc]

theorem text_width_nonneg (f : FONT) (s : List Byte) : 0 ≤ f.text_width s := by
  induction s with
  | nil => exact le_rfl
  | cons c s ih => exact add_nonneg (f.width_nonneg c) ih

theorem text_width_reverse (f : FONT) (s : List Byte) : f.text_width s.reverse = f.text_width s := by
  induction s with
  | nil => rfl
  | cons c s ih =>
    rw [reverse_cons, text_width_append, ih]
    simp [add_comm]

theorem ofChar_nil : ¬ OfChar f P x [] := by
  rintro ⟨pre, c, post, h, -⟩
  simp at h

theorem ofChar_cons : OfChar f P x (c :: s) ↔ P x c ∨ OfChar f P (x + f.width c) s := by
  constructor
  · rintro ⟨_ | ⟨d, pre⟩, e, post, h, hP⟩
    · obtain ⟨rfl, rfl⟩ := List.cons.inj h
      left
      rwa [text_width_nil, add_zero] at hP
    · obtain ⟨rfl, rfl⟩ := List.cons.inj h
      right
      refine ⟨pre, e, post, rfl, ?_⟩
      rwa [text_width_cons, ← add_assoc] at hP
  · rintro (hP | ⟨pre, e, post, rfl, hP⟩)
    · exact ⟨[], c, s, rfl, by rwa [text_width_nil, add_zero]⟩
    · exact ⟨c :: pre, e, post, rfl, by rwa [text_width_cons, ← add_assoc]⟩

theorem chars_mem (draw : Int → Byte → List Pixel) : p ∈ chars f draw x s ↔ OfChar f (fun x c => p ∈ draw x c) x s := by
  induction s generalizing x with
  | nil => simp [chars, ofChar_nil]
  | cons c s ih => rw [chars, mem_append, ih, ofChar_cons]

theorem OfChar.congr {Q : Int → Byte → Prop} (h : ∀ x' c, x ≤ x' → (P x' c ↔ Q x' c)) : OfChar f P x s ↔ OfChar f Q x s := by
  have hx : ∀ pre, x ≤ x + f.text_width pre := fun pre => by
    have := text_width_nonneg f pre
    omega
  constructor
  · rintro ⟨pre, c, post, rfl, hP⟩
    exact ⟨pre, c, post, rfl, (h _ _ (hx pre)).mp hP⟩
  · rintro ⟨pre, c, post, rfl, hP⟩
    exact ⟨pre, c, post, rfl, (h _ _ (hx pre)).mpr hP⟩

theorem ofChar_column {t : Int} (h0 : x ≤ t) (h1 : t < x + f.text_width s) :
    OfChar f (fun x c => x ≤ t ∧ t < x + f.width c) x s := by
  induction s generalizing x with
  | nil =>
    rw [text_width_nil] at h1
    omega
  | cons c s ih =>
    rw [ofChar_cons]
    rw [text_width_cons] at h1
    by_cases ht : t < x + f.width c
    · exact .inl ⟨h0, ht⟩
    · exact .inr (ih (by omega) (by omega))

theorem split_unique {pre pre' post post' : List Byte} {c c' : Byte} {t : Int} (h : pre ++ c :: post = pre' ++ c' :: post')
    (h0 : f.text_width pre ≤ t ∧ t < f.text_width pre + f.width c)
    (h1 : f.text_width pre' ≤ t ∧ t < f.text_width pre' + f.width c') : pre = pre' ∧ c = c' := by
  induction pre generalizing pre' t with
  | nil =>
    cases pre' with
    | nil => exact ⟨rfl, (List.cons.inj h).1⟩
    | cons d pre' =>
      obtain ⟨rfl, -⟩ := List.cons.inj h
      have := text_width_nonneg f pre'
      simp only [text_width_nil, text_width_cons] at h0 h1
      omega
  | cons d pre ih =>
    cases pre' with
    | nil =>
      obtain ⟨rfl, -⟩ := List.cons.inj h
      have := text_width_nonneg f pre
      simp only [text_width_nil, text_width_cons] at h0 h1
      omega
    | cons d' pre' =>
      obtain ⟨rfl, htail⟩ := List.cons.inj h
      simp only [text_width_cons] at h0 h1
      obtain ⟨rfl, rfl⟩ := ih (t := t - f.width d) htail ⟨by omega, by omega⟩ ⟨by omega, by omega⟩
      exact ⟨rfl, rfl⟩

def Drawn (gc : GC) (cl : Rec) (y0 yoff height : Int) (p : Pixel) (x : Int) (c : Byte) : Prop :=
  ∃ i r, 0 ≤ i ∧ i < gc.font.width c ∧ cl.x0 ≤ x + i ∧ 0 ≤ r ∧ r < height ∧
    p = ⟨x + i, y0 + r, gc.shade c (short (yoff * gc.font.width c + max 0 (cl.x0 - x)) + r * gc.font.width c +
      (i - max 0 (cl.x0 - x))) (height - 1 - r) (i - max 0 (cl.x0 - x))⟩

theorem drawn_whole (h : gc.Upright) (hx : cl.x0 ≤ x) :
    p ∈ clipc gc x y0 0 yoff 0 (gc.font.width c) height c ↔ Drawn gc cl y0 yoff height p x c := by
  rw [clipc_mem h (gc.font.width_nonneg c) le_rfl]
  unfold Drawn
  rw [max_eq_left (by omega)]
  simp only [sub_zero]
  constructor
  · rintro ⟨i, r, h0, h1, h2, h3, rfl⟩
    exact ⟨i, r, h0, h1, by omega, h2, h3, rfl⟩
  · rintro ⟨i, r, h0, h1, -, h2, h3, rfl⟩
    exact ⟨i, r, h0, h1, h2, h3, rfl⟩

theorem drawn_cut (h : gc.Upright) (hx : x < cl.x0) (hw : cl.x0 ≤ x + gc.font.width c) (sskip : Int) :
    p ∈ clipc gc cl.x0 y0 (cl.x0 - x) yoff sskip (x + gc.font.width c - cl.x0) height c ↔
      Drawn gc cl y0 yoff height p x c := by
  rw [clipc_mem h (by omega) (by omega)]
  unfold Drawn
  rw [max_eq_right (by omega)]
  constructor
  · rintro ⟨i, r, h0, h1, h2, h3, rfl⟩
    refine ⟨i + (cl.x0 - x), r, by omega, by omega, by omega, h2, h3, ?_⟩
    rw [add_sub_cancel_right, show x + (i + (cl.x0 - x)) = cl.x0 + i by omega]
  · rintro ⟨i, r, h0, h1, h2, h3, h4, rfl⟩
    refine ⟨i - (cl.x0 - x), r, by omega, by omega, h3, h4, ?_⟩
    rw [show cl.x0 + (i - (cl.x0 - x)) = x + i by omega]

theorem print_rest_mem (h : gc.Upright) (hstyle : height = gc.font.height → yoff = 0) (hx : cl.x0 ≤ x) :
    p ∈ print_rest gc y0 yoff height x s ↔ OfChar gc.font (Drawn gc cl y0 yoff height p) x s := by
  unfold print_rest
  split_ifs with hh
  · rw [chars_mem]
    exact OfChar.congr fun x' c hx' => drawn_whole h (by omega)
  · rw [chars_mem]
    have hh : height = gc.font.height := not_not.mp hh
    have hy := hstyle hh
    subst hy
    refine OfChar.congr fun x' c hx' => ?_
    rw [stylec_eq_clipc h, ← hh]
    exact drawn_whole h (by omega)

theorem clip_start_mem (h : gc.Upright) (hstyle : height = gc.font.height → yoff = 0) (hx : x < cl.x0) :
    p ∈ (clip_start gc cl y0 yoff height 0 s (x - cl.x0) x0).1 ++
        print_rest gc y0 yoff height (clip_start gc cl y0 yoff height 0 s (x - cl.x0) x0).2.2
          (clip_start gc cl y0 yoff height 0 s (x - cl.x0) x0).2.1 ↔
      OfChar gc.font (Drawn gc cl y0 yoff height p) x s := by
  induction s generalizing x with
  | nil => simp [clip_start, print_rest, chars, ofChar_nil]
  | cons c s ih =>
    have hwd : x - cl.x0 + gc.font.width c = x + gc.font.width c - cl.x0 := by omega
    rw [ofChar_cons, clip_start]
    simp only [hwd, sub_zero]
    by_cases hcut : x + gc.font.width c - cl.x0 ≥ 0
    · rw [if_pos hcut, if_pos hcut, if_neg (show ¬ x + gc.font.width c - cl.x0 > gc.font.width c by omega), mem_append]
      simp only [show gc.font.width c - (x + gc.font.width c - cl.x0) = cl.x0 - x by omega,
        show cl.x0 + (x + gc.font.width c - cl.x0) = x + gc.font.width c by omega]
      rw [drawn_cut h hx (by omega), print_rest_mem h hstyle (show cl.x0 ≤ x + gc.font.width c by omega)]
    · rw [if_neg hcut, ih (by omega)]
      have hnone : ¬ Drawn gc cl y0 yoff height p x c := by
        rintro ⟨i, r, h0, h1, h2, -⟩
        omega
      simp only [hnone, false_or]

theorem print_start_mem (h : gc.Upright) (hstyle : height = gc.font.height → yoff = 0) :
    p ∈ print_start gc cl y0 yoff height 0 x s ↔ OfChar gc.font (Drawn gc cl y0 yoff height p) x s := by
  unfold print_start
  rw [sub_zero]
  split_ifs with hx
  · exact clip_start_mem h hstyle (by omega)
  · rw [nil_append]
    exact print_rest_mem h hstyle (show cl.x0 ≤ x by omega)

theorem clip_end_spec (y0 yoff height : Int) (h : gc.Upright) {wd : Int} (hwd : wd < 0) (rest : List Byte) (hx : wd = cl.x1 - (x + gc.font.text_width rest)) :
    (∀ p ∈ (clip_end gc cl y0 yoff height 0 rest wd).1, x ≤ p.x ∧ p.x < cl.x1 ∧ y0 ≤ p.y ∧ p.y < y0 + height) ∧
      ((clip_end gc cl y0 yoff height 0 rest wd).2 = [] ∨
        x + gc.font.text_width (clip_end gc cl y0 yoff height 0 rest wd).2 ≤ cl.x1) := by
  induction rest generalizing wd with
  | nil => exact ⟨fun p hp => absurd hp not_mem_nil, .inl rfl⟩
  | cons c rest ih =>
    rw [text_width_cons] at hx
    have hrest := text_width_nonneg gc.font rest
    simp only [clip_end, add_zero]
    by_cases hcut : wd + gc.font.width c ≥ 0
    · rw [if_pos hcut, if_pos hcut]
      refine ⟨fun p hp => ?_, .inr (by simp only; omega)⟩
      obtain ⟨i, r, h0, h1, h2, h3, rfl⟩ := (clipc_mem h (by omega) (by omega)).mp hp
      simp only
      omega
    · rw [if_neg hcut]
      exact ih (by omega) (by omega)

def Meets (cl : Rec) (x0 y0 width height : Int) : Prop :=
  0 < width ∧ 0 < height ∧ x0 ≤ cl.x1 ∧ cl.x0 < x0 + width ∧ y0 ≤ cl.y1 ∧ cl.y0 < y0 + height

/-- The last row of the text is visible with the first, or lies above the last row of the clip rectangle. -/
def BottomFits (cl : Rec) (y0 height : Int) : Prop :=
  y0 + height ≤ cl.y1 ∨ cl.y0 ≤ y0 ∧ y0 + height - 1 ≤ cl.y1

def SameInk (gc : GC) (cl : Rec) (x0 y0 : Int) (s : List Byte) : Prop :=
  gc.fgCol = gc.bgCol ∨ ∀ pre c post, s = pre ++ c :: post → ∀ i r, 0 ≤ i → i < gc.font.width c → 0 ≤ r → r < gc.font.height →
    cl.x0 ≤ x0 + gc.font.text_width pre + i → cl.y0 ≤ y0 + r →
      let xoff := max 0 (cl.x0 - (x0 + gc.font.text_width pre))
      let yoff := max 0 (cl.y0 - y0)
      gc.inked c (short (yoff * gc.font.width c + xoff) + (r - yoff) * gc.font.width c + (i - xoff)) (gc.font.height - 1 - r) (i - xoff) =
        gc.inked c (r * gc.font.width c + i) (gc.font.height - 1 - r) i

theorem clip_vertical_none (h : clip_vertical cl y0 height = none) : y0 > cl.y1 ∨ y0 + height ≤ cl.y0 := by
  unfold clip_vertical at h
  split_ifs at h with h1 h2
  exact h2

theorem clip_vertical_some {y' height' : Int} (h : clip_vertical cl y0 height = some (y', height', yoff)) :
    cl.y0 ≤ y0 ∧ y0 + height - 1 ≤ cl.y1 ∧ y' = y0 ∧ height' = height ∧ yoff = 0 ∨
      (y0 < cl.y0 ∨ y0 + height - 1 > cl.y1) ∧ y0 ≤ cl.y1 ∧ cl.y0 < y0 + height ∧ yoff = max 0 (cl.y0 - y0) ∧ y' = y0 + yoff ∧
        height' = min (cl.y1 - y0) height - yoff := by
  unfold clip_vertical at h
  by_cases h1 : y0 < cl.y0 ∨ y0 + height - 1 > cl.y1
  · by_cases h2 : y0 > cl.y1 ∨ y0 + height ≤ cl.y0
    · rw [if_pos h1, if_pos h2] at h
      cases h
    · rw [if_pos h1, if_neg h2] at h
      simp only [Option.some.injEq, Prod.mk.injEq] at h
      obtain ⟨rfl, rfl, rfl⟩ := h
      right
      split_ifs <;> omega
  · rw [if_neg h1] at h
    simp only [Option.some.injEq, Prod.mk.injEq] at h
    omega

theorem unclipped_mem (h : gc.Upright) :
    p ∈ (prints none gc x0 y0 s).pixels ↔ OfChar gc.font (fun x c => p ∈ stylec gc x y0 c) x0 s := by
  simp only [prints, h.2, Bool.false_eq_true, if_false]
  exact chars_mem _

def clipped_pixels (gc : GC) (cl : Rec) (x0 y' yoff height' : Int) (s : List Byte) : List Pixel :=
  let wd := cl.x1 - (x0 + gc.font.text_width s)
  let last := if wd < 0 then clip_end gc cl y' yoff height' 0 s.reverse wd else ([], s.reverse)
  last.1 ++ print_start gc cl y' yoff height' 0 x0 last.2.reverse

theorem prints_none (h : clip_vertical cl y0 gc.font.height = none) : (prints (some cl) gc x0 y0 s).pixels = [] := by
  unfold prints
  simp only [h]

theorem prints_some (hu : gc.Upright) {y' height' : Int} (h : clip_vertical cl y0 gc.font.height = some (y', height', yoff)) :
    (prints (some cl) gc x0 y0 s).pixels = clipped_pixels gc cl x0 y' yoff height' s := by
  unfold prints clipped_pixels
  simp only [h, hu.2, Bool.false_eq_true, if_false]

theorem clipped_bounds (h : gc.Upright) (hcl : cl.x0 ≤ cl.x1) (hstyle : height = gc.font.height → yoff = 0)
    (hp : p ∈ clipped_pixels gc cl x0 y0 yoff height s) :
    (x0 ≤ cl.x1 ∧ cl.x0 < x0 + gc.font.text_width s) ∧ (0 < height ∧ p.y < y0 + height) ∧ 0 < gc.font.text_width s ∧
      (cl.x1 < x0 + gc.font.text_width s → p.x < cl.x1) := by
  have hstart : ∀ t, p ∈ print_start gc cl y0 yoff height 0 x0 t →
      0 < height ∧ p.y < y0 + height ∧ x0 ≤ p.x ∧ cl.x0 ≤ p.x ∧ p.x < x0 + gc.font.text_width t := by
    intro t ht
    obtain ⟨pre, c, post, rfl, i, r, h0, h1, h2, h3, h4, rfl⟩ := (print_start_mem h hstyle).mp ht
    have h5 := text_width_nonneg gc.font pre
    have h6 := text_width_nonneg gc.font post
    simp only [text_width_append, text_width_cons]
    omega
  unfold clipped_pixels at hp
  simp only at hp
  split_ifs at hp with hwd
  · obtain ⟨hcut, hleft⟩ := clip_end_spec y0 yoff height h hwd s.reverse
      (show _ = cl.x1 - (x0 + gc.font.text_width s.reverse) by rw [text_width_reverse])
    rcases mem_append.mp hp with hp | hp
    · have := hcut p hp
      omega
    · have hs := hstart _ hp
      rw [text_width_reverse] at hs
      rcases hleft with hnil | hleft
      · rw [hnil] at hs
        simp only [text_width_nil] at hs
        omega
      · omega
  · rw [nil_append, reverse_reverse] at hp
    have := hstart s hp
    omega

theorem clipped_mem (h : gc.Upright) (hstyle : height = gc.font.height → yoff = 0) (hfits : x0 + gc.font.text_width s ≤ cl.x1) :
    p ∈ clipped_pixels gc cl x0 y0 yoff height s ↔ OfChar gc.font (Drawn gc cl y0 yoff height p) x0 s := by
  unfold clipped_pixels
  simp only
  rw [if_neg (by omega), nil_append, reverse_reverse]
  exact print_start_mem h hstyle

theorem shade_eq_iff {bit down i bit' down' i' : Int} : gc.shade c bit down i = gc.shade c bit' down' i' ↔
    gc.fgCol = gc.bgCol ∨ gc.inked c bit down i = gc.inked c bit' down' i' := by
  have hcolors : gc.ink = gc.paper ↔ gc.fgCol = gc.bgCol := by
    unfold GC.ink GC.paper
    split_ifs
    · exact eq_comm
    · exact Iff.rfl
  rw [← hcolors]
  unfold GC.shade
  cases gc.inked c bit down i <;> cases gc.inked c bit' down' i' <;> simp [eq_comm]

def Exact (gc : GC) (cl : Rec) (x0 y0 : Int) (s : List Byte) : Prop :=
  ∀ p, p ∈ (prints (some cl) gc x0 y0 s).pixels ↔ p ∈ (prints none gc x0 y0 s).pixels ∧ Shows cl p.x p.y

theorem unclipped_pixel (h : gc.Upright) :
    p ∈ (prints none gc x0 y0 s).pixels ↔ ∃ pre c post, s = pre ++ c :: post ∧ ∃ i r, 0 ≤ i ∧ i < gc.font.width c ∧ 0 ≤ r ∧
      r < gc.font.height ∧ p = ⟨x0 + gc.font.text_width pre + i, y0 + r,
        gc.shade c (r * gc.font.width c + i) (gc.font.height - 1 - r) i⟩ := by
  rw [unclipped_mem h]
  simp only [OfChar, stylec_mem h]

theorem unclipped_at (h : gc.Upright) {t u : Int} (h0 : x0 ≤ t) (h1 : t < x0 + gc.font.text_width s) (h2 : y0 ≤ u)
    (h3 : u < y0 + gc.font.height) : ∃ color, ⟨t, u, color⟩ ∈ (prints none gc x0 y0 s).pixels := by
  obtain ⟨pre, c, post, hs, h4, h5⟩ := ofChar_column h0 h1
  refine ⟨gc.shade c ((u - y0) * gc.font.width c + (t - (x0 + gc.font.text_width pre))) (gc.font.height - 1 - (u - y0))
    (t - (x0 + gc.font.text_width pre)), (unclipped_pixel h).mpr ?_⟩
  refine ⟨pre, c, post, hs, t - (x0 + gc.font.text_width pre), u - y0, by omega, by omega, by omega, by omega, ?_⟩
  rw [add_sub_cancel, add_sub_cancel]

theorem exact_of_not_meets (h : gc.Upright) (hcl : cl.x0 ≤ cl.x1)
    (hm : ¬ Meets cl x0 y0 (gc.font.text_width s) gc.font.height) : Exact gc cl x0 y0 s := by
  intro p
  constructor
  · intro hp
    exfalso
    cases hv : clip_vertical cl y0 gc.font.height with
    | none =>
      rw [prints_none hv] at hp
      cases hp
    | some r =>
      obtain ⟨y', height', yoff⟩ := r
      rw [prints_some h hv] at hp
      have hrows := clip_vertical_some hv
      obtain ⟨hx, hy, hw, -⟩ := clipped_bounds h hcl (by omega) hp
      apply hm
      unfold Meets
      omega
  · rintro ⟨hp, hx, hx', hy, hy'⟩
    obtain ⟨pre, c, post, rfl, i, r, h0, h1, h2, h3, rfl⟩ := (unclipped_pixel h).mp hp
    exfalso
    apply hm
    have h5 := text_width_nonneg gc.font pre
    have h6 := text_width_nonneg gc.font post
    simp only [text_width_append, text_width_cons] at hx hx' hy hy' ⊢
    unfold Meets
    omega

theorem clipped_pixel (h : gc.Upright) (hm : Meets cl x0 y0 (gc.font.text_width s) gc.font.height)
    (hright : x0 + gc.font.text_width s ≤ cl.x1) (hbottom : BottomFits cl y0 gc.font.height) :
    p ∈ (prints (some cl) gc x0 y0 s).pixels ↔ ∃ pre c post, s = pre ++ c :: post ∧ ∃ i r, 0 ≤ i ∧ i < gc.font.width c ∧ 0 ≤ r ∧
      r < gc.font.height ∧ cl.x0 ≤ x0 + gc.font.text_width pre + i ∧ cl.y0 ≤ y0 + r ∧
        p = ⟨x0 + gc.font.text_width pre + i, y0 + r,
          gc.shade c (short (max 0 (cl.y0 - y0) * gc.font.width c + max 0 (cl.x0 - (x0 + gc.font.text_width pre))) +
            (r - max 0 (cl.y0 - y0)) * gc.font.width c + (i - max 0 (cl.x0 - (x0 + gc.font.text_width pre))))
            (gc.font.height - 1 - r) (i - max 0 (cl.x0 - (x0 + gc.font.text_width pre)))⟩ := by
  obtain ⟨hw, hh, hx, hx', hy, hy'⟩ := hm
  unfold BottomFits at hbottom
  cases hv : clip_vertical cl y0 gc.font.height with
  | none =>
    have := clip_vertical_none hv
    omega
  | some v =>
    obtain ⟨y', height', yoff⟩ := v
    have hrows := clip_vertical_some hv
    have hyoff : yoff = max 0 (cl.y0 - y0) := by omega
    have hheight : height' = gc.font.height - yoff := by omega
    have hy' : y' = y0 + yoff := by omega
    rw [prints_some h hv, clipped_mem h (by omega) hright, ← hyoff]
    unfold OfChar Drawn
    subst hheight hy'
    constructor
    · rintro ⟨pre, c, post, hs, i, r, h0, h1, h2, h3, h4, rfl⟩
      refine ⟨pre, c, post, hs, i, r + yoff, h0, h1, by omega, by omega, h2, by omega, ?_⟩
      rw [add_sub_cancel_right, show y0 + yoff + r = y0 + (r + yoff) by omega,
        show gc.font.height - yoff - 1 - r = gc.font.height - 1 - (r + yoff) by omega]
    · rintro ⟨pre, c, post, hs, i, r, h0, h1, h2, h3, h4, h5, rfl⟩
      refine ⟨pre, c, post, hs, i, r - yoff, h0, h1, h4, by omega, by omega, ?_⟩
      rw [show y0 + yoff + (r - yoff) = y0 + r by omega,
        show gc.font.height - yoff - 1 - (r - yoff) = gc.font.height - 1 - r by omega]

theorem exact_iff_sameInk (h : gc.Upright) (hm : Meets cl x0 y0 (gc.font.text_width s) gc.font.height)
    (hright : x0 + gc.font.text_width s ≤ cl.x1) (hbottom : BottomFits cl y0 gc.font.height) :
    Exact gc cl x0 y0 s ↔ SameInk gc cl x0 y0 s := by
  have hrows := hm.2.2.2.2.1
  constructor
  · intro he
    by_cases hcolor : gc.fgCol = gc.bgCol
    · exact .inl hcolor
    refine .inr fun pre c post hs i r h0 h1 h2 h3 h4 h5 => ?_
    have hpost := text_width_nonneg gc.font post
    have hwidth : gc.font.text_width s = gc.font.text_width pre + (gc.font.width c + gc.font.text_width post) := by
      rw [hs, text_width_append, text_width_cons]
    have hin : Shows cl (x0 + gc.font.text_width pre + i) (y0 + r) := by
      unfold BottomFits at hbottom
      exact ⟨h4, by omega, h5, by omega⟩
    obtain ⟨pre', c', post', hs', i', r', h0', h1', h2', h3', h4', h5', hp⟩ := (clipped_pixel h hm hright hbottom).mp
      ((he _).mpr ⟨(unclipped_pixel h).mpr ⟨pre, c, post, hs, i, r, h0, h1, h2, h3, rfl⟩, hin⟩)
    obtain ⟨hx, hy, hshade⟩ := Pixel.mk.inj hp
    obtain ⟨rfl, rfl⟩ := split_unique (f := gc.font) (t := gc.font.text_width pre + i) (hs.symm.trans hs') ⟨by omega, by omega⟩
      ⟨by omega, by omega⟩
    obtain rfl : i = i' := by omega
    obtain rfl : r = r' := by omega
    exact ((shade_eq_iff.mp hshade).resolve_left hcolor).symm
  · intro hink p
    have hshade : ∀ pre c post, s = pre ++ c :: post → ∀ i r, 0 ≤ i → i < gc.font.width c → 0 ≤ r → r < gc.font.height →
        cl.x0 ≤ x0 + gc.font.text_width pre + i → cl.y0 ≤ y0 + r →
          gc.shade c (short (max 0 (cl.y0 - y0) * gc.font.width c + max 0 (cl.x0 - (x0 + gc.font.text_width pre))) +
            (r - max 0 (cl.y0 - y0)) * gc.font.width c + (i - max 0 (cl.x0 - (x0 + gc.font.text_width pre))))
            (gc.font.height - 1 - r) (i - max 0 (cl.x0 - (x0 + gc.font.text_width pre))) =
          gc.shade c (r * gc.font.width c + i) (gc.font.height - 1 - r) i := by
      intro pre c post hs i r h0 h1 h2 h3 h4 h5
      rw [shade_eq_iff]
      exact hink.imp_right fun hink => hink pre c post hs i r h0 h1 h2 h3 h4 h5
    rw [clipped_pixel h hm hright hbottom, unclipped_pixel h]
    constructor
    · rintro ⟨pre, c, post, hs, i, r, h0, h1, h2, h3, h4, h5, rfl⟩
      have hpost := text_width_nonneg gc.font post
      have hwidth : gc.font.text_width s = gc.font.text_width pre + (gc.font.width c + gc.font.text_width post) := by
        rw [hs, text_width_append, text_width_cons]
      unfold BottomFits at hbottom
      refine ⟨⟨pre, c, post, hs, i, r, h0, h1, h2, h3, ?_⟩, h4, by simp only; omega, h5, by simp only; omega⟩
      rw [hshade pre c post hs i r h0 h1 h2 h3 h4 h5]
    · rintro ⟨⟨pre, c, post, hs, i, r, h0, h1, h2, h3, rfl⟩, h4, -, h5, -⟩
      refine ⟨pre, c, post, hs, i, r, h0, h1, h2, h3, h4, h5, ?_⟩
      rw [hshade pre c post hs i r h0 h1 h2 h3 h4 h5]

theorem right_of_exact (h : gc.Upright) (hcl : cl.x0 ≤ cl.x1) (hcl' : cl.y0 ≤ cl.y1)
    (hm : Meets cl x0 y0 (gc.font.text_width s) gc.font.height) (he : Exact gc cl x0 y0 s) : x0 + gc.font.text_width s ≤ cl.x1 := by
  obtain ⟨hw, hh, hx, hx', hy, hy'⟩ := hm
  by_contra hright
  obtain ⟨color, hp⟩ := unclipped_at (s := s) h (show x0 ≤ cl.x1 by omega) (by omega) (show y0 ≤ max y0 cl.y0 by omega)
    (show max y0 cl.y0 < y0 + gc.font.height by omega)
  have hclipped := (he ⟨cl.x1, max y0 cl.y0, color⟩).mpr ⟨hp, hcl, le_rfl, by simp only; omega, by simp only; omega⟩
  cases hv : clip_vertical cl y0 gc.font.height with
  | none =>
    have := clip_vertical_none hv
    omega
  | some v =>
    obtain ⟨y', height', yoff⟩ := v
    have hrows := clip_vertical_some hv
    rw [prints_some h hv] at hclipped
    have hlost := (clipped_bounds h hcl (by omega) hclipped).2.2.2 (by omega)
    simp only at hlost
    omega

theorem bottom_of_exact (h : gc.Upright) (hcl : cl.x0 ≤ cl.x1) (hcl' : cl.y0 ≤ cl.y1)
    (hm : Meets cl x0 y0 (gc.font.text_width s) gc.font.height) (he : Exact gc cl x0 y0 s) : BottomFits cl y0 gc.font.height := by
  obtain ⟨hw, hh, hx, hx', hy, hy'⟩ := hm
  by_contra hbottom
  unfold BottomFits at hbottom
  obtain ⟨color, hp⟩ := unclipped_at h (show x0 ≤ max x0 cl.x0 by omega) (show max x0 cl.x0 < x0 + gc.font.text_width s by omega)
    (show y0 ≤ cl.y1 by omega) (by omega)
  have hclipped := (he ⟨max x0 cl.x0, cl.y1, color⟩).mpr ⟨hp, by simp only; omega, by simp only; omega, hcl', le_rfl⟩
  cases hv : clip_vertical cl y0 gc.font.height with
  | none =>
    have := clip_vertical_none hv
    omega
  | some v =>
    obtain ⟨y', height', yoff⟩ := v
    have hrows := clip_vertical_some hv
    rw [prints_some h hv] at hclipped
    have hlost := (clipped_bounds h hcl (by omega) hclipped).2.1.2
    simp only at hlost
    omega

theorem prints_exact_iff (gc : GC) (cl : Rec) (hcl : cl.x0 ≤ cl.x1) (hcl' : cl.y0 ≤ cl.y1) (h : gc.Upright) (x0 y0 : Int)
    (s : List Byte) : Exact gc cl x0 y0 s ↔
      (Meets cl x0 y0 (gc.font.text_width s) gc.font.height → x0 + gc.font.text_width s ≤ cl.x1 ∧
        BottomFits cl y0 gc.font.height ∧ SameInk gc cl x0 y0 s) := by
  constructor
  · intro he hm
    have hright := right_of_exact h hcl hcl' hm he
    have hbottom := bottom_of_exact h hcl hcl' hm he
    exact ⟨hright, hbottom, (exact_iff_sameInk h hm hright hbottom).mp he⟩
  · intro hfits
    by_cases hm : Meets cl x0 y0 (gc.font.text_width s) gc.font.height
    · obtain ⟨hright, hbottom, hink⟩ := hfits hm
      exact (exact_iff_sameInk h hm hright hbottom).mpr hink
    · exact exact_of_not_meets h hcl hm

def boxFont : FONT := ⟨2, 1, 0, 0, 0, 0, fun _ => 2, fun _ => 0xf0000000, fun _ => 0⟩

def boxGC : GC := ⟨boxFont, 0, 1, 0, fun _ => 0xffff⟩

theorem prints_exact_room : Exact boxGC (rect_create 0 0 8 8) 1 1 [65, 66] ↔
    (Meets (rect_create 0 0 8 8) 1 1 (boxGC.font.text_width [65, 66]) boxGC.font.height →
      1 + boxGC.font.text_width [65, 66] ≤ (rect_create 0 0 8 8).x1 ∧ BottomFits (rect_create 0 0 8 8) 1 boxGC.font.height ∧
        SameInk boxGC (rect_create 0 0 8 8) 1 1 [65, 66]) :=
  prints_exact_iff boxGC (rect_create 0 0 8 8) (by decide) (by decide) (by unfold GC.Upright; decide) 1 1 [65, 66]

/-- A character that exactly fills the clip rectangle loses its right column. -/
theorem prints_not_exact : boxGC.Upright ∧ ¬ Exact boxGC (rect_create 0 0 2 2) 0 0 [65] := by
  constructor
  · unfold GC.Upright
    decide
  · intro he
    have hfull : (⟨1, 0, 1⟩ : Pixel) ∈ (prints none boxGC 0 0 [65]).pixels := by decide
    have hlost : (⟨1, 0, 1⟩ : Pixel) ∉ (prints (some (rect_create 0 0 2 2)) boxGC 0 0 [65]).pixels := by decide
    exact hlost ((he _).mpr ⟨hfull, by decide, by decide, by decide, by decide⟩)

end WWindowSystem.Graph.Text
