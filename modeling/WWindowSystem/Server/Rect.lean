import Mathlib.Data.Set.Insert
import Mathlib.Data.Set.Lattice
import Mathlib.Tactic.SplitIfs

namespace WWindowSystem

open List Set

abbrev Point := Int × Int

/-- A `REC` without its `next` link: lists of rectangles are lists. Coordinates do not wrap. -/
structure Rec where
  x0 : Int := 0
  y0 : Int := 0
  w : Int := 0
  h : Int := 0
  x1 : Int := 0
  y1 : Int := 0
  deriving DecidableEq, Repr

def XL (R : Rec) : Int := R.x0
def XR (R : Rec) : Int := R.x0 + R.w
def YO (R : Rec) : Int := R.y0
def YU (R : Rec) : Int := R.y0 + R.h

def rect_create (x y w h : Int) : Rec := { x0 := x, y0 := y, w, h, x1 := w - 1, y1 := h - 1 }

def rect_cont_point (R : Rec) (x y : Int) : Bool :=
  decide (XL R ≤ x ∧ x < XR R ∧ YO R ≤ y ∧ y < YU R)

def rect_cont_rect (outer inner : Rec) : Bool :=
  decide (XL outer ≤ XL inner ∧ XR inner ≤ XR outer ∧ YO outer ≤ YO inner ∧ YU inner ≤ YU outer)

inductive XFlag where
  | XLL | XLM | XLR | XMM | XMR | XRR
  deriving DecidableEq

inductive YFlag where
  | YOO | YOM | YOU | YMM | YMU | YUU
  deriving DecidableEq

open XFlag YFlag

def rect_compare (A B : Rec) : XFlag × YFlag :=
  (if XL B ≤ XL A then
      if XR B - 1 < XL A then XLL
      else if XR B - 1 < XR A - 1 then XLM
      else XLR
    else if XL B ≤ XR A - 1 then
      if XR B - 1 < XR A - 1 then XMM else XMR
    else XRR,
   if YO B ≤ YO A then
      if YU B - 1 < YO A then YOO
      else if YU B - 1 < YU A - 1 then YOM
      else YOU
    else if YO B ≤ YU A - 1 then
      if YU B - 1 < YU A - 1 then YMM else YMU
    else YUU)

def subtractPieces (A B : Rec) : XFlag × YFlag → List Rec × Bool
  | (XMR, YMU) => ([rect_create (XL A) (YO A) A.w (YO B - YO A),
      rect_create (XL A) (YO B) (XL B - XL A) (YU A - YO B)], true)
  | (XMR, YOM) => ([rect_create (XL A) (YO A) (XL B - XL A) (YU B - YO A),
      rect_create (XL A) (YU B) A.w (YU A - YU B)], true)
  | (XLM, YOM) => ([rect_create (XR B) (YO A) (XR A - XR B) (YU B - YO A),
      rect_create (XL A) (YU B) A.w (YU A - YU B)], true)
  | (XLM, YMU) => ([rect_create (XL A) (YO A) A.w (YO B - YO A),
      rect_create (XR B) (YO B) (XR A - XR B) (YU A - YO B)], true)
  | (XMR, YMM) => ([rect_create (XL A) (YO A) A.w (YO B - YO A),
      rect_create (XL A) (YO B) (XL B - XL A) B.h,
      rect_create (XL A) (YU B) A.w (YU A - YU B)], true)
  | (XMM, YOM) => ([rect_create (XL A) (YO A) (XL B - XL A) A.h,
      rect_create (XL B) (YU B) B.w (YU A - YU B),
      rect_create (XR B) (YO A) (XR A - XR B) A.h], true)
  | (XLM, YMM) => ([rect_create (XL A) (YO A) A.w (YO B - YO A),
      rect_create (XR B) (YO B) (XR A - XR B) B.h,
      rect_create (XL A) (YU B) A.w (YU A - YU B)], true)
  | (XMM, YMU) => ([rect_create (XL A) (YO A) (XL B - XL A) A.h,
      rect_create (XL B) (YO A) B.w (YO B - YO A),
      rect_create (XR B) (YO A) (XR A - XR B) A.h], true)
  | (XMR, YOU) => ([rect_create (XL A) (YO A) (XL B - XL A) A.h], true)
  | (XLR, YOM) => ([rect_create (XL A) (YU B) A.w (YU A - YU B)], true)
  | (XLM, YOU) => ([rect_create (XR B) (YO A) (XR A - XR B) A.h], true)
  | (XLR, YMU) => ([rect_create (XL A) (YO A) A.w (YO B - YO A)], true)
  | (XLR, YMM) => ([rect_create (XL A) (YO A) A.w (YO B - YO A),
      rect_create (XL A) (YU B) A.w (YU A - YU B)], true)
  | (XMM, YOU) => ([rect_create (XL A) (YO A) (XL B - XL A) A.h,
      rect_create (XR B) (YO A) (XR A - XR B) A.h], true)
  | (XLR, YOU) => ([], true)
  | (XMM, YMM) => ([rect_create (XL A) (YO A) A.w (YO B - YO A),
      rect_create (XL A) (YO B) (XL B - XL A) B.h,
      rect_create (XR B) (YO B) (XR A - XR B) B.h,
      rect_create (XL A) (YU B) A.w (YU A - YU B)], true)
  | _ => ([rect_create (XL A) (YO A) A.w A.h], false)

def rect_subtract (A B : Rec) (R : List Rec) : List Rec × Bool :=
  let p := subtractPieces A B (rect_compare A B)
  (p.1.reverse ++ R, p.2)

def rect_clip (A B : Rec) (R : List Rec) : List Rec × Bool :=
  let x1 := max (XL A) (XL B)
  let y1 := max (YO A) (YO B)
  let x2 := min (XR A) (XR B)
  let y2 := min (YU A) (YU B)
  if x1 ≥ x2 ∨ y1 ≥ y2 then (R, true)
  else
    let rp := rect_create x1 y1 (x2 - x1) (y2 - y1)
    (rp :: R, decide (A.x0 ≠ rp.x0 ∨ A.y0 ≠ rp.y0 ∨ A.w ≠ rp.w ∨ A.h ≠ rp.h))

def listLoop (f : Rec → List Rec → List Rec × Bool) : List Rec → List Rec → Bool → List Rec × Bool
  | [], R, tmpcut2 => (R, tmpcut2)
  | A :: rest, R, tmpcut2 =>
    let r := f A R
    listLoop f rest r.1 (tmpcut2 || r.2)

def rect_list_subtract (A : List Rec) (B : Rec) : List Rec × Bool :=
  listLoop (fun a R => rect_subtract a B R) A [] false

def rect_list_clip (A : List Rec) (B : Rec) : List Rec × Bool :=
  listLoop (fun a R => rect_clip a B R) A [] false

def rect_intersect (A B : Rec) : Option Rec :=
  let x1 := max (XL A) (XL B)
  let y1 := max (YO A) (YO B)
  let x2 := min (XR A) (XR B)
  let y2 := min (YU A) (YU B)
  if x1 ≥ x2 ∨ y1 ≥ y2 then none
  else some { x0 := x1, y0 := y1, w := x2 - x1, h := y2 - y1, x1 := x2 - 1, y1 := y2 - 1 }

def rectUpdateDirty (R : Rec) (x y w h : Int) : Rec :=
  if R.w ≠ 0 then
    let x1 := min (XL R) x
    let y1 := min (YO R) y
    let x2 := max (XR R) (x + w)
    let y2 := max (YU R) (y + h)
    { x0 := x1, y0 := y1, w := x2 - x1, h := y2 - y1, x1 := x2 - x1 - 1, y1 := y2 - y1 - 1 }
  else { x0 := x, y0 := y, w, h, x1 := w - 1, y1 := h - 1 }

def Rec.shift (R : Rec) (dx dy : Int) : Rec :=
  { R with x0 := R.x0 + dx, y0 := R.y0 + dy, x1 := R.x1 + dx, y1 := R.y1 + dy }

def Rec.pts (R : Rec) : Set Point := {p | XL R ≤ p.1 ∧ p.1 < XR R ∧ YO R ≤ p.2 ∧ p.2 < YU R}

def Rec.Proper (R : Rec) : Prop := 0 < R.w ∧ 0 < R.h

instance (R : Rec) : Decidable R.Proper := inferInstanceAs (Decidable (_ ∧ _))

variable {R : Rec}

theorem Rec.mem_pts {p : Point} :
    p ∈ R.pts ↔ R.x0 ≤ p.1 ∧ p.1 < R.x0 + R.w ∧ R.y0 ≤ p.2 ∧ p.2 < R.y0 + R.h := Iff.rfl

theorem rect_cont_point_iff {x y : Int} : rect_cont_point R x y = true ↔ (x, y) ∈ R.pts := by
  simp only [rect_cont_point, decide_eq_true_eq, Rec.pts, mem_ofPred_eq]

theorem Rec.mem_shift {dx dy : Int} {p : Point} : p ∈ (R.shift dx dy).pts ↔ (p.1 - dx, p.2 - dy) ∈ R.pts := by
  simp only [Rec.mem_pts, Rec.shift]
  omega

theorem Rec.Proper.nonempty (h : R.Proper) : R.pts.Nonempty :=
  ⟨(R.x0, R.y0), by simp only [Rec.mem_pts]; have := h.1; have := h.2; omega⟩

variable {A B : Rec}

theorem rect_intersect_isSome : (rect_intersect A B).isSome = true ↔ ∃ p, p ∈ A.pts ∧ p ∈ B.pts := by
  constructor
  · intro h
    simp only [rect_intersect] at h
    split_ifs at h with hc
    · simp at h
    · refine ⟨(max (XL A) (XL B), max (YO A) (YO B)), ?_⟩
      simp only [Rec.mem_pts, XL, XR, YO, YU] at hc ⊢
      omega
  · rintro ⟨p, ha, hb⟩
    rw [Rec.mem_pts] at ha hb
    rw [rect_intersect, if_neg (by simp only [XL, XR, YO, YU]; omega)]
    rfl

theorem rect_intersect_none : rect_intersect A B = none ↔ ∀ p, p ∈ A.pts → p ∉ B.pts := by
  rw [← Option.not_isSome_iff_eq_none, rect_intersect_isSome]
  simp only [not_exists, not_and]

theorem rect_intersect_pts {A B C : Rec} (h : rect_intersect A B = some C) : C.pts = A.pts ∩ B.pts := by
  simp only [rect_intersect] at h
  split_ifs at h with hc
  obtain rfl := Option.some.inj h
  ext p
  simp only [mem_inter_iff, Rec.mem_pts, XL, XR, YO, YU] at hc ⊢
  omega

theorem rect_intersect_proper {A B C : Rec} (h : rect_intersect A B = some C) : C.Proper := by
  simp only [rect_intersect] at h
  split_ifs at h with hc
  obtain rfl := Option.some.inj h
  simp only [Rec.Proper]
  omega

theorem rect_cont_rect_pts (h : rect_cont_rect A B = true) : B.pts ⊆ A.pts := by
  intro p hp
  rw [rect_cont_rect, decide_eq_true_eq] at h
  simp only [Rec.mem_pts, XL, XR, YO, YU] at *
  omega

structure Tiles (l : List Rec) (S : Set Point) : Prop where
  proper : ∀ r ∈ l, r.Proper
  disjoint : l.Pairwise fun r q => ∀ p, p ∈ r.pts → p ∉ q.pts
  covers : ∀ p, p ∈ S ↔ ∃ r ∈ l, p ∈ r.pts

theorem Tiles.nil : Tiles [] ∅ := ⟨by simp, .nil, by simp⟩

theorem Tiles.single (h : R.Proper) : Tiles [R] R.pts :=
  ⟨by simpa using h, pairwise_singleton _ _, by simp⟩

variable {S : Set Point}

theorem Tiles.perm {l l' : List Rec} (h : Tiles l S) (hp : l.Perm l') : Tiles l' S where
  proper r hr := h.proper r (hp.mem_iff.mpr hr)
  disjoint := (hp.pairwise_iff fun hd p hq hr => hd p hr hq).mp h.disjoint
  covers p := by rw [h.covers]; simp only [hp.mem_iff]

theorem Tiles.append {l l' : List Rec} {S S' : Set Point} (h : Tiles l S) (h' : Tiles l' S')
    (hd : ∀ p, p ∈ S → p ∉ S') : Tiles (l ++ l') (S ∪ S') where
  proper r hr := (mem_append.mp hr).elim (h.proper r) (h'.proper r)
  disjoint := by
    refine pairwise_append.mpr ⟨h.disjoint, h'.disjoint, ?_⟩
    intro r hr q hq p hpr hpq
    exact hd p ((h.covers p).mpr ⟨r, hr, hpr⟩) ((h'.covers p).mpr ⟨q, hq, hpq⟩)
  covers p := by
    rw [mem_union, h.covers, h'.covers]
    simp only [mem_append, or_and_right, exists_or]

variable {l : List Rec}

theorem Tiles.congr {S S' : Set Point} (h : Tiles l S) (hS : S = S') : Tiles l S' := hS ▸ h

theorem Tiles.eq_nil (h : Tiles l ∅) : l = [] := by
  cases l with
  | nil => rfl
  | cons r l =>
    obtain ⟨p, hp⟩ := (h.proper r mem_cons_self).nonempty
    exact absurd ((h.covers p).mpr ⟨r, mem_cons_self, hp⟩) (notMem_empty p)

theorem Tiles.shift (h : Tiles l S) (dx dy : Int) :
    Tiles (l.map fun r => r.shift dx dy) {p | (p.1 - dx, p.2 - dy) ∈ S} where
  proper r hr := by
    obtain ⟨q, hq, rfl⟩ := mem_map.mp hr
    exact h.proper q hq
  disjoint := by
    refine pairwise_map.mpr (h.disjoint.imp ?_)
    intro r q hd p hr hq
    exact hd _ (Rec.mem_shift.mp hr) (Rec.mem_shift.mp hq)
  covers p := by
    simp only [mem_ofPred_eq, h.covers, mem_map]
    constructor
    · rintro ⟨r, hr, hp⟩
      exact ⟨_, ⟨r, hr, rfl⟩, Rec.mem_shift.mpr hp⟩
    · rintro ⟨_, ⟨r, hr, rfl⟩, hp⟩
      exact ⟨r, hr, Rec.mem_shift.mp hp⟩

theorem subtractPieces_tiles (A B : Rec) (hA : A.Proper) (hB : B.Proper) :
    Tiles (subtractPieces A B (rect_compare A B)).1 (A.pts \ B.pts) := by
  obtain ⟨hw, hh⟩ := hA
  obtain ⟨hv, hu⟩ := hB
  simp only [rect_compare]
  split_ifs <;> constructor <;>
    simp only [subtractPieces, XL, XR, YO, YU, mem_cons, not_mem_nil, or_false,
      forall_eq_or_imp, forall_eq, Rec.Proper, rect_create, pairwise_cons, Rec.mem_pts,
      mem_sdiff, exists_eq_or_imp, exists_eq_left, false_imp_iff, implies_true,
      List.Pairwise.nil, and_true, false_and] at * <;>
    grind

theorem subtractPieces_cut (A B : Rec) (hA : A.Proper) (hB : B.Proper) :
    (subtractPieces A B (rect_compare A B)).2 = true ↔ ∃ p, p ∈ A.pts ∧ p ∈ B.pts := by
  obtain ⟨hw, hh⟩ := hA
  obtain ⟨hv, hu⟩ := hB
  rw [← rect_intersect_isSome]
  simp only [rect_compare, rect_intersect]
  split_ifs <;> simp only [subtractPieces, XL, XR, YO, YU, Option.isSome_some,
    Option.isSome_none, Bool.false_eq_true, iff_true, iff_false, not_true] at * <;> omega

theorem rect_subtract_tiles {R : List Rec} (hA : A.Proper)
    (hB : B.Proper) (hR : Tiles R S) (hd : ∀ p, p ∈ A.pts → p ∉ S) :
    Tiles (rect_subtract A B R).1 (A.pts \ B.pts ∪ S) :=
  ((subtractPieces_tiles A B hA hB).perm (reverse_perm _).symm).append hR fun p hp => hd p hp.1

theorem rect_clip_tiles {R : List Rec} (hR : Tiles R S)
    (hd : ∀ p, p ∈ A.pts → p ∉ S) : Tiles (rect_clip A B R).1 (A.pts ∩ B.pts ∪ S) := by
  simp only [rect_clip]
  split_ifs with hc
  · refine hR.congr ?_
    ext p
    simp only [mem_union, mem_inter_iff, Rec.mem_pts, XL, XR, YO, YU] at hc ⊢
    grind
  · have hp : (rect_create (max (XL A) (XL B)) (max (YO A) (YO B))
        (min (XR A) (XR B) - max (XL A) (XL B)) (min (YU A) (YU B) - max (YO A) (YO B))).Proper := by
      simp only [Rec.Proper, rect_create]; omega
    have he : (rect_create (max (XL A) (XL B)) (max (YO A) (YO B))
        (min (XR A) (XR B) - max (XL A) (XL B))
        (min (YU A) (YU B) - max (YO A) (YO B))).pts = A.pts ∩ B.pts := by
      ext p
      simp only [mem_inter_iff, Rec.mem_pts, rect_create, XL, XR, YO, YU]
      omega
    rw [← he]
    exact (Tiles.single hp).append hR fun p hq => hd p (he ▸ hq).1

theorem rect_clip_cut {R : List Rec} (hA : A.Proper) :
    (rect_clip A B R).2 = true ↔ ∃ p, p ∈ A.pts ∧ p ∉ B.pts := by
  obtain ⟨hw, hh⟩ := hA
  have hcorner : (¬ ∃ p, p ∈ A.pts ∧ p ∉ B.pts) ↔
      XL B ≤ XL A ∧ XR A ≤ XR B ∧ YO B ≤ YO A ∧ YU A ≤ YU B := by
    constructor
    · intro h
      have h1 := not_not.mp fun hn => h ⟨(A.x0, A.y0), by simp only [Rec.mem_pts]; omega, hn⟩
      have h2 := not_not.mp fun hn =>
        h ⟨(A.x0 + A.w - 1, A.y0 + A.h - 1), by simp only [Rec.mem_pts]; omega, hn⟩
      simp only [Rec.mem_pts, XL, XR, YO, YU] at *
      omega
    · rintro h ⟨p, hp, hn⟩
      simp only [Rec.mem_pts, XL, XR, YO, YU] at *
      omega
  rw [← not_iff_not, hcorner]
  simp only [rect_clip]
  split_ifs with hc
  · simp only [not_true, false_iff, XL, XR, YO, YU] at *
    omega
  · rw [decide_eq_true_eq]
    simp only [rect_create, XL, XR, YO, YU] at *
    omega

variable {f : Rec → List Rec → List Rec × Bool}

theorem listLoop_tiles {B : Set Point}
    (hf : ∀ a R S, a.Proper → Tiles R S → (∀ p, p ∈ a.pts → p ∉ S) → Tiles (f a R).1 (a.pts ∩ B ∪ S))
    (A : List Rec) (hA : Tiles A S) (R : List Rec) (T : Set Point) (hR : Tiles R T)
    (hd : ∀ p, p ∈ S → p ∉ T) (c : Bool) : Tiles (listLoop f A R c).1 (S ∩ B ∪ T) := by
  induction A generalizing S R T c with
  | nil =>
    have hS : S = ∅ := eq_empty_of_forall_notMem fun p hp => by simpa using (hA.covers p).mp hp
    simpa [listLoop, hS] using hR
  | cons a A ih =>
    have ha : a.Proper := hA.proper a mem_cons_self
    have haS : ∀ p, p ∈ a.pts → p ∈ S := fun p hp => (hA.covers p).mpr ⟨a, mem_cons_self, hp⟩
    have hrest : Tiles A (S \ a.pts) := by
      obtain ⟨hda, hdA⟩ := pairwise_cons.mp hA.disjoint
      refine ⟨fun r hr => hA.proper r (mem_cons_of_mem _ hr), hdA, fun p => ?_⟩
      rw [mem_sdiff, hA.covers]
      simp only [mem_cons, exists_eq_or_imp]
      constructor
      · rintro ⟨h | h, hn⟩
        · exact absurd h hn
        · exact h
      · rintro ⟨r, hr, hp⟩
        exact ⟨.inr ⟨r, hr, hp⟩, fun hpa => hda r hr p hpa hp⟩
    have hstep := hf a R T ha hR fun p hp => hd p (haS p hp)
    refine (ih hrest _ _ hstep ?_ _).congr ?_
    · rintro p ⟨hpS, hpa⟩ (hp | hp)
      · exact hpa hp.1
      · exact hd p hpS hp
    · ext p
      have := haS p
      simp only [mem_union, mem_inter_iff, mem_sdiff]
      grind

theorem listLoop_cut {P : Rec → Prop}
    (hf : ∀ a R, a.Proper → ((f a R).2 = true ↔ P a)) (A : List Rec) (hA : ∀ a ∈ A, a.Proper)
    (R : List Rec) (c : Bool) : (listLoop f A R c).2 = true ↔ c = true ∨ ∃ a ∈ A, P a := by
  induction A generalizing R c with
  | nil => simp [listLoop]
  | cons a A ih =>
    rw [listLoop, ih (fun b hb => hA b (mem_cons_of_mem _ hb)), Bool.or_eq_true,
      hf a R (hA a mem_cons_self)]
    simp only [mem_cons, exists_eq_or_imp, or_assoc]

theorem rect_list_subtract_tiles {A : List Rec} {B : Rec} (hA : Tiles A S)
    (hB : B.Proper) : Tiles (rect_list_subtract A B).1 (S \ B.pts) := by
  have h := listLoop_tiles (f := fun a R => rect_subtract a B R) (B := B.ptsᶜ)
    (fun a R S ha hR hd => rect_subtract_tiles ha hB hR hd) A hA [] ∅ .nil (by simp) false
  rwa [union_empty, ← Set.sdiff_eq] at h

theorem rect_list_clip_tiles {A : List Rec} {B : Rec} (hA : Tiles A S) :
    Tiles (rect_list_clip A B).1 (S ∩ B.pts) := by
  have h := listLoop_tiles (f := fun a R => rect_clip a B R) (B := B.pts)
    (fun a R S _ hR hd => rect_clip_tiles hR hd) A hA [] ∅ .nil (by simp) false
  rwa [union_empty] at h

theorem rect_list_subtract_cut {A : List Rec} {B : Rec} (hA : Tiles A S)
    (hB : B.Proper) : (rect_list_subtract A B).2 = true ↔ ∃ p, p ∈ S ∧ p ∈ B.pts := by
  rw [rect_list_subtract, listLoop_cut (f := fun a R => rect_subtract a B R)
    (P := fun a => ∃ p, p ∈ a.pts ∧ p ∈ B.pts) (fun a _ ha => subtractPieces_cut a B ha hB) A hA.proper]
  simp only [hA.covers, Bool.false_eq_true, false_or]
  grind

theorem rect_list_clip_cut {A : List Rec} {B : Rec} (hA : Tiles A S) :
    (rect_list_clip A B).2 = true ↔ ∃ p, p ∈ S ∧ p ∉ B.pts := by
  rw [rect_list_clip, listLoop_cut (P := fun a => ∃ p, p ∈ a.pts ∧ p ∉ B.pts)
    (fun a R ha => rect_clip_cut ha) A hA.proper]
  simp only [hA.covers, Bool.false_eq_true, false_or]
  grind

end WWindowSystem
