import WWindowSystem.Library.Words
import WWindowSystem.Server.Rect

namespace WWindowSystem

def Rec.stored (R : Rec) : Rec :=
  { x0 := short R.x0, y0 := short R.y0, w := short R.w, h := short R.h
    x1 := short (short R.w - 1), y1 := short (short R.h - 1) }

def rect_subtract_short (A B : Rec) (R : List Rec) : List Rec × Bool :=
  let p := subtractPieces A B (rect_compare A B)
  ((p.1.map Rec.stored).reverse ++ R, p.2)

def rect_clip_short (A B : Rec) (R : List Rec) : List Rec × Bool :=
  let x1 := max (XL A) (XL B)
  let y1 := max (YO A) (YO B)
  let x2 := min (XR A) (XR B)
  let y2 := min (YU A) (YU B)
  if x1 ≥ x2 ∨ y1 ≥ y2 then (R, true)
  else
    let rp := (rect_create x1 y1 (x2 - x1) (y2 - y1)).stored
    (rp :: R, decide (A.x0 ≠ rp.x0 ∨ A.y0 ≠ rp.y0 ∨ A.w ≠ rp.w ∨ A.h ≠ rp.h))

def rect_list_subtract_short (A : List Rec) (B : Rec) : List Rec × Bool :=
  listLoop (fun a R => rect_subtract_short a B R) A [] false

def rect_list_clip_short (A : List Rec) (B : Rec) : List Rec × Bool :=
  listLoop (fun a R => rect_clip_short a B R) A [] false

structure Rec.Fits (R : Rec) : Prop where
  left : -32768 ≤ R.x0
  right : R.x0 + R.w ≤ 32768
  top : -32768 ≤ R.y0
  bottom : R.y0 + R.h ≤ 32768
  width : R.w ≤ 32767
  height : R.h ≤ 32767

variable {A B : Rec}

theorem stored_create {x y w h : Int} (hx : -32768 ≤ x) (hy : -32768 ≤ y) (hx' : x < 32768)
    (hy' : y < 32768) (hw : 0 ≤ w) (hh : 0 ≤ h) (hw' : w ≤ 32767) (hh' : h ≤ 32767) :
    (rect_create x y w h).stored = rect_create x y w h := by
  simp only [Rec.stored, rect_create]
  rw [short_of_range hx hx', short_of_range hy hy', short_of_range (z := w) (by omega) (by omega),
    short_of_range (z := h) (by omega) (by omega), short_of_range (z := w - 1) (by omega) (by omega),
    short_of_range (z := h - 1) (by omega) (by omega)]

theorem subtractPieces_stored (hA : A.Proper) (hB : B.Proper) (hf : A.Fits) :
    ∀ r ∈ (subtractPieces A B (rect_compare A B)).1, r.stored = r := by
  obtain ⟨hw, hh⟩ := hA
  obtain ⟨hv, hu⟩ := hB
  obtain ⟨hl, hr, ht, hb, hwidth, hheight⟩ := hf
  simp only [rect_compare]
  split_ifs <;>
    simp only [subtractPieces, XL, XR, YO, YU, List.forall_mem_cons, List.not_mem_nil, false_imp_iff,
      implies_true, and_true] at * <;>
    (try refine ⟨?_, ?_, ?_, ?_⟩) <;> (try refine ⟨?_, ?_, ?_⟩) <;> (try refine ⟨?_, ?_⟩) <;>
    (apply stored_create <;> omega)

theorem rect_subtract_short_eq (hA : A.Proper) (hB : B.Proper) (hf : A.Fits) (R : List Rec) :
    rect_subtract_short A B R = rect_subtract A B R := by
  have hs := List.map_congr_left (g := id) (subtractPieces_stored hA hB hf)
  simp only [rect_subtract_short, rect_subtract, hs, List.map_id]

theorem rect_clip_short_eq (hf : A.Fits) (R : List Rec) : rect_clip_short A B R = rect_clip A B R := by
  obtain ⟨hl, hr, ht, hb, hwidth, hheight⟩ := hf
  simp only [rect_clip_short, rect_clip]
  split_ifs with hc
  · rfl
  · rw [stored_create] <;> simp only [XL, XR, YO, YU] at hc ⊢ <;> omega

variable {l : List Rec}

theorem listLoop_congr {f g : Rec → List Rec → List Rec × Bool}
    (h : ∀ a ∈ l, ∀ R, f a R = g a R) (R : List Rec) (c : Bool) : listLoop f l R c = listLoop g l R c := by
  induction l generalizing R c with
  | nil => rfl
  | cons a l ih =>
    simp only [listLoop]
    rw [h a List.mem_cons_self, ih fun b hb => h b (List.mem_cons_of_mem _ hb)]

theorem rect_list_subtract_short_eq (hl : ∀ a ∈ l, a.Proper ∧ a.Fits) (hB : B.Proper) :
    rect_list_subtract_short l B = rect_list_subtract l B := by
  apply listLoop_congr
  intro a ha R
  exact rect_subtract_short_eq (hl a ha).1 hB (hl a ha).2 R

theorem rect_list_clip_short_eq (hl : ∀ a ∈ l, a.Fits) :
    rect_list_clip_short l B = rect_list_clip l B := by
  apply listLoop_congr
  intro a ha R
  exact rect_clip_short_eq (hl a ha) R

def covered (l : List Rec) : Set Point := {p | ∃ r ∈ l, p ∈ r.pts}

structure Disjointed (l : List Rec) : Prop where
  proper : ∀ r ∈ l, r.Proper
  disjoint : l.Pairwise fun r q => ∀ p, p ∈ r.pts → p ∉ q.pts

theorem Disjointed.tiles (h : Disjointed l) : Tiles l (covered l) :=
  ⟨h.proper, h.disjoint, fun _ => Iff.rfl⟩

theorem Tiles.disjointed {S : Set Point} (h : Tiles l S) : Disjointed l ∧ covered l = S := by
  refine ⟨⟨h.proper, h.disjoint⟩, ?_⟩
  ext p
  exact (h.covers p).symm

theorem rect_subtract_exact (A B : Rec) (hA : A.Proper) (hB : B.Proper) (hf : A.Fits) :
    (∀ R, ∃ l, (rect_subtract_short A B R).1 = l ++ R ∧ Disjointed l ∧ covered l = A.pts \ B.pts ∧
      ((rect_subtract_short A B R).2 = true ↔ (A.pts ∩ B.pts).Nonempty)) ∧ ∀ l, Disjointed l → (∀ a ∈ l, a.Fits) →
      (Disjointed (rect_list_subtract_short l B).1 ∧ covered (rect_list_subtract_short l B).1 = covered l \ B.pts ∧
        ((rect_list_subtract_short l B).2 = true ↔ covered (rect_list_subtract_short l B).1 ≠ covered l)) ∧
      Disjointed (rect_list_clip_short l B).1 ∧ covered (rect_list_clip_short l B).1 = covered l ∩ B.pts ∧
        ((rect_list_clip_short l B).2 = true ↔ covered (rect_list_clip_short l B).1 ≠ covered l) := by
  constructor
  · intro R
    rw [rect_subtract_short_eq hA hB hf]
    have ht := (subtractPieces_tiles A B hA hB).perm (List.reverse_perm _).symm
    obtain ⟨hsep, hcov⟩ := ht.disjointed
    exact ⟨_, rfl, hsep, hcov, subtractPieces_cut A B hA hB⟩
  · intro l hl hfits
    rw [rect_list_subtract_short_eq (fun a ha => ⟨hl.proper a ha, hfits a ha⟩) hB, rect_list_clip_short_eq hfits]
    obtain ⟨hsub, hsubcov⟩ := (rect_list_subtract_tiles hl.tiles hB).disjointed
    obtain ⟨hclip, hclipcov⟩ := (rect_list_clip_tiles (B := B) hl.tiles).disjointed
    refine ⟨⟨hsub, hsubcov, ?_⟩, hclip, hclipcov, ?_⟩
    · rw [rect_list_subtract_cut hl.tiles hB, hsubcov, ne_eq, sdiff_eq_left, Set.not_disjoint_iff]
    · rw [rect_list_clip_cut hl.tiles, hclipcov, ne_eq, Set.inter_eq_left, Set.not_subset]

/-- A hole in the middle of a rectangle. -/
theorem rect_subtract_exact_hole :
    ∃ l, (rect_subtract_short (rect_create 0 0 10 10) (rect_create 3 4 2 2) []).1 = l ++ [] ∧ Disjointed l ∧
      covered l = (rect_create 0 0 10 10).pts \ (rect_create 3 4 2 2).pts ∧
      ((rect_subtract_short (rect_create 0 0 10 10) (rect_create 3 4 2 2) []).2 = true ↔
        ((rect_create 0 0 10 10).pts ∩ (rect_create 3 4 2 2).pts).Nonempty) :=
  (rect_subtract_exact (rect_create 0 0 10 10) (rect_create 3 4 2 2) (by decide) (by decide)
    ⟨by decide, by decide, by decide, by decide, by decide, by decide⟩).1 []

end WWindowSystem
