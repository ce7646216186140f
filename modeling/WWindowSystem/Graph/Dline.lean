import WWindowSystem.Graph.LineRun

namespace WWindowSystem.Graph

open List

def direct8_dplot (glob_clip0 : Option Rec) (gc0 : WGC) (bm : BITMAP) (x0 y0 : Int) (mem : Memory) : Memory :=
  if CLIP_POINT x0 y0 glob_clip0 then mem
  else Function.update mem (bm.data + y0 * bm.upl + x0) (gc0.ink (gc0.bit x0 y0) (mem (bm.data + y0 * bm.upl + x0)))

def dvlineLoop (gc : WGC) (bit : BitVec 16) (bpl : Int) : Nat → Int → Int → Memory → Memory
  | 0, _, _, mem => mem
  | k + 1, y0, dst, mem =>
    dvlineLoop gc bit bpl k (y0 + 1) (dst + bpl)
      (Function.update mem dst (gc.ink (gc.pattern (y0 % 16).toNat &&& bit != 0#16) (mem dst)))

def direct8_dvline (glob_clip0 : Option Rec) (gc0 : WGC) (bm : BITMAP) (x0 y0 ye : Int) (mem : Memory) : Memory :=
  match CLIP_VLINE x0 (min y0 ye) (max y0 ye) glob_clip0 with
  | none => mem
  | some (y0, ye) =>
    dvlineLoop gc0 (0x8000#16 >>> (x0 % 16).toNat) bm.upl (ye - y0 + 1).toNat y0 (bm.data + y0 * bm.upl + x0) mem

def dhlineLoop (gc : WGC) (pat : BitVec 16) : Nat → Int → BitVec 16 → Memory → Memory
  | 0, _, _, mem => mem
  | k + 1, ptr, bit, mem =>
    dhlineLoop gc pat k (ptr + 1) (if bit >>> 1 = 0#16 then 0x8000#16 else bit >>> 1)
      (Function.update mem ptr (gc.ink (pat &&& bit != 0#16) (mem ptr)))

def direct8_dhline (glob_clip0 : Option Rec) (gc0 : WGC) (bm : BITMAP) (x0 y0 xe : Int) (mem : Memory) : Memory :=
  match CLIP_HLINE (min x0 xe) y0 (max x0 xe) glob_clip0 with
  | none => mem
  | some (x0, xe) =>
    dhlineLoop gc0 (gc0.pattern (y0 % 16).toNat) (xe - x0 + 1).toNat (bm.data + y0 * bm.upl + x0)
      (0x8000#16 >>> (x0 % 16).toNat) mem

def dplots (gc : WGC) (bm : BITMAP) (l : List Point) (mem : Memory) : Memory :=
  l.foldl (fun mem p => direct8_dplot none gc bm p.1 p.2 mem) mem

variable {gc : WGC} {bm : BITMAP} {mem : Memory}

theorem dvline_plots (x0 y0 ye : Int) : direct8_dvline none gc bm x0 y0 ye mem =
      dplots gc bm ((List.range (max y0 ye - min y0 ye + 1).toNat).map fun k : Nat => (x0, min y0 ye + (k : Int))) mem := by
  have hloop : ∀ (k : Nat) (y : Int) (mem : Memory),
      dvlineLoop gc (0x8000#16 >>> (x0 % 16).toNat) bm.upl k y (bm.data + y * bm.upl + x0) mem =
        dplots gc bm ((List.range k).map fun i : Nat => (x0, y + (i : Int))) mem := by
    intro k
    induction k with
    | zero => exact fun _ _ => rfl
    | succ k ih =>
      intro y mem
      have hptr : bm.data + y * bm.upl + x0 + bm.upl = bm.data + (y + 1) * bm.upl + x0 := by ring
      rw [dvlineLoop, hptr, ih, range_succ_eq_map, map_cons, dplots, dplots, foldl_cons, map_map]
      congr 1
      · simp only [direct8_dplot, CLIP_POINT, Bool.false_eq_true, if_false, Nat.cast_zero, add_zero]
        rfl
      · apply map_congr_left
        intro i _
        simp only [Function.comp_apply, Nat.cast_succ]
        rw [add_comm (i : Int), add_assoc]
  exact hloop _ _ _

theorem bit_next (x : Int) :
    (if 0x8000#16 >>> (x % 16).toNat >>> 1 = 0#16 then 0x8000#16 else 0x8000#16 >>> (x % 16).toNat >>> 1) =
      0x8000#16 >>> ((x + 1) % 16).toNat := by
  have htable : ∀ m : Fin 16, (if 0x8000#16 >>> m.val >>> 1 = 0#16 then 0x8000#16 else 0x8000#16 >>> m.val >>> 1) =
      0x8000#16 >>> ((m.val + 1) % 16) := by decide
  have hm := htable ⟨(x % 16).toNat, by omega⟩
  have hnext : ((x % 16).toNat + 1) % 16 = ((x + 1) % 16).toNat := by omega
  simp only at hm
  rw [hm, hnext]

theorem dhline_plots (x0 y0 xe : Int) : direct8_dhline none gc bm x0 y0 xe mem =
      dplots gc bm ((List.range (max x0 xe - min x0 xe + 1).toNat).map fun k : Nat => (min x0 xe + (k : Int), y0)) mem := by
  have hloop : ∀ (k : Nat) (x : Int) (mem : Memory),
      dhlineLoop gc (gc.pattern (y0 % 16).toNat) k (bm.data + y0 * bm.upl + x) (0x8000#16 >>> (x % 16).toNat) mem =
        dplots gc bm ((List.range k).map fun i : Nat => (x + (i : Int), y0)) mem := by
    intro k
    induction k with
    | zero => exact fun _ _ => rfl
    | succ k ih =>
      intro x mem
      rw [dhlineLoop, bit_next, add_assoc, ih, range_succ_eq_map, map_cons, dplots, dplots, foldl_cons,
        map_map]
      congr 1
      · simp only [direct8_dplot, CLIP_POINT, Bool.false_eq_true, if_false, Nat.cast_zero, add_zero]
        rfl
      · apply map_congr_left
        intro i _
        simp only [Function.comp_apply, Nat.cast_succ]
        rw [add_comm (i : Int), add_assoc]
  exact hloop _ _ _

def Segment.points (FirstPoint : Bool) (o : Segment) : List Point :=
  (if FirstPoint then [(o.xa, o.ya)] else []) ++ o.rest

/-- Where a patterned line looks up the bit of a pixel: the coordinate that its loop does not count is
the one of the first pixel. -/
def Segment.lookup (o : Segment) (p : Point) : Point := if o.Steep then (o.xa, p.2) else (p.1, o.ya)

def pixelOf (bm : BITMAP) (p : Point) : Int := bm.pixel p.1 p.2

theorem dplots_changes (gc : WGC) (bm : BITMAP) (l : List Point) (mem : Memory) :
    dplots gc bm l mem = changes (pixelOf bm) (fun p => gc.ink (gc.bit p.1 p.2)) l mem := rfl

theorem ink_other (h : gc.drawmode = .other) (bit : Bool) (old : BitVec 8) : gc.ink bit old = old := by
  unfold WGC.ink WGC.solid
  rw [h]
  cases bit <;> rfl

theorem changes_same {f : Point → BitVec 8 → BitVec 8} (hf : ∀ p old, f p old = old) (bm : BITMAP) (l : List Point)
    (mem : Memory) : changes (pixelOf bm) f l mem = mem := by
  induction l generalizing mem with
  | nil => rfl
  | cons p l ih =>
    rw [changes, foldl_cons, hf, Function.update_eq_self]
    exact ih mem

variable (FirstPoint : Bool)

theorem dline_changes (gc : WGC) (bm : BITMAP) (x0 y0 xe ye : Int) (mem : Memory) {n : Nat}
    (hn : (xe - x0).natAbs < n) (hm : (ye - y0).natAbs < n) : direct8_dline n FirstPoint none gc bm x0 y0 xe ye mem =
      some (changes (pixelOf bm) (fun p => gc.ink (gc.bit ((ordered x0 y0 xe ye).lookup p).1 ((ordered x0 y0 xe ye).lookup p).2))
        ((ordered x0 y0 xe ye).points FirstPoint) mem) := by
  have ho := ordered_le x0 y0 xe ye
  obtain ⟨hw, hh⟩ := ordered_size x0 y0 xe ye hn hm
  unfold direct8_dline
  generalize ordered x0 y0 xe ye = o at *
  rw [lineFrom_run gc _ _ FirstPoint bm ho mem hw hh]
  simp only
  by_cases hother : gc.drawmode = .other
  · rw [if_pos hother, changes_same (fun _ old => ink_other hother _ old)]
    simp only [ink_other hother, Function.update_eq_self, ite_self]
  · rw [if_neg hother, Segment.points, changes, foldl_append]
    have hfirst : o.lookup (o.xa, o.ya) = (o.xa, o.ya) := by
      unfold Segment.lookup
      split_ifs <;> rfl
    have hrest : ∀ m, paints (drifting (fun x0 y0 ptr mem => Function.update mem ptr (gc.ink (gc.bit x0 y0) (mem ptr))) o) bm
        o.rest m = changes (pixelOf bm) (fun p => gc.ink (gc.bit (o.lookup p).1 (o.lookup p).2)) o.rest m := by
      intro m
      unfold drifting Segment.lookup
      split_ifs <;> rfl
    rw [hrest]
    cases FirstPoint with
    | true =>
      simp only [if_true, foldl_cons, foldl_nil, hfirst]
      rfl
    | false => rfl

theorem line_changes (gc : WGC) (bm : BITMAP) (x0 y0 xe ye : Int) (mem : Memory) {n : Nat}
    (hn : (xe - x0).natAbs < n) (hm : (ye - y0).natAbs < n) (hmode : gc.drawmode ≠ .other) :
    direct8_line n FirstPoint none gc bm x0 y0 xe ye mem =
      some (changes (pixelOf bm) (fun _ => gc.solid) ((ordered x0 y0 xe ye).points FirstPoint) mem) := by
  have ho := ordered_le x0 y0 xe ye
  obtain ⟨hw, hh⟩ := ordered_size x0 y0 xe ye hn hm
  unfold direct8_line
  generalize ordered x0 y0 xe ye = o at *
  rw [lineFrom_run gc _ _ FirstPoint bm ho mem hw hh]
  simp only [if_neg hmode]
  rw [Segment.points, changes, foldl_append]
  have hrest : ∀ m, paints (drifting (fun _ _ ptr mem => Function.update mem ptr (gc.solid (mem ptr))) o) bm o.rest m =
      changes (pixelOf bm) (fun _ => gc.solid) o.rest m := by
    intro m
    unfold drifting
    split_ifs <;> rfl
  rw [hrest]
  cases FirstPoint <;> rfl

structure AsPlots (FirstPoint : Bool) (gc : WGC) (bm : BITMAP) (x0 y0 xe ye : Int) (mem : Memory) : Prop where
  line : gc.drawmode ≠ .other → ∃ m, ∀ n ≥ m, direct8_line n FirstPoint none gc bm x0 y0 xe ye mem =
    some (changes (pixelOf bm) (fun _ => gc.solid) ((ordered x0 y0 xe ye).points FirstPoint) mem)
  dline : ∃ m, ∀ n ≥ m, direct8_dline n FirstPoint none gc bm x0 y0 xe ye mem =
    some (dplots gc bm ((ordered x0 y0 xe ye).points FirstPoint) mem)
  dhline : direct8_dhline none gc bm x0 y0 xe mem =
    dplots gc bm ((List.range (max x0 xe - min x0 xe + 1).toNat).map fun k : Nat => (min x0 xe + (k : Int), y0)) mem
  dvline : direct8_dvline none gc bm x0 y0 ye mem =
    dplots gc bm ((List.range (max y0 ye - min y0 ye + 1).toNat).map fun k : Nat => (x0, min y0 ye + (k : Int))) mem

def BitsMatch (FirstPoint : Bool) (gc : WGC) (bm : BITMAP) (o : Segment) (mem : Memory) : Prop :=
  ∀ p ∈ o.points FirstPoint, gc.bit (o.lookup p).1 (o.lookup p).2 = gc.bit p.1 p.2 ∨
    gc.ink true (mem (pixelOf bm p)) = gc.ink false (mem (pixelOf bm p))

variable {o : Segment} {p : Point}

theorem flat_column (hflat : ¬ o.Steep) (hp : p ∈ o.rest) : o.xa < p.1 ∧ p.1 ≤ o.xe := by
  rw [Segment.rest, if_neg hflat] at hp
  obtain ⟨k, hk, rfl⟩ := mem_map.mp hp
  rw [mem_range] at hk
  simp only [flatPoint]
  push_cast
  omega

theorem steep_column (ho : 0 ≤ o.xe - o.xa) (hsteep : o.Steep) (hp : p ∈ o.rest) :
    p.2 ≠ o.ya ∧ o.xa ≤ p.1 ∧ p.1 ≤ o.xe := by
  have hpos : 0 < |o.ye - o.ya| := lt_of_le_of_lt ho hsteep
  rw [Segment.rest, if_pos hsteep] at hp
  obtain ⟨k, hk, rfl⟩ := mem_map.mp hp
  rw [mem_range] at hk
  have hk1 : ((k + 1 : Nat) : Int) ≤ |o.ye - o.ya| := by omega
  have hprod := mul_le_mul_of_nonneg_right hk1 ho
  have h0 := mul_nonneg (show 0 ≤ ((k + 1 : Nat) : Int) by omega) ho
  simp only [steepPoint]
  refine ⟨?_, ?_, ?_⟩
  · split_ifs <;> push_cast <;> omega
  · have := Int.ediv_nonneg (a := 2 * ((k + 1 : Nat) : Int) * (o.xe - o.xa) + |o.ye - o.ya|) (b := 2 * |o.ye - o.ya|)
      (by rw [mul_assoc]; omega) (by omega)
    omega
  · have hlt : (2 * ((k + 1 : Nat) : Int) * (o.xe - o.xa) + |o.ye - o.ya|) / (2 * |o.ye - o.ya|) < o.xe - o.xa + 1 := by
      apply Int.ediv_lt_of_lt_mul (by omega)
      calc 2 * ((k + 1 : Nat) : Int) * (o.xe - o.xa) + |o.ye - o.ya|
          = 2 * (((k + 1 : Nat) : Int) * (o.xe - o.xa)) + |o.ye - o.ya| := by ring
        _ < 2 * (|o.ye - o.ya| * (o.xe - o.xa)) + 2 * |o.ye - o.ya| := by omega
        _ = (o.xe - o.xa + 1) * (2 * |o.ye - o.ya|) := by ring
    omega

theorem rest_nodup : o.rest.Nodup := by
  unfold Segment.rest
  split_ifs
  · apply List.Nodup.map _ nodup_range
    intro k k' h
    have hrow := congrArg Prod.snd h
    simp only [steepPoint] at hrow
    split_ifs at hrow <;> push_cast at hrow <;> omega
  · apply List.Nodup.map _ nodup_range
    intro k k' h
    have hcol := congrArg Prod.fst h
    simp only [flatPoint] at hcol
    push_cast at hcol
    omega

theorem points_nodup {FirstPoint : Bool} (ho : 0 ≤ o.xe - o.xa) : (o.points FirstPoint).Nodup := by
  cases FirstPoint with
  | false => exact rest_nodup
  | true =>
    refine nodup_cons.mpr ⟨?_, rest_nodup⟩
    intro hp
    by_cases hsteep : o.Steep
    · exact (steep_column ho hsteep hp).1 rfl
    · exact absurd (flat_column hsteep hp).1 (lt_irrefl _)

theorem points_column {FirstPoint : Bool} (ho : 0 ≤ o.xe - o.xa) (hp : p ∈ o.points FirstPoint) :
    o.xa ≤ p.1 ∧ p.1 ≤ o.xe := by
  have hrest : p ∈ o.rest → o.xa ≤ p.1 ∧ p.1 ≤ o.xe := by
    intro hp
    by_cases hsteep : o.Steep
    · exact (steep_column ho hsteep hp).2
    · have := flat_column hsteep hp
      omega
  rcases mem_append.mp hp with hfirst | hp
  · cases FirstPoint with
    | false => cases hfirst
    | true =>
      obtain rfl := mem_singleton.mp hfirst
      simp only
      omega
  · exact hrest hp

theorem points_apart (bm : BITMAP) (ho : 0 ≤ o.xe - o.xa) (hx : 0 ≤ o.xa ∧ o.xe < bm.width) :
    ((o.points FirstPoint).map (pixelOf bm)).Nodup := by
  refine List.Nodup.map_on ?_ (points_nodup ho)
  intro p hp q hq h
  have hf := bm.fits
  have hpc := points_column ho hp
  have hqc := points_column ho hq
  unfold pixelOf BITMAP.pixel at h
  have he : p.2 * bm.upl + p.1 = q.2 * bm.upl + q.1 := by omega
  obtain ⟨hy, hx⟩ := row_major (by omega) (by omega) (by omega) (by omega) he
  exact Prod.ext hx hy

theorem asPlots_iff (gc : WGC) (bm : BITMAP) (x0 y0 xe ye : Int) (mem : Memory)
    (hx : 0 ≤ min x0 xe ∧ max x0 xe < bm.width) :
    AsPlots FirstPoint gc bm x0 y0 xe ye mem ↔ BitsMatch FirstPoint gc bm (ordered x0 y0 xe ye) mem := by
  have ho := ordered_le x0 y0 xe ye
  have hcols : 0 ≤ (ordered x0 y0 xe ye).xa ∧ (ordered x0 y0 xe ye).xe < bm.width := by
    unfold ordered
    split_ifs <;> simp only <;> omega
  have hchange := changes_eq_iff (f := fun p => gc.ink (gc.bit ((ordered x0 y0 xe ye).lookup p).1 ((ordered x0 y0 xe ye).lookup p).2))
    (g := fun p => gc.ink (gc.bit p.1 p.2)) (m := mem) (points_apart FirstPoint bm ho hcols)
  have hmatch : BitsMatch FirstPoint gc bm (ordered x0 y0 xe ye) mem ↔
      changes (pixelOf bm) (fun p => gc.ink (gc.bit ((ordered x0 y0 xe ye).lookup p).1 ((ordered x0 y0 xe ye).lookup p).2))
        ((ordered x0 y0 xe ye).points FirstPoint) mem =
      dplots gc bm ((ordered x0 y0 xe ye).points FirstPoint) mem := by
    rw [dplots_changes, hchange]
    apply forall₂_congr
    intro p _
    generalize gc.bit ((ordered x0 y0 xe ye).lookup p).1 ((ordered x0 y0 xe ye).lookup p).2 = b
    cases b <;> cases gc.bit p.1 p.2 <;> simp [eq_comm]
  have hrun := fun n (hn : (xe - x0).natAbs < n) hm => dline_changes FirstPoint gc bm x0 y0 xe ye mem (n := n) hn hm
  rw [hmatch]
  constructor
  · intro h
    obtain ⟨m, hm⟩ := h.dline
    have hplots := hm (m + (xe - x0).natAbs + (ye - y0).natAbs + 1) (by omega)
    rw [hrun _ (by omega) (by omega)] at hplots
    exact Option.some.inj hplots
  · intro h
    refine ⟨fun hmode => ?_, ?_, dhline_plots x0 y0 xe, dvline_plots x0 y0 ye⟩
    · exact ⟨(xe - x0).natAbs + (ye - y0).natAbs + 1, fun n hn =>
        line_changes FirstPoint gc bm x0 y0 xe ye mem (by omega) (by omega) hmode⟩
    · refine ⟨(xe - x0).natAbs + (ye - y0).natAbs + 1, fun n hn => ?_⟩
      rw [hrun n (by omega) (by omega), h]

theorem dline_asPlots (FirstPoint : Bool) (gc : WGC) (bm : BITMAP) (x0 y0 xe ye : Int) (mem : Memory)
    (hx : 0 ≤ min x0 xe ∧ max x0 xe < bm.width) :
    AsPlots FirstPoint gc bm x0 y0 xe ye mem ↔ BitsMatch FirstPoint gc bm (ordered x0 y0 xe ye) mem :=
  asPlots_iff FirstPoint gc bm x0 y0 xe ye mem hx

def firstColumn : WGC := ⟨.M_TRANSP, 1, 0, fun _ => 0x8000⟩

theorem dline_asPlots_upright : AsPlots true firstColumn ⟨0, 16, 16, 16, le_rfl⟩ 0 0 0 3 (fun _ => 0) ↔
      BitsMatch true firstColumn ⟨0, 16, 16, 16, le_rfl⟩ (ordered 0 0 0 3) (fun _ => 0) :=
  dline_asPlots true firstColumn ⟨0, 16, 16, 16, le_rfl⟩ 0 0 0 3 (fun _ => 0) (by decide)

/-- A steep line keeps to the first column of the pattern. -/
theorem dline_not_asPlots : ¬ AsPlots true firstColumn ⟨0, 16, 16, 16, le_rfl⟩ 0 0 1 2 (fun _ => 0) := by
  rw [asPlots_iff _ _ _ _ _ _ _ _ (by decide)]
  intro h
  have hmem : ((1, 1) : Point) ∈ (ordered 0 0 1 2).points true := by decide
  rcases h (1, 1) hmem with h | h
  · revert h
    decide
  · revert h
    decide

end WWindowSystem.Graph
