import WWindowSystem.Graph.Line
import WWindowSystem.Library.Extents

namespace WWindowSystem.Graph

def flatPoint (o : Segment) (k : Nat) : Point :=
  (o.xa + k, o.ya + (if o.ye - o.ya < 0 then -1 else 1) *
    ((2 * k * |o.ye - o.ya| + (o.xe - o.xa)) / (2 * (o.xe - o.xa))))

def steepPoint (o : Segment) (k : Nat) : Point :=
  (o.xa + (2 * k * (o.xe - o.xa) + |o.ye - o.ya|) / (2 * |o.ye - o.ya|), o.ya + (if o.ye - o.ya < 0 then -1 else 1) * k)

def Segment.Steep (o : Segment) : Prop := o.xe - o.xa < |o.ye - o.ya|

instance (o : Segment) : Decidable o.Steep := inferInstanceAs (Decidable (_ < _))

def Segment.rest (o : Segment) : List Point :=
  if o.Steep then (List.range |o.ye - o.ya|.toNat).map fun k => steepPoint o (k + 1)
  else (List.range (o.xe - o.xa).toNat).map fun k => flatPoint o (k + 1)

def paints (paint : Paint) (bm : BITMAP) (l : List Point) (mem : Memory) : Memory :=
  l.foldl (fun mem p => paint p.1 p.2 (bm.pixel p.1 p.2) mem) mem

variable {paint first : Paint} {bm : BITMAP} {o : Segment} {mem : Memory}

def drifting (paint : Paint) (o : Segment) : Paint :=
  if o.Steep then fun _ y ptr mem => paint o.xa y ptr mem else fun x _ ptr mem => paint x o.ya ptr mem

theorem list_from (n : Nat) (k : Nat) {β : Type} (f : Nat → β) :
    (List.range (n + 1)).map (fun i => f (k + i)) = f k :: (List.range n).map fun i => f (k + 1 + i) := by
  rw [List.range_succ_eq_map, List.map_cons, List.map_map]
  congr 1
  apply List.map_congr_left
  intro i _
  simp only [Function.comp_apply, Nat.succ_eq_add_one]
  rw [Nat.add_right_comm, Nat.add_assoc]

theorem flat_step (bm : BITMAP) (hflat : ¬ o.Steep) (hpos : 0 < o.xe - o.xa) (k : Nat) :
    let yi : Int := if o.ye - o.ya < 0 then -1 else 1
    let dx := o.xe - o.xa
    let dy := |o.ye - o.ya|
    let delta := 2 * dx - (2 * k * dy + dx) % (2 * dx)
    let delta' := delta - (dy + dy)
    (if delta' ≤ 0 then delta' + (dx + dx) else delta') =
        2 * dx - (2 * ((k + 1 : Nat) : Int) * dy + dx) % (2 * dx) ∧
      (if delta' ≤ 0 then bm.pixel (flatPoint o k).1 (flatPoint o k).2 + 1 + yi * bm.upl
        else bm.pixel (flatPoint o k).1 (flatPoint o k).2 + 1) = bm.pixel (flatPoint o (k + 1)).1 (flatPoint o (k + 1)).2 := by
  intro yi dx dy delta delta'
  have hdy : 0 ≤ dy := abs_nonneg _
  have hle : dy ≤ dx := not_lt.mp hflat
  obtain ⟨hq, hr⟩ := quotient_step (a := 2 * k * dy + dx) (n := 2 * dy) (d := 2 * dx) (by omega) (by omega) (by omega)
  have hnext : 2 * ((k + 1 : Nat) : Int) * dy + dx = 2 * k * dy + dx + 2 * dy := by
    push_cast
    ring
  rw [hnext, hr]
  have hpoint : (flatPoint o (k + 1)).2 = o.ya + yi * ((2 * k * dy + dx + 2 * dy) / (2 * dx)) := by
    rw [← hnext]
    rfl
  have hcol : (flatPoint o (k + 1)).1 = (flatPoint o k).1 + 1 := by
    simp only [flatPoint]
    push_cast
    ring
  have hold : (flatPoint o k).2 = o.ya + yi * ((2 * k * dy + dx) / (2 * dx)) := rfl
  rw [hpoint, hcol, hold, hq]
  constructor
  · split_ifs <;> omega
  · by_cases hc : delta' ≤ 0
    · rw [if_pos hc, if_pos (by omega)]
      unfold BITMAP.pixel
      ring
    · rw [if_neg hc, if_neg (by omega)]
      unfold BITMAP.pixel
      ring

theorem flat_run (paint : Paint) (bm : BITMAP) (hflat : ¬ o.Steep) (j : Nat) {n k : Nat} (delta : Int) (hj : (k : Int) + j = o.xe - o.xa) (hn : j < n)
    (hdelta : 0 < o.xe - o.xa →
      delta = 2 * (o.xe - o.xa) - (2 * k * |o.ye - o.ya| + (o.xe - o.xa)) % (2 * (o.xe - o.xa))) (mem : Memory) :
    runLoop (flatTurn paint (if o.ye - o.ya < 0 then -bm.upl else bm.upl) (o.xe - o.xa + (o.xe - o.xa))
        (|o.ye - o.ya| + |o.ye - o.ya|) o.xe) n
        ⟨o.xa + k, o.ya, bm.pixel (flatPoint o k).1 (flatPoint o k).2, delta, mem⟩ =
      some (paints (fun x _ ptr mem => paint x o.ya ptr mem) bm ((List.range j).map fun i => flatPoint o (k + 1 + i)) mem) := by
  have hbpl : (if o.ye - o.ya < 0 then -bm.upl else bm.upl) = (if o.ye - o.ya < 0 then -1 else 1) * bm.upl := by
    split_ifs <;> ring
  induction j generalizing n k delta mem with
  | zero =>
    obtain ⟨n, rfl⟩ : ∃ m, n = m + 1 := ⟨n - 1, by omega⟩
    rw [runLoop, flatTurn, if_pos (by simp only; omega)]
    rfl
  | succ j ih =>
    obtain ⟨n, rfl⟩ : ∃ m, n = m + 1 := ⟨n - 1, by omega⟩
    have hpos : 0 < o.xe - o.xa := by omega
    obtain ⟨hd, hp⟩ := flat_step bm hflat hpos k
    have hdelta := hdelta hpos
    rw [runLoop, flatTurn, if_neg (by simp only; omega)]
    simp only [hdelta, hbpl, hp, hd]
    have hrun := ih (k := k + 1) (n := n) _ (by push_cast at hj ⊢; omega) (by omega) (fun _ => rfl)
      (paint (o.xa + k + 1) o.ya (bm.pixel (flatPoint o (k + 1)).1 (flatPoint o (k + 1)).2) mem)
    rw [hbpl] at hrun
    have hx : o.xa + ((k + 1 : Nat) : Int) = o.xa + k + 1 := by
      push_cast
      ring
    rw [hx] at hrun
    rw [hrun, list_from j (k + 1) (flatPoint o)]
    congr 1
    have hcol : (flatPoint o (k + 1)).1 = o.xa + k + 1 := hx
    rw [paints, paints, List.foldl_cons, hcol]

theorem steep_step (bm : BITMAP) (hdx : 0 ≤ o.xe - o.xa) (hsteep : o.Steep) (k : Nat) :
    let yi : Int := if o.ye - o.ya < 0 then -1 else 1
    let dx := o.xe - o.xa
    let dy := |o.ye - o.ya|
    let delta := 2 * dy - (2 * k * dx + dy) % (2 * dy)
    let delta' := delta - (dx + dx)
    (if delta' ≤ 0 then delta' + (dy + dy) else delta') =
        2 * dy - (2 * ((k + 1 : Nat) : Int) * dx + dy) % (2 * dy) ∧
      (if delta' ≤ 0 then bm.pixel (steepPoint o k).1 (steepPoint o k).2 + yi * bm.upl + 1
        else bm.pixel (steepPoint o k).1 (steepPoint o k).2 + yi * bm.upl) =
          bm.pixel (steepPoint o (k + 1)).1 (steepPoint o (k + 1)).2 := by
  intro yi dx dy delta delta'
  have hle : dx < dy := hsteep
  obtain ⟨hq, hr⟩ := quotient_step (a := 2 * k * dx + dy) (n := 2 * dx) (d := 2 * dy) (by omega) (by omega) (by omega)
  have hnext : 2 * ((k + 1 : Nat) : Int) * dx + dy = 2 * k * dx + dy + 2 * dx := by
    push_cast
    ring
  rw [hnext, hr]
  have hpoint : (steepPoint o (k + 1)).1 = o.xa + (2 * k * dx + dy + 2 * dx) / (2 * dy) := by
    rw [← hnext]
    rfl
  have hrow : (steepPoint o (k + 1)).2 = (steepPoint o k).2 + yi := by
    have hcast : ((k + 1 : Nat) : Int) = k + 1 := by push_cast; rfl
    change o.ya + yi * ((k + 1 : Nat) : Int) = o.ya + yi * k + yi
    rw [hcast]
    ring
  have hold : (steepPoint o k).1 = o.xa + (2 * k * dx + dy) / (2 * dy) := rfl
  rw [hpoint, hrow, hold, hq]
  constructor
  · split_ifs <;> omega
  · by_cases hc : delta' ≤ 0
    · rw [if_pos hc, if_pos (by omega)]
      unfold BITMAP.pixel
      ring
    · rw [if_neg hc, if_neg (by omega)]
      unfold BITMAP.pixel
      ring

theorem steep_last (o : Segment) (k : Nat) : (steepPoint o k).2 = o.ye ↔ (k : Int) = |o.ye - o.ya| := by
  simp only [steepPoint]
  split_ifs with hneg
  · rw [abs_of_neg hneg]
    omega
  · rw [abs_of_nonneg (by omega)]
    omega

theorem steep_run (paint : Paint) (bm : BITMAP) (hdx : 0 ≤ o.xe - o.xa) (hsteep : o.Steep) (j : Nat) {n k : Nat}
    (delta : Int) (hj : (k : Int) + j = |o.ye - o.ya|) (hn : j < n)
    (hdelta : delta = 2 * |o.ye - o.ya| - (2 * k * (o.xe - o.xa) + |o.ye - o.ya|) % (2 * |o.ye - o.ya|)) (mem : Memory) :
    runLoop (steepTurn paint (if o.ye - o.ya < 0 then -bm.upl else bm.upl) (if o.ye - o.ya < 0 then -1 else 1)
        (o.xe - o.xa + (o.xe - o.xa)) (|o.ye - o.ya| + |o.ye - o.ya|) o.ye) n
        ⟨o.xa, (steepPoint o k).2, bm.pixel (steepPoint o k).1 (steepPoint o k).2, delta, mem⟩ =
      some (paints (fun _ y ptr mem => paint o.xa y ptr mem) bm ((List.range j).map fun i => steepPoint o (k + 1 + i)) mem) := by
  have hbpl : (if o.ye - o.ya < 0 then -bm.upl else bm.upl) = (if o.ye - o.ya < 0 then -1 else 1) * bm.upl := by
    split_ifs <;> ring
  induction j generalizing n k delta mem with
  | zero =>
    obtain ⟨n, rfl⟩ : ∃ m, n = m + 1 := ⟨n - 1, by omega⟩
    rw [runLoop, steepTurn, if_pos (by rw [steep_last]; omega)]
    rfl
  | succ j ih =>
    obtain ⟨n, rfl⟩ : ∃ m, n = m + 1 := ⟨n - 1, by omega⟩
    obtain ⟨hd, hp⟩ := steep_step bm hdx hsteep k
    rw [runLoop, steepTurn, if_neg (by rw [steep_last]; omega)]
    simp only [hdelta, hbpl, hp, hd]
    have hy : (steepPoint o (k + 1)).2 = (steepPoint o k).2 + if o.ye - o.ya < 0 then -1 else 1 := by
      have hcast : ((k + 1 : Nat) : Int) = k + 1 := by push_cast; rfl
      simp only [steepPoint, hcast]
      ring
    have hrun := ih (k := k + 1) (n := n) _ (by push_cast at hj ⊢; omega) (by omega) rfl
      (paint o.xa (steepPoint o (k + 1)).2 (bm.pixel (steepPoint o (k + 1)).1 (steepPoint o (k + 1)).2) mem)
    rw [hbpl] at hrun
    rw [← hy, hrun, list_from j (k + 1) (steepPoint o)]
    rfl

theorem ordered_le (x0 y0 xe ye : Int) : 0 ≤ (ordered x0 y0 xe ye).xe - (ordered x0 y0 xe ye).xa := by
  unfold ordered
  split_ifs with h
  · simp only
    omega
  · simp only
    omega

theorem ordered_size (x0 y0 xe ye : Int) {n : Nat} (hn : (xe - x0).natAbs < n) (hm : (ye - y0).natAbs < n) :
    (ordered x0 y0 xe ye).xe - (ordered x0 y0 xe ye).xa < n ∧ |(ordered x0 y0 xe ye).ye - (ordered x0 y0 xe ye).ya| < n := by
  rw [abs_lt]
  unfold ordered
  split_ifs with h
  · simp only
    omega
  · simp only
    omega

theorem lineFrom_run (gc : WGC) (first paint : Paint) (FirstPoint : Bool) (bm : BITMAP) (ho : 0 ≤ o.xe - o.xa)
    (mem : Memory) {n : Nat} (hn : o.xe - o.xa < n) (hm : |o.ye - o.ya| < n) :
    lineFrom gc first paint n FirstPoint none bm o mem =
      (let mem := if FirstPoint then first o.xa o.ya (bm.pixel o.xa o.ya) mem else mem
       some (if gc.drawmode = .other then mem else paints (drifting paint o) bm o.rest mem)) := by
  unfold lineFrom
  simp only [LINE_NEEDS_CLIPPING, Bool.false_eq_true, if_false, sub_self, clipped_line_delta, if_true, Option.bind_some]
  change (if _ then _ else _) = some (if gc.drawmode = .other then _ else _)
  generalize hfirst : (if FirstPoint = true then first o.xa o.ya (bm.pixel o.xa o.ya) mem else mem) = m
  have hpixel : bm.data + o.ya * bm.upl + o.xa = bm.pixel o.xa o.ya := rfl
  rw [hpixel, hfirst]
  by_cases hother : gc.drawmode = .other
  · rw [if_pos hother, if_pos hother]
  rw [if_neg hother, if_neg hother]
  by_cases hsteep : o.Steep
  · rw [if_pos (show o.xe - o.xa < |o.ye - o.ya| from hsteep)]
    have hpos : 0 < |o.ye - o.ya| := lt_of_le_of_lt ho hsteep
    have hzero : |o.ye - o.ya| / (2 * |o.ye - o.ya|) = 0 := Int.ediv_eq_zero_of_lt hpos.le (by omega)
    have hstart : steepPoint o 0 = (o.xa, o.ya) := by simp [steepPoint, hzero]
    have hmod : |o.ye - o.ya| % (2 * |o.ye - o.ya|) = |o.ye - o.ya| := Int.emod_eq_of_lt hpos.le (by omega)
    have hrun := steep_run paint bm ho hsteep |o.ye - o.ya|.toNat (n := n) (k := 0)
      |o.ye - o.ya| (by omega) (by omega) (by simp only [Nat.cast_zero, mul_zero, zero_mul, zero_add, hmod]; omega) m
    rw [hstart] at hrun
    rw [hrun, drifting, if_pos hsteep, Segment.rest, if_pos hsteep]
    simp only [zero_add, add_comm 1]
  · rw [if_neg (show ¬ o.xe - o.xa < |o.ye - o.ya| from hsteep)]
    have hstart : flatPoint o 0 = (o.xa, o.ya) := by
      have hzero : (o.xe - o.xa) / (2 * (o.xe - o.xa)) = 0 := by
        rcases ho.eq_or_lt with h0 | hpos
        · rw [← h0]
          rfl
        · exact Int.ediv_eq_zero_of_lt ho (by omega)
      simp [flatPoint, hzero]
    have hrun := flat_run paint bm hsteep (o.xe - o.xa).toNat (n := n) (k := 0)
      (o.xe - o.xa) (by omega) (by omega) (by
        intro hpos
        have hmod : (o.xe - o.xa) % (2 * (o.xe - o.xa)) = o.xe - o.xa := Int.emod_eq_of_lt ho (by omega)
        simp only [Nat.cast_zero, mul_zero, zero_mul, zero_add, hmod]
        omega) m
    rw [hstart] at hrun
    simp only [Nat.cast_zero, add_zero] at hrun
    rw [hrun, drifting, if_neg hsteep, Segment.rest, if_neg hsteep]
    simp only [zero_add, add_comm 1]

end WWindowSystem.Graph
