import Mathlib.Algebra.Order.Ring.Abs
import WWindowSystem.Graph.Clip
import WWindowSystem.Library.Extents

namespace WWindowSystem.Graph

open List Option

structure Rows where
  dx : Int
  dy : Int
  canvas : Canvas

def rowsTurn (n : Nat) (x0 y0 : Int) (out : Int → Int → Option Bool) (s : Rows) : Rows ⊕ Option Rows :=
  if s.dx = 0 then .inr (some s)
  else
    let dy := s.dy + 1
    match (runLoop (shrinkTurn fun dx => out dx dy) n s.dx).join with
    | none => .inr none
    | some dx =>
      match longs [x0 - dx, x0 + dx, y0 - dy, y0 + dy] with
      | none => .inr none
      | some _ =>
        .inl ⟨dx, dy, (s.canvas.draw (.hline (x0 - dx) (y0 - dy) (x0 + dx))).draw (.hline (x0 - dx) (y0 + dy) (x0 + dx))⟩

def circleOut (rq dx dy : Int) : Option Bool := do
  longs [dx * dx, dy * dy, dx * dx + dy * dy]
  return decide (dx * dx + dy * dy > rq)

def unclipped (s : Canvas) (x y wd ht : Int) : Canvas :=
  if BOX_NEEDS_CLIPPING x y wd ht s.glob_clip0 then s else { s with glob_clip0 := none }

def pcircle (n : Nat) (x0 y0 r : Int) (s : Canvas) : Option Canvas := do
  longs [r * r]
  let rq := r * r
  if r = 0 then return s.draw (.plot x0 y0)
  longs ([x0 - r, x0 - r - 1, y0 - r, y0 - r - 1, r + r, r + r + 2, x0 + r] ++
    boxValues (x0 - r - 1) (y0 - r - 1) (r + r + 2) (r + r + 2) s.glob_clip0)
  let t := (unclipped s (x0 - r - 1) (y0 - r - 1) (r + r + 2) (r + r + 2)).draw (.hline (x0 - r) y0 (x0 + r))
  let rows ← (runLoop (rowsTurn n x0 y0 (circleOut rq)) n ⟨r, 0, t⟩).join
  return { rows.canvas with glob_clip0 := s.glob_clip0 }

def ellipseOut (a b dd dx dy : Int) : Option Bool := do
  longs [dy * dy, dy * dy * a, dy * dy * a - dd, dx * dx, dx * dx * b, dx * dx * b + (dy * dy * a - dd)]
  let tmp := dy * dy * a - dd
  return decide (dx * dx * b + tmp > 0)

def pellipse (n : Nat) (x0 y0 rx ry : Int) (s : Canvas) : Option Canvas := do
  if rx = 0 then
    longs [y0 - ry, y0 + ry]
    return s.draw (.vline x0 (y0 - ry) (y0 + ry))
  if ry = 0 then
    longs [x0 - rx, x0 + rx]
    return s.draw (.hline (x0 - rx) y0 (x0 + rx))
  longs ([x0 - rx, x0 - rx - 1, y0 - ry, y0 - ry - 1, rx + rx, rx + rx + 2, ry + ry, ry + ry + 2, x0 + rx] ++
    boxValues (x0 - rx - 1) (y0 - ry - 1) (rx + rx + 2) (ry + ry + 2) s.glob_clip0)
  let t := (unclipped s (x0 - rx - 1) (y0 - ry - 1) (rx + rx + 2) (ry + ry + 2)).draw (.hline (x0 - rx) y0 (x0 + rx))
  longs [rx * rx, ry * ry, rx * rx * (ry * ry)]
  let a := rx * rx
  let b := ry * ry
  let dd := a * b
  let rows ← (runLoop (rowsTurn n x0 y0 (ellipseOut a b dd)) n ⟨rx, 0, t⟩).join
  if rows.dy < ry then
    let dy := rows.dy + 1
    longs [y0 - dy, y0 - ry, y0 + dy, y0 + ry]
    return { (rows.canvas.draw (.vline x0 (y0 - dy) (y0 - ry))).draw (.vline x0 (y0 + dy) (y0 + ry)) with
      glob_clip0 := s.glob_clip0 }
  return { rows.canvas with glob_clip0 := s.glob_clip0 }

variable {inside : Int → Int → Prop} {n : Nat} {x0 y0 : Int} {out : Int → Int → Option Bool}

structure Rows.Drawn (inside : Int → Int → Prop) (x0 y0 : Int) (s : Rows) : Prop where
  extent : Extent inside s.dx s.dy
  nonneg : 0 ≤ s.dy
  rows : ∀ p, s.canvas.hits p = 1 ∧ |p.2 - y0| ≤ s.dy ∧ inside (p.1 - x0) (p.2 - y0) ∨
    s.canvas.hits p = 0 ∧ ¬ (|p.2 - y0| ≤ s.dy ∧ inside (p.1 - x0) (p.2 - y0))

variable {dx : Int}

theorem passes_row (x0 y0 : Int) (p : Point) (dy : Int) (hdx : 0 ≤ dx) :
    (Stroke.hline (x0 - dx) (y0 + dy) (x0 + dx)).passes p = true ↔ p.2 - y0 = dy ∧ |p.1 - x0| ≤ dx := by
  simp only [Stroke.passes, Bool.decide_and, Bool.and_eq_true, decide_eq_true_eq, abs_le]
  omega

variable {s : Rows}

theorem rows_next (hs : Spread inside) (h : s.Drawn inside x0 y0) (he : Extent inside dx (s.dy + 1)) :
    Rows.Drawn inside x0 y0 ⟨dx, s.dy + 1, (s.canvas.draw (.hline (x0 - dx) (y0 - (s.dy + 1)) (x0 + dx))).draw
      (.hline (x0 - dx) (y0 + (s.dy + 1)) (x0 + dx))⟩ := by
  have hdy := h.nonneg
  refine ⟨he, by simp only; omega, ?_⟩
  intro p
  have hup : (Stroke.hline (x0 - dx) (y0 - (s.dy + 1)) (x0 + dx)).passes p = true ↔
      p.2 - y0 = -(s.dy + 1) ∧ |p.1 - x0| ≤ dx := passes_row x0 y0 p _ he.nonneg
  have hdown := passes_row x0 y0 p (s.dy + 1) he.nonneg
  have hrow : |p.2 - y0| = |s.dy + 1| → (inside (p.1 - x0) (p.2 - y0) ↔ |p.1 - x0| ≤ dx) := he.iff hs
  simp only [Canvas.hits_draw]
  have hold := h.rows p
  rcases lt_trichotomy |p.2 - y0| (s.dy + 1) with hlt | heq | hgt
  · have h1 : (Stroke.hline (x0 - dx) (y0 - (s.dy + 1)) (x0 + dx)).passes p = false := by
      rw [Bool.eq_false_iff, ne_eq, hup]
      rintro ⟨hp, -⟩
      rw [hp, abs_neg, abs_of_nonneg (by omega)] at hlt
      omega
    have h2 : (Stroke.hline (x0 - dx) (y0 + (s.dy + 1)) (x0 + dx)).passes p = false := by
      rw [Bool.eq_false_iff, ne_eq, hdown]
      rintro ⟨hp, -⟩
      rw [hp, abs_of_nonneg (by omega)] at hlt
      omega
    rw [h1, h2]
    rcases hold with ⟨hc, hd, hi⟩ | ⟨hc, hn⟩
    · exact .inl ⟨by simpa using hc, by omega, hi⟩
    · exact .inr ⟨by simpa using hc, fun hx => hn ⟨by omega, hx.2⟩⟩
  · have hzero : s.canvas.hits p = 0 := by
      rcases hold with ⟨-, hd, -⟩ | ⟨hc, -⟩
      · omega
      · exact hc
    have hin := hrow (by rw [heq, abs_of_nonneg (by omega)])
    have hside : p.2 - y0 = s.dy + 1 ∨ p.2 - y0 = -(s.dy + 1) := by
      rcases abs_cases (p.2 - y0) with ⟨ha, -⟩ | ⟨ha, -⟩ <;> omega
    rw [hzero]
    by_cases hx : |p.1 - x0| ≤ dx
    · left
      refine ⟨?_, heq.le, hin.mpr hx⟩
      rcases hside with hp | hp
      · rw [if_neg (by rw [hup]; omega), if_pos (hdown.mpr ⟨hp, hx⟩)]
      · rw [if_pos (hup.mpr ⟨hp, hx⟩), if_neg (by rw [hdown]; omega)]
    · right
      refine ⟨?_, fun h => hx (hin.mp h.2)⟩
      rw [if_neg (by rw [hup]; exact fun h => hx h.2), if_neg (by rw [hdown]; exact fun h => hx h.2)]
  · have hzero : s.canvas.hits p = 0 := by
      rcases hold with ⟨-, hd, -⟩ | ⟨hc, -⟩
      · omega
      · exact hc
    right
    refine ⟨?_, fun h => by omega⟩
    have h1 : ¬ (Stroke.hline (x0 - dx) (y0 - (s.dy + 1)) (x0 + dx)).passes p = true := by
      rw [hup]
      rintro ⟨hp, -⟩
      rw [hp, abs_neg, abs_of_nonneg (by omega)] at hgt
      omega
    have h2 : ¬ (Stroke.hline (x0 - dx) (y0 + (s.dy + 1)) (x0 + dx)).passes p = true := by
      rw [hdown]
      rintro ⟨hp, -⟩
      rw [hp, abs_of_nonneg (by omega)] at hgt
      omega
    rw [hzero, if_neg h1, if_neg h2]

theorem Rows.Drawn.dy_le (hs : Spread inside) {ry : Int} (h : s.Drawn inside x0 y0)
    (hry : ∀ v, inside 0 v ↔ |v| ≤ ry) : s.dy ≤ ry := by
  have hin : inside 0 s.dy := hs _ _ _ _ (by rw [abs_zero]; exact abs_nonneg _) le_rfl h.extent.last
  rw [hry] at hin
  exact (le_abs_self _).trans hin

theorem shrink_row {dx dy : Int} (hs : Spread inside) (h : Extent inside dx dy) (hdy : 0 ≤ dy) (hzero : inside 0 (dy + 1))
    (hout : ∀ d, 0 ≤ d → d ≤ dx → ∃ b, out d (dy + 1) = some b ∧ (b = true ↔ ¬ inside d (dy + 1))) (hn : dx.toNat < n) :
    ∃ d, runLoop (shrinkTurn fun d => out d (dy + 1)) n dx = some (some d) ∧ Extent inside d (dy + 1) ∧ d ≤ dx := by
  have hdx := h.nonneg
  have hnext : ¬ inside (dx + 1) (dy + 1) := by
    apply h.outside hs
    · rw [abs_of_nonneg (by omega)]
      omega
    · rw [abs_of_nonneg hdy, abs_of_nonneg (by omega)]
      omega
  exact shrink_extent hs hout hdx hnext hzero hn

theorem rows_turn (hs : Spread inside) {rx ry : Int} (h : s.Drawn inside x0 y0) (hrx : s.dx ≤ rx)
    (hry : ∀ v, inside 0 v ↔ |v| ≤ ry) (hone : ∀ v, inside 1 v → |v| < ry)
    (hout : ∀ d e, 0 ≤ d → d ≤ rx → 0 ≤ e → e ≤ ry → ∃ b, out d e = some b ∧ (b = true ↔ ¬ inside d e))
    (hx : -2 ^ 63 ≤ x0 - rx ∧ x0 + rx < 2 ^ 63) (hy : -2 ^ 63 ≤ y0 - ry ∧ y0 + ry < 2 ^ 63) (hn : rx.toNat < n)
    (h0 : s.dx ≠ 0) : ∃ t : Rows, rowsTurn n x0 y0 out s = .inl t ∧ t.Drawn inside x0 y0 ∧ t.dx ≤ rx ∧
      (ry - t.dy).toNat < (ry - s.dy).toNat := by
  have hdx := h.extent.nonneg
  have hdy := h.nonneg
  -- the row is wider than one column, so there is another row in the figure
  have hin : inside 1 s.dy := hs _ _ _ _ (by rw [abs_of_nonneg hdx, abs_of_nonneg (by decide : (0 : Int) ≤ 1)]; omega) le_rfl h.extent.last
  have hlt := hone _ hin
  rw [abs_of_nonneg hdy] at hlt
  have hzero : inside 0 (s.dy + 1) := (hry _).mpr (by rw [abs_of_nonneg (by omega)]; omega)
  obtain ⟨d, hd, hext, hle⟩ := shrink_row (n := n) hs h.extent hdy hzero
    (fun d h0 hd => hout d (s.dy + 1) h0 (by omega) (by omega) (by omega)) (by omega)
  have hd0 := hext.nonneg
  have hlongs : longs [x0 - d, x0 + d, y0 - (s.dy + 1), y0 + (s.dy + 1)] = some () := by
    apply longs_eq
    simp only [forall_mem_cons, not_mem_nil, false_imp_iff, implies_true, and_true]
    omega
  refine ⟨_, ?_, rows_next hs h hext, by simp only; omega, by simp only; omega⟩
  simp only [rowsTurn, if_neg h0, hd, join_some, hlongs]

theorem rows_run (hs : Spread inside) {rx ry : Int} (h : s.Drawn inside x0 y0) (hrx : s.dx ≤ rx)
    (hry : ∀ v, inside 0 v ↔ |v| ≤ ry) (hone : ∀ v, inside 1 v → |v| < ry)
    (hout : ∀ d e, 0 ≤ d → d ≤ rx → 0 ≤ e → e ≤ ry → ∃ b, out d e = some b ∧ (b = true ↔ ¬ inside d e))
    (hx : -2 ^ 63 ≤ x0 - rx ∧ x0 + rx < 2 ^ 63) (hy : -2 ^ 63 ≤ y0 - ry ∧ y0 + ry < 2 ^ 63)
    (hn : rx.toNat < n) (hm : ry.toNat < n) :
    ∃ t : Rows, runLoop (rowsTurn n x0 y0 out) n s = some (some t) ∧ t.Drawn inside x0 y0 ∧ t.dx = 0 ∧ t.dy ≤ ry := by
  have hloop : ∃ r, runLoop (rowsTurn n x0 y0 out) n s = some r ∧
      ∃ t : Rows, r = some t ∧ t.Drawn inside x0 y0 ∧ t.dx = 0 ∧ t.dy ≤ ry :=
    runLoop_spec (fun s : Rows => s.Drawn inside x0 y0 ∧ s.dx ≤ rx) (fun s => (ry - s.dy).toNat) _ ?_ ?_ ⟨h, hrx⟩
      (by have := h.nonneg; omega)
  · obtain ⟨_, hr, t, rfl, ht⟩ := hloop
    exact ⟨t, hr, ht⟩
  · rintro s s' ⟨hd, hle⟩ hturn
    obtain ⟨t, ht, hdrawn, htx, hlt⟩ := rows_turn hs hd hle hry hone hout hx hy hn (s := s) (by
      intro h0
      rw [rowsTurn, if_pos h0] at hturn
      cases hturn)
    rw [ht] at hturn
    obtain rfl := Sum.inl.inj hturn
    exact ⟨⟨hdrawn, htx⟩, by omega⟩
  · rintro s r ⟨hd, hle⟩ hturn
    by_cases h0 : s.dx = 0
    · rw [rowsTurn, if_pos h0] at hturn
      obtain rfl := Sum.inr.inj hturn
      exact ⟨s, rfl, hd, h0, hd.dy_le hs hry⟩
    · obtain ⟨t, ht, -⟩ := rows_turn hs hd hle hry hone hout hx hy hn h0
      rw [ht] at hturn
      cases hturn

theorem rows_start (x0 y0 : Int) (hs : Spread inside) (h : Extent inside dx 0) {t : Canvas} (ht : ∀ p, t.hits p = 0) :
    Rows.Drawn inside x0 y0 ⟨dx, 0, t.draw (.hline (x0 - dx) y0 (x0 + dx))⟩ := by
  refine ⟨h, le_rfl, ?_⟩
  intro p
  have hrow := passes_row x0 y0 p 0 h.nonneg
  rw [add_zero] at hrow
  simp only [Canvas.hits_draw, ht, zero_add]
  by_cases hp : (Stroke.hline (x0 - dx) y0 (x0 + dx)).passes p = true
  · obtain ⟨hy, hx⟩ := hrow.mp hp
    exact .inl ⟨if_pos hp, by rw [hy, abs_zero], (h.iff hs (by rw [hy])).mpr hx⟩
  · refine .inr ⟨if_neg hp, ?_⟩
    rintro ⟨hy, hin⟩
    have hy : p.2 - y0 = 0 := abs_nonpos_iff.mp hy
    exact hp (hrow.mpr ⟨hy, (h.iff hs (by rw [hy])).mp hin⟩)

def Canvas.Fills (inside : Int → Int → Prop) (x0 y0 : Int) (s : Canvas) : Prop :=
  ∀ p, s.hits p = 1 ∧ inside (p.1 - x0) (p.2 - y0) ∨ s.hits p = 0 ∧ ¬ inside (p.1 - x0) (p.2 - y0)

theorem rows_fill (h : s.Drawn inside x0 y0) (hall : ∀ u v, inside u v → |v| ≤ s.dy) :
    s.canvas.Fills inside x0 y0 := by
  intro p
  rcases h.rows p with ⟨hc, -, hin⟩ | ⟨hc, hn⟩
  · exact .inl ⟨hc, hin⟩
  · exact .inr ⟨hc, fun hin => hn ⟨hall _ _ hin, hin⟩⟩

theorem rows_tail (hs : Spread inside) {ry : Int} (hry : ∀ v, inside 0 v ↔ |v| ≤ ry)
    (h : s.Drawn inside x0 y0) (h0 : s.dx = 0) (hlt : s.dy < ry) :
    ((s.canvas.draw (.vline x0 (y0 - (s.dy + 1)) (y0 - ry))).draw (.vline x0 (y0 + (s.dy + 1)) (y0 + ry))).Fills
      inside x0 y0 := by
  intro p
  have hdy := h.nonneg
  have hcol : s.dy < |p.2 - y0| → (inside (p.1 - x0) (p.2 - y0) ↔ p.1 = x0 ∧ |p.2 - y0| ≤ ry) := by
    intro hv
    constructor
    · intro hin
      have hu : ¬ s.dx < |p.1 - x0| := fun hu =>
        h.extent.outside hs hu (by rw [abs_of_nonneg hdy]; omega) hin
      have hz : p.1 - x0 = 0 := abs_nonpos_iff.mp (by omega)
      rw [hz, hry] at hin
      exact ⟨by omega, hin⟩
    · rintro ⟨hx, hy⟩
      rw [hx, sub_self]
      exact (hry _).mpr hy
  have hup : (Stroke.vline x0 (y0 - (s.dy + 1)) (y0 - ry)).passes p = true ↔
      p.1 = x0 ∧ y0 - ry ≤ p.2 ∧ p.2 ≤ y0 - (s.dy + 1) := by
    simp only [Stroke.passes, Bool.decide_and, Bool.and_eq_true, decide_eq_true_eq]
    omega
  have hdown : (Stroke.vline x0 (y0 + (s.dy + 1)) (y0 + ry)).passes p = true ↔
      p.1 = x0 ∧ y0 + (s.dy + 1) ≤ p.2 ∧ p.2 ≤ y0 + ry := by
    simp only [Stroke.passes, Bool.decide_and, Bool.and_eq_true, decide_eq_true_eq]
    omega
  simp only [Canvas.hits_draw, hup, hdown]
  rcases h.rows p with ⟨hc, hd, hin⟩ | ⟨hc, hn⟩
  · rw [abs_le] at hd
    exact .inl ⟨by rw [hc, if_neg (by omega), if_neg (by omega)], hin⟩
  · rw [hc]
    by_cases hv : s.dy < |p.2 - y0|
    · rw [hcol hv, abs_le]
      rw [lt_abs] at hv
      by_cases hx : p.1 = x0 ∧ -ry ≤ p.2 - y0 ∧ p.2 - y0 ≤ ry
      · left
        refine ⟨?_, hx⟩
        rcases hv with hv | hv
        · rw [if_neg (by omega), if_pos (by omega)]
        · rw [if_pos (by omega), if_neg (by omega)]
      · right
        exact ⟨by rw [if_neg (by omega), if_neg (by omega)], hx⟩
    · right
      rw [not_lt] at hv
      refine ⟨?_, fun hin => hn ⟨hv, hin⟩⟩
      rw [abs_le] at hv
      rw [if_neg (by omega), if_neg (by omega)]

def InDisc (r u v : Int) : Prop := u * u + v * v ≤ r * r

def InEllipse (rx ry u v : Int) : Prop :=
  u * u * (ry * ry) + v * v * (rx * rx) ≤ rx * rx * (ry * ry) ∧ |u| ≤ rx ∧ |v| ≤ ry

theorem disc_spread (r : Int) : Spread (InDisc r) := by
  intro u v u' v' hu hv h
  rw [abs_le_iff_mul_self_le] at hu hv
  unfold InDisc at h ⊢
  omega

theorem ellipse_spread (rx ry : Int) : Spread (InEllipse rx ry) := by
  rintro u v u' v' hu hv ⟨h, hx, hy⟩
  refine ⟨?_, hu.trans hx, hv.trans hy⟩
  rw [abs_le_iff_mul_self_le] at hu hv
  have h1 := mul_le_mul_of_nonneg_right hu (mul_self_nonneg ry)
  have h2 := mul_le_mul_of_nonneg_right hv (mul_self_nonneg rx)
  omega

variable {r rx ry : Int}

theorem square_le {d : Int} (h0 : 0 ≤ d) (h : d ≤ r) : 0 ≤ d * d ∧ d * d ≤ r * r :=
  ⟨mul_self_nonneg d, mul_self_le_mul_self h0 h⟩

theorem square_short {d : Int} (h0 : 0 ≤ d) (h : d ≤ 32767) : d * d ≤ 1073676289 :=
  (mul_self_le_mul_self h0 h).trans (by decide)

variable {d e : Int}

theorem circleOut_iff (hr : r ≤ 32767) (hd : 0 ≤ d) (hdr : d ≤ r) (he : 0 ≤ e) (her : e ≤ r) :
    ∃ b, circleOut (r * r) d e = some b ∧ (b = true ↔ ¬ InDisc r d e) := by
  have hdd := square_short hd (hdr.trans hr)
  have hee := square_short he (her.trans hr)
  have hd0 := mul_self_nonneg d
  have he0 := mul_self_nonneg e
  have hlongs : longs [d * d, e * e, d * d + e * e] = some () := by
    apply longs_eq
    simp only [forall_mem_cons, not_mem_nil, false_imp_iff, implies_true, and_true]
    omega
  refine ⟨_, by simp only [circleOut, hlongs]; rfl, ?_⟩
  rw [decide_eq_true_eq, InDisc, not_le]

theorem ellipse_terms (hd : 0 ≤ d) (hdx : d ≤ rx) (he : 0 ≤ e) (hey : e ≤ ry) :
    0 ≤ d * d * (ry * ry) ∧ d * d * (ry * ry) ≤ rx * rx * (ry * ry) ∧
    0 ≤ e * e * (rx * rx) ∧ e * e * (rx * rx) ≤ rx * rx * (ry * ry) := by
  obtain ⟨hd0, hd⟩ := square_le hd hdx
  obtain ⟨he0, he⟩ := square_le he hey
  have hx := mul_self_nonneg rx
  have hy := mul_self_nonneg ry
  refine ⟨mul_nonneg hd0 hy, mul_le_mul_of_nonneg_right hd hy, mul_nonneg he0 hx, ?_⟩
  rw [mul_comm (rx * rx)]
  exact mul_le_mul_of_nonneg_right he hx

theorem square_thick {d : Int} (h0 : 0 ≤ d) (h : d ≤ 49150) : d * d ≤ 2415722500 :=
  (mul_self_le_mul_self h0 h).trans (by decide)

theorem ellipse_bound (hx0 : 0 ≤ rx) (hx : rx ≤ 49150) (hy0 : 0 ≤ ry) (hy : ry ≤ 49150) :
    rx * rx * (ry * ry) ≤ 5835715197006250000 := by
  have hxx := square_thick hx0 hx
  have hyy := square_thick hy0 hy
  calc rx * rx * (ry * ry) ≤ 2415722500 * (ry * ry) := mul_le_mul_of_nonneg_right hxx (mul_self_nonneg ry)
    _ ≤ 2415722500 * 2415722500 := mul_le_mul_of_nonneg_left hyy (by decide)
    _ = 5835715197006250000 := by decide

theorem ellipseOut_iff (hx : rx ≤ 49150) (hy : ry ≤ 49150) (hd : 0 ≤ d) (hdx : d ≤ rx) (he : 0 ≤ e)
    (hey : e ≤ ry) :
    ∃ b, ellipseOut (rx * rx) (ry * ry) (rx * rx * (ry * ry)) d e = some b ∧ (b = true ↔ ¬ InEllipse rx ry d e) := by
  obtain ⟨h1, h2, h3, h4⟩ := ellipse_terms hd hdx he hey
  have hbound := ellipse_bound (hd.trans hdx) hx (he.trans hey) hy
  have hdd := square_thick hd (hdx.trans hx)
  have hee := square_thick he (hey.trans hy)
  have hd0 := mul_self_nonneg d
  have he0 := mul_self_nonneg e
  have hlongs : longs [e * e, e * e * (rx * rx), e * e * (rx * rx) - rx * rx * (ry * ry), d * d, d * d * (ry * ry),
      d * d * (ry * ry) + (e * e * (rx * rx) - rx * rx * (ry * ry))] = some () := by
    apply longs_eq
    simp only [forall_mem_cons, not_mem_nil, false_imp_iff, implies_true, and_true]
    omega
  refine ⟨_, by simp only [ellipseOut, hlongs]; rfl, ?_⟩
  have habs : |d| ≤ rx ∧ |e| ≤ ry := by
    rw [abs_of_nonneg hd, abs_of_nonneg he]
    exact ⟨hdx, hey⟩
  rw [decide_eq_true_eq, InEllipse, and_iff_left habs]
  omega

theorem disc_zero (hr : 0 ≤ r) (v : Int) : InDisc r 0 v ↔ |v| ≤ r := by
  have habs : |v| ≤ |r| ↔ v * v ≤ r * r := abs_le_iff_mul_self_le
  rw [abs_of_nonneg hr] at habs
  rw [InDisc, habs, mul_zero, zero_add]

theorem disc_one (hr : 0 < r) (v : Int) : InDisc r 1 v ↔ |v| < r := by
  have habs : |v| < |r| ↔ v * v < r * r := abs_lt_iff_mul_self_lt
  rw [abs_of_pos hr] at habs
  rw [InDisc, habs, mul_one]
  omega

theorem disc_extent (hr : 0 ≤ r) : Extent (InDisc r) r 0 := by
  refine ⟨hr, by simp [InDisc], ?_⟩
  unfold InDisc
  nlinarith

theorem ellipse_zero (hx : 0 < rx) (hy : 0 ≤ ry) (v : Int) : InEllipse rx ry 0 v ↔ |v| ≤ ry := by
  constructor
  · exact fun h => h.2.2
  · intro hv
    refine ⟨?_, by rw [abs_zero]; exact hx.le, hv⟩
    rw [← abs_of_nonneg hy, abs_le_iff_mul_self_le] at hv
    rw [mul_zero, zero_mul, zero_add, mul_comm (rx * rx)]
    exact mul_le_mul_of_nonneg_right hv (mul_self_nonneg rx)

theorem ellipse_one (hx : 0 < rx) (hy : 0 < ry) (v : Int) (h : InEllipse rx ry 1 v) : |v| < ry := by
  have habs : |v| < |ry| ↔ v * v < ry * ry := abs_lt_iff_mul_self_lt
  rw [abs_of_pos hy] at habs
  rw [habs]
  have hyy := mul_pos hy hy
  have hlt : v * v * (rx * rx) < ry * ry * (rx * rx) := by
    rw [mul_comm (ry * ry)]
    have := h.1
    omega
  exact lt_of_mul_lt_mul_right hlt (mul_self_nonneg rx)

theorem ellipse_extent (hx : 0 ≤ rx) (hy : 0 ≤ ry) : Extent (InEllipse rx ry) rx 0 := by
  refine ⟨hx, ⟨by simp, (abs_of_nonneg hx).le, by simpa using hy⟩, ?_⟩
  rintro ⟨-, h, -⟩
  rw [abs_of_nonneg (by omega)] at h
  omega

theorem unclipped_calls (s : Canvas) (x y wd ht : Int) : (unclipped s x y wd ht).calls = s.calls := by
  unfold unclipped
  split_ifs <;> rfl

def ClipShorts (cl : Option Rec) : Prop :=
  ∀ R, cl = some R → -32768 ≤ R.x0 ∧ R.x0 ≤ 32767 ∧ -32768 ≤ R.y0 ∧ R.y0 ≤ 32767

variable {cl : Option Rec}

theorem boxValues_longs (hcl : ClipShorts cl) {x y wd ht : Int} (hx : -2 ^ 63 + 2 ^ 17 ≤ x ∧ x ≤ 2 ^ 63 - 2 ^ 18)
    (hy : -2 ^ 63 + 2 ^ 17 ≤ y ∧ y ≤ 2 ^ 63 - 2 ^ 18) (hw : 0 ≤ wd ∧ wd ≤ 2 ^ 17) (hh : 0 ≤ ht ∧ ht ≤ 2 ^ 17) :
    ∀ z ∈ boxValues x y wd ht cl, -2 ^ 63 ≤ z ∧ z < 2 ^ 63 := by
  cases cl with
  | none => simp [boxValues]
  | some R =>
    have hR := hcl R rfl
    simp only [boxValues, forall_mem_cons, not_mem_nil, false_imp_iff, implies_true, and_true]
    omega

def Center (x0 y0 : Int) : Prop :=
  -2 ^ 63 + 2 ^ 18 ≤ x0 ∧ x0 ≤ 2 ^ 63 - 2 ^ 18 ∧ -2 ^ 63 + 2 ^ 18 ≤ y0 ∧ y0 ≤ 2 ^ 63 - 2 ^ 18

theorem start_longs (hcl : ClipShorts cl) (hc : Center x0 y0) (hx : 0 ≤ rx ∧ rx ≤ 32767)
    (hy : 0 ≤ ry ∧ ry ≤ 32767) {l : List Int} (hl : ∀ z ∈ l, -2 ^ 63 ≤ z ∧ z < 2 ^ 63) :
    longs (l ++ boxValues (x0 - rx - 1) (y0 - ry - 1) (rx + rx + 2) (ry + ry + 2) cl) = some () := by
  apply longs_eq
  intro z hz
  obtain ⟨h1, h2, h3, h4⟩ := hc
  rcases mem_append.mp hz with hz | hz
  · exact hl z hz
  · exact boxValues_longs hcl (by omega) (by omega) (by omega) (by omega) z hz

theorem stroke_fills {c : Stroke} (h : ∀ p : Point, inside (p.1 - x0) (p.2 - y0) ↔ c.passes p = true) :
    (Canvas.draw ⟨cl, []⟩ c).Fills inside x0 y0 := by
  intro p
  rw [h p, Canvas.hits_draw]
  by_cases hp : c.passes p = true
  · exact .inl ⟨by rw [if_pos hp]; rfl, hp⟩
  · exact .inr ⟨by rw [if_neg hp]; rfl, hp⟩

theorem pcircle_fills (hcl : ClipShorts cl) (hc : Center x0 y0) (hr : 0 ≤ r ∧ r ≤ 32767)
    (hn : r.toNat < n) : ∃ s, pcircle n x0 y0 r ⟨cl, []⟩ = some s ∧ s.Fills (InDisc r) x0 y0 := by
  have hsq := square_short hr.1 hr.2
  have hrr : longs [r * r] = some () := by
    apply longs_eq
    have := mul_self_nonneg r
    simp only [forall_mem_cons, not_mem_nil, false_imp_iff, implies_true, and_true]
    omega
  unfold pcircle
  simp only [hrr, bind_eq_bind, bind_some]
  split_ifs with h0
  · subst h0
    refine ⟨_, rfl, stroke_fills fun p => ?_⟩
    have h1 := mul_self_nonneg (p.1 - x0)
    have h2 := mul_self_nonneg (p.2 - y0)
    rw [InDisc, Stroke.passes, decide_eq_true_eq, Prod.ext_iff]
    constructor
    · intro h
      have hx := mul_self_eq_zero.mp (by omega : (p.1 - x0) * (p.1 - x0) = 0)
      have hy := mul_self_eq_zero.mp (by omega : (p.2 - y0) * (p.2 - y0) = 0)
      constructor <;> simp only <;> omega
    · rintro ⟨hx, hy⟩
      simp [hx, hy]
  · have hpos : 0 < r := by omega
    obtain ⟨hx1, hx2, hy1, hy2⟩ := hc
    rw [start_longs hcl ⟨hx1, hx2, hy1, hy2⟩ hr hr (by
      simp only [forall_mem_cons, not_mem_nil, false_imp_iff, implies_true, and_true]
      omega)]
    have hstart := rows_start x0 y0 (disc_spread r) (disc_extent hr.1)
      (t := unclipped ⟨cl, []⟩ (x0 - r - 1) (y0 - r - 1) (r + r + 2) (r + r + 2))
      (fun p => by rw [Canvas.hits, unclipped_calls]; rfl)
    obtain ⟨t, ht, hdrawn, h0', -⟩ := rows_run (disc_spread r) hstart (le_refl r) (disc_zero hr.1)
      (fun v => (disc_one hpos v).mp) (fun d e h1 h2 h3 h4 => circleOut_iff hr.2 h1 h2 h3 h4)
      (by omega) (by omega) hn hn
    refine ⟨_, by simp only [bind_some, ht, join_some]; rfl, ?_⟩
    apply rows_fill hdrawn
    intro u v hin
    by_contra hlt
    have hv := (disc_zero hr.1 v).mp (disc_spread r u v 0 v (by rw [abs_zero]; exact abs_nonneg u) le_rfl hin)
    have hone := (disc_one hpos t.dy).mpr (by rw [abs_of_nonneg hdrawn.nonneg]; omega)
    have hnext := hdrawn.extent.next
    rw [h0', zero_add] at hnext
    exact hnext hone

theorem pellipse_fills (hcl : ClipShorts cl) (hc : Center x0 y0) (hx : 0 ≤ rx ∧ rx ≤ 32767)
    (hy : 0 ≤ ry ∧ ry ≤ 32767) (hn : rx.toNat < n) (hm : ry.toNat < n) :
    ∃ s, pellipse n x0 y0 rx ry ⟨cl, []⟩ = some s ∧ s.Fills (InEllipse rx ry) x0 y0 := by
  obtain ⟨hx1, hx2, hy1, hy2⟩ := hc
  unfold pellipse
  split_ifs with hrx hry
  · subst hrx
    rw [longs_eq (by
      simp only [forall_mem_cons, not_mem_nil, false_imp_iff, implies_true, and_true]
      omega)]
    refine ⟨_, rfl, stroke_fills fun p => ?_⟩
    simp only [InEllipse, Stroke.passes, Bool.decide_and, Bool.and_eq_true, decide_eq_true_eq, abs_le]
    constructor
    · omega
    · intro h
      have h0 : p.1 - x0 = 0 := by omega
      rw [h0]
      exact ⟨by simp, by omega, by omega⟩
  · subst hry
    rw [longs_eq (by
      simp only [forall_mem_cons, not_mem_nil, false_imp_iff, implies_true, and_true]
      omega)]
    refine ⟨_, rfl, stroke_fills fun p => ?_⟩
    simp only [InEllipse, Stroke.passes, Bool.decide_and, Bool.and_eq_true, decide_eq_true_eq, abs_le]
    constructor
    · omega
    · intro h
      have h0 : p.2 - y0 = 0 := by omega
      rw [h0]
      exact ⟨by simp, by omega, by omega⟩
  · have hpx : 0 < rx := by omega
    have hpy : 0 < ry := by omega
    have hbound := ellipse_bound hx.1 (by omega) hy.1 (by omega)
    have hxx := square_short hx.1 hx.2
    have hyy := square_short hy.1 hy.2
    have hxx0 := mul_self_nonneg rx
    have hyy0 := mul_self_nonneg ry
    have hprod := mul_nonneg hxx0 hyy0
    rw [start_longs hcl ⟨hx1, hx2, hy1, hy2⟩ hx hy (by
      simp only [forall_mem_cons, not_mem_nil, false_imp_iff, implies_true, and_true]
      omega)]
    have hterms : longs [rx * rx, ry * ry, rx * rx * (ry * ry)] = some () := by
      apply longs_eq
      simp only [forall_mem_cons, not_mem_nil, false_imp_iff, implies_true, and_true]
      omega
    have hstart := rows_start x0 y0 (ellipse_spread rx ry) (ellipse_extent hx.1 hy.1)
      (t := unclipped ⟨cl, []⟩ (x0 - rx - 1) (y0 - ry - 1) (rx + rx + 2) (ry + ry + 2))
      (fun p => by rw [Canvas.hits, unclipped_calls]; rfl)
    obtain ⟨t, ht, hdrawn, h0', hle⟩ := rows_run (ellipse_spread rx ry) hstart (le_refl rx) (ellipse_zero hpx hy.1)
      (fun v => ellipse_one hpx hpy v) (fun d e h1 h2 h3 h4 => ellipseOut_iff (by omega) (by omega) h1 h2 h3 h4)
      (by omega) (by omega) hn hm
    have hdy := hdrawn.nonneg
    simp only [bind_eq_bind, bind_some, hterms, ht, join_some]
    split_ifs with hlt
    · rw [longs_eq (by
        simp only [forall_mem_cons, not_mem_nil, false_imp_iff, implies_true, and_true]
        omega)]
      exact ⟨_, rfl, rows_tail (ellipse_spread rx ry) (ellipse_zero hpx hy.1) hdrawn h0' hlt⟩
    · refine ⟨_, rfl, rows_fill hdrawn ?_⟩
      intro u v hin
      have := hin.2.2
      omega

theorem filled_figures (cl : Option Rec) (hcl : ClipShorts cl) (x0 y0 rx ry : Int) (hc : Center x0 y0)
    (hx : 0 ≤ rx ∧ rx ≤ 32767) (hy : 0 ≤ ry ∧ ry ≤ 32767) :
    ∃ m, ∀ n ≥ m, (∃ s, pcircle n x0 y0 rx ⟨cl, []⟩ = some s ∧ s.Fills (InDisc rx) x0 y0) ∧
      ∃ s, pellipse n x0 y0 rx ry ⟨cl, []⟩ = some s ∧ s.Fills (InEllipse rx ry) x0 y0 := by
  refine ⟨32768, fun n hn => ⟨?_, ?_⟩⟩
  · exact pcircle_fills hcl hc hx (by omega)
  · exact pellipse_fills hcl hc hx hy (by omega) (by omega)

theorem filled_figures_small :
    ∃ m, ∀ n ≥ m, (∃ s, pcircle n 10 (-4) 5 ⟨none, []⟩ = some s ∧ s.Fills (InDisc 5) 10 (-4)) ∧
      ∃ s, pellipse n 10 (-4) 5 2 ⟨none, []⟩ = some s ∧ s.Fills (InEllipse 5 2) 10 (-4) :=
  filled_figures none (fun _ h => nomatch h) 10 (-4) 5 2 (by unfold Center; omega) (by decide) (by decide)

end WWindowSystem.Graph
