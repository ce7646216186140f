import Mathlib
import WWindowSystem.Graph.Clip
import WWindowSystem.Library.Words

namespace WWindowSystem.Graph.Polygon

open List

structure Vertex where
  x : Int
  y : Int
  deriving DecidableEq

structure Span where
  xmin : Int
  xmax : Int

structure Spans where
  st : Int → Span
  rows : List Int

def LONG_MAX : Int := 9223372036854775807
def LONG_MIN : Int := -9223372036854775808

def note (is_left_edge : Bool) (y x : Int) (t : Spans) : Spans :=
  let s := t.st y
  let s := if is_left_edge then (if x < s.xmin then { s with xmin := x } else s) else if x > s.xmax then { s with xmax := x } else s
  ⟨Function.update t.st y s, y :: t.rows⟩

def overRows (is_left_edge : Bool) (step num den : Int) : Nat → Int → Int → Int → Spans → Spans
  | 0, _, _, _, t => t
  | n + 1, y, x, inc, t =>
    let t := note is_left_edge y x t
    if inc + num > den then overRows is_left_edge step num den n (y + step) (x + 1) (inc + num - den) t
    else overRows is_left_edge step num den n (y + step) x (inc + num) t

def overColumns (is_left_edge : Bool) (step num den : Int) : Nat → Int → Int → Int → Spans → Spans
  | 0, _, _, _, t => t
  | n + 1, x, y, inc, t =>
    let t := note is_left_edge y x t
    if inc + num > den then overColumns is_left_edge step num den n (x + step) (y + 1) (inc + num - den) t
    else overColumns is_left_edge step num den n (x + step) y (inc + num) t

def abs (z : Int) : Int := |toint z|

def steep_edge (p q : Vertex) (is_left_edge : Bool) (t : Spans) : Spans :=
  let num := q.x - p.x
  let den := q.y - p.y
  if den ≥ 0 then overRows is_left_edge 1 num den (q.y - p.y + 1).toNat p.y p.x (if is_left_edge then den else 1) t
  else overRows is_left_edge (-1) num (-den) (p.y - q.y + 1).toNat p.y p.x (if is_left_edge then -den else 1) t

def flat_edge (p q : Vertex) (is_left_edge : Bool) (t : Spans) : Spans :=
  let num := q.y - p.y
  let den := q.x - p.x
  if den ≥ 0 then overColumns is_left_edge 1 num den (q.x - p.x + 1).toNat p.x p.y (if is_left_edge then den else 1) t
  else overColumns is_left_edge (-1) num (-den) (p.x - q.x + 1).toNat p.x p.y (if is_left_edge then -den else 1) t

def process_edge (p q : Vertex) (is_left_edge : Bool) (t : Spans) : Spans :=
  if p.y = q.y then note is_left_edge p.y q.x (note is_left_edge p.y p.x t)
  else if abs (q.x - p.x) ≤ abs (q.y - p.y) then
    if p.x > q.x then steep_edge q p is_left_edge t else steep_edge p q is_left_edge t
  else if p.y > q.y then flat_edge q p is_left_edge t
  else flat_edge p q is_left_edge t

def edge_type (p1 p2 p3 : Vertex) : Int :=
  if p1.y = p2.y then toint (p1.y - p3.y)
  else if p1.x = p2.x then toint (p1.x - p3.x)
  else
    let i := toint ((p2.x - p1.x) * (p3.y - p1.y) - (p3.x - p1.x) * (p2.y - p1.y))
    if p2.y < p1.y then -i else i

def find_type (p1 p2 : Vertex) : List Vertex → Int
  | [] => 0
  | p3 :: rest => if edge_type p1 p2 p3 ≠ 0 then edge_type p1 p2 p3 else find_type p1 p2 rest

def vertex (v : List Vertex) (k : Nat) : Vertex := v.getD (k % v.length) ⟨0, 0⟩

def others (v : List Vertex) (k : Nat) : List Vertex :=
  (List.range (v.length - 2)).map fun j => vertex v (k + v.length - 1 - j)

def edge_side (v : List Vertex) (k : Nat) : Int :=
  let vp1 := vertex v (k + 1)
  let vp2 := vertex v k
  let i := find_type vp1 vp2 (others v k)
  if i ≠ 0 then i
  else if vp2.x - vp1.x ≠ 0 then vp2.x - vp1.x
  else if vp2.y - vp1.y ≠ 0 then vp2.y - vp1.y
  -- the two pointers are subtracted
  else ((k % v.length : Nat) : Int) - (((k + 1) % v.length : Nat) : Int)

def make_span_table (v : List Vertex) : Spans :=
  (List.range v.length).reverse.foldl
    (fun t k => process_edge (vertex v (k + 1)) (vertex v k) (decide (edge_side v k < 0)) t)
    ⟨fun _ => ⟨LONG_MAX, LONG_MIN⟩, []⟩

def ymin (v : List Vertex) : Int := v.foldl (fun m p => if p.y < m then p.y else m) LONG_MAX

def ymax (v : List Vertex) : Int := v.foldl (fun m p => if p.y > m then p.y else m) LONG_MIN

def generic_ppoly (v : List Vertex) : List Stroke :=
  if v.length < 2 then []
  else
    (List.range (ymax v - ymin v + 1).toNat).reverse.map fun i : Nat =>
      let s := (make_span_table v).st (ymin v + i)
      let xmax := if s.xmin > s.xmax then s.xmin else s.xmax
      .hline s.xmin (ymin v + i) xmax

abbrev Marks := List (Int × Int)

def notes (is_left_edge : Bool) (l : Marks) (t : Spans) : Spans := l.foldl (fun t c => note is_left_edge c.1 c.2 t) t

def rounded (is_left_edge : Bool) (num den k : Int) : Int := ((if is_left_edge then den else 1) - 1 + k * num) / den

variable {left : Bool} {num den step x y inc : Int} {t : Spans} {p q : Vertex}

theorem rounded_step {n : Nat} (hd : 0 < den) (inc num : Int) : (inc + num - den - 1 + n * num) / den + 1 = (inc - 1 + ((n + 1 : Nat) : Int) * num) / den := by
  have : inc - 1 + ((n + 1 : Nat) : Int) * num = inc + num - den - 1 + n * num + 1 * den := by
    push_cast
    ring
  rw [this, Int.add_mul_ediv_right _ _ hd.ne']

theorem overRows_notes (h0 : 0 ≤ num) (h1 : num ≤ den) (hinc : 1 ≤ inc) (hinc' : inc ≤ den) (n : Nat) (y x : Int) (t : Spans) :
    overRows left step num den n y x inc t =
      notes left ((List.range n).map fun k : Nat => (y + step * k, x + (inc - 1 + k * num) / den)) t := by
  induction n generalizing y x inc t with
  | zero => rfl
  | succ n ih =>
    have hfirst : (inc - 1 + ((0 : Nat) : Int) * num) / den = 0 := by
      rw [Nat.cast_zero, zero_mul, add_zero]
      exact Int.ediv_eq_zero_of_lt (by omega) (by omega)
    rw [range_succ_eq_map, map_cons, map_map, hfirst]
    simp only [overRows, notes, foldl_cons, Nat.cast_zero, mul_zero, add_zero]
    split_ifs with hover
    · rw [ih (by omega) (by omega), notes]
      congr 1
      refine map_congr_left fun k _ => ?_
      simp only [Function.comp, Nat.succ_eq_add_one]
      rw [← rounded_step (by omega : 0 < den), Prod.mk.injEq]
      exact ⟨by push_cast; ring, by omega⟩
    · rw [ih (by omega) (by omega), notes]
      congr 1
      refine map_congr_left fun k _ => ?_
      simp only [Function.comp, Nat.succ_eq_add_one]
      rw [show inc + num - 1 + (k : Int) * num = inc - 1 + ((k + 1 : Nat) : Int) * num by push_cast; ring, Prod.mk.injEq]
      exact ⟨by push_cast; ring, rfl⟩

theorem overColumns_notes (h0 : 0 ≤ num) (h1 : num ≤ den) (hinc : 1 ≤ inc) (hinc' : inc ≤ den) (n : Nat) (x y : Int) (t : Spans) :
    overColumns left step num den n x y inc t =
      notes left ((List.range n).map fun k : Nat => (y + (inc - 1 + k * num) / den, x + step * k)) t := by
  induction n generalizing y x inc t with
  | zero => rfl
  | succ n ih =>
    have hfirst : (inc - 1 + ((0 : Nat) : Int) * num) / den = 0 := by
      rw [Nat.cast_zero, zero_mul, add_zero]
      exact Int.ediv_eq_zero_of_lt (by omega) (by omega)
    rw [range_succ_eq_map, map_cons, map_map, hfirst]
    simp only [overColumns, notes, foldl_cons, Nat.cast_zero, mul_zero, add_zero]
    split_ifs with hover
    · rw [ih (by omega) (by omega), notes]
      congr 1
      refine map_congr_left fun k _ => ?_
      simp only [Function.comp, Nat.succ_eq_add_one]
      rw [← rounded_step (by omega : 0 < den), Prod.mk.injEq]
      exact ⟨by omega, by push_cast; ring⟩
    · rw [ih (by omega) (by omega), notes]
      congr 1
      refine map_congr_left fun k _ => ?_
      simp only [Function.comp, Nat.succ_eq_add_one]
      rw [show inc + num - 1 + (k : Int) * num = inc - 1 + ((k + 1 : Nat) : Int) * num by push_cast; ring, Prod.mk.injEq]
      exact ⟨rfl, by push_cast; ring⟩

def steepMarks (left : Bool) (p q : Vertex) : Marks :=
  (List.range ((q.y - p.y).natAbs + 1)).map fun k : Nat =>
    (p.y + (q.y - p.y).sign * k, p.x + rounded left (q.x - p.x) |q.y - p.y| k)

def flatMarks (left : Bool) (p q : Vertex) : Marks :=
  (List.range ((q.x - p.x).natAbs + 1)).map fun k : Nat =>
    (p.y + rounded left (q.y - p.y) |q.x - p.x| k, p.x + (q.x - p.x).sign * k)

theorem steep_notes (hx : p.x ≤ q.x) (hy : p.y ≠ q.y) (hs : q.x - p.x ≤ |q.y - p.y|) :
    steep_edge p q left t = notes left (steepMarks left p q) t := by
  unfold steep_edge steepMarks rounded
  rcases lt_or_gt_of_ne hy with h | h
  · have habs : |q.y - p.y| = q.y - p.y := abs_of_pos (by omega)
    rw [habs] at hs ⊢
    simp only
    rw [if_pos (by omega), overRows_notes (by omega) hs (by split_ifs <;> omega) (by split_ifs <;> omega),
      Int.sign_eq_one_of_pos (by omega), show (q.y - p.y + 1).toNat = (q.y - p.y).natAbs + 1 by omega]
  · have habs : |q.y - p.y| = -(q.y - p.y) := abs_of_neg (by omega)
    rw [habs] at hs ⊢
    simp only
    rw [if_neg (by omega), overRows_notes (by omega) hs (by split_ifs <;> omega) (by split_ifs <;> omega),
      Int.sign_eq_neg_one_of_neg (by omega), show (p.y - q.y + 1).toNat = (q.y - p.y).natAbs + 1 by omega]

theorem flat_notes (hy : p.y < q.y) (hs : q.y - p.y < |q.x - p.x|) :
    flat_edge p q left t = notes left (flatMarks left p q) t := by
  unfold flat_edge flatMarks rounded
  rcases le_or_gt p.x q.x with h | h
  · have habs : |q.x - p.x| = q.x - p.x := abs_of_nonneg (by omega)
    rw [habs] at hs ⊢
    simp only
    rw [if_pos (by omega), overColumns_notes (by omega) hs.le (by split_ifs <;> omega) (by split_ifs <;> omega),
      Int.sign_eq_one_of_pos (by omega), show (q.x - p.x + 1).toNat = (q.x - p.x).natAbs + 1 by omega]
  · have habs : |q.x - p.x| = -(q.x - p.x) := abs_of_neg (by omega)
    rw [habs] at hs ⊢
    simp only
    rw [if_neg (by omega), overColumns_notes (by omega) hs.le (by split_ifs <;> omega) (by split_ifs <;> omega),
      Int.sign_eq_neg_one_of_neg (by omega), show (p.x - q.x + 1).toNat = (q.x - p.x).natAbs + 1 by omega]

def edgeMarks (left : Bool) (p q : Vertex) : Marks :=
  if p.y = q.y then [(p.y, p.x), (p.y, q.x)]
  else if |q.x - p.x| ≤ |q.y - p.y| then if p.x > q.x then steepMarks left q p else steepMarks left p q
  else if p.y > q.y then flatMarks left q p
  else flatMarks left p q

def Short (p q : Vertex) : Prop :=
  -2147483648 ≤ q.x - p.x ∧ q.x - p.x ≤ 2147483647 ∧ -2147483648 ≤ q.y - p.y ∧ q.y - p.y ≤ 2147483647

theorem process_edge_notes (h : Short p q) : process_edge p q left t = notes left (edgeMarks left p q) t := by
  obtain ⟨h1, h2, h3, h4⟩ := h
  unfold process_edge edgeMarks abs
  rw [toint_of_range h1 h2, toint_of_range h3 h4]
  by_cases hy : p.y = q.y
  · rw [if_pos hy, if_pos hy]
    rfl
  rw [if_neg hy, if_neg hy]
  by_cases hs : |q.x - p.x| ≤ |q.y - p.y|
  · rw [if_pos hs, if_pos hs]
    split_ifs with hx
    · apply steep_notes (by omega) (Ne.symm hy)
      rw [abs_sub_comm p.y]
      rw [abs_sub_comm] at hs
      exact (le_abs_self _).trans hs
    · exact steep_notes (by omega) hy ((le_abs_self _).trans hs)
  · rw [if_neg hs, if_neg hs]
    split_ifs with hflip
    · apply flat_notes hflip
      rw [abs_sub_comm p.x]
      have := le_abs_self (p.y - q.y)
      rw [abs_sub_comm p.y] at this
      omega
    · have := le_abs_self (q.y - p.y)
      exact flat_notes (by omega) (by omega)

end WWindowSystem.Graph.Polygon
