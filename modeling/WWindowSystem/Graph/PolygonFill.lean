import WWindowSystem.Graph.PolygonSpans

namespace WWindowSystem.Graph.Polygon

open List

variable {left : Bool} {x y z r s : Int} {v : List Vertex} {a b : Vertex} {k : Nat}

theorem vertex_mod (v : List Vertex) (k : Nat) : vertex v (k % v.length) = vertex v k := by
  rw [vertex, Nat.mod_mod, vertex]

theorem vertex_mod_succ (v : List Vertex) (k : Nat) : vertex v (k % v.length + 1) = vertex v (k + 1) := by
  rw [vertex, Nat.mod_add_mod, vertex]

theorem exists_vertex {p : Vertex} (hp : p ∈ v) : ∃ k < v.length, vertex v k = p := by
  obtain ⟨m, hm, rfl⟩ := mem_iff_getElem.mp hp
  exact ⟨m, hm, by rw [vertex, Nat.mod_eq_of_lt hm, getD_eq_getElem?_getD, getElem?_eq_getElem hm, Option.getD_some]⟩

theorem foldl_min (l : List Vertex) (m : Int) : l.foldl (fun m p => if p.y < m then p.y else m) m ≤ m ∧
    (∀ p ∈ l, l.foldl (fun m p => if p.y < m then p.y else m) m ≤ p.y) ∧
      (l.foldl (fun m p => if p.y < m then p.y else m) m = m ∨ ∃ p ∈ l, l.foldl (fun m p => if p.y < m then p.y else m) m = p.y) := by
  induction l generalizing m with
  | nil => exact ⟨le_rfl, fun _ hp => absurd hp not_mem_nil, .inl rfl⟩
  | cons p l ih =>
    rw [foldl_cons]
    obtain ⟨h1, h2, h3⟩ := ih (if p.y < m then p.y else m)
    have hm : (if p.y < m then p.y else m) ≤ m ∧ (if p.y < m then p.y else m) ≤ p.y := by
      split_ifs <;> omega
    refine ⟨h1.trans hm.1, ?_, ?_⟩
    · intro q hq
      rcases mem_cons.mp hq with rfl | hq
      · exact h1.trans hm.2
      · exact h2 q hq
    · rcases h3 with h3 | ⟨q, hq, h3⟩
      · rw [h3]
        split_ifs
        · exact .inr ⟨p, mem_cons_self, rfl⟩
        · exact .inl rfl
      · exact .inr ⟨q, mem_cons_of_mem _ hq, h3⟩

theorem foldl_max (l : List Vertex) (m : Int) : m ≤ l.foldl (fun m p => if p.y > m then p.y else m) m ∧
    (∀ p ∈ l, p.y ≤ l.foldl (fun m p => if p.y > m then p.y else m) m) ∧
      (l.foldl (fun m p => if p.y > m then p.y else m) m = m ∨ ∃ p ∈ l, l.foldl (fun m p => if p.y > m then p.y else m) m = p.y) := by
  induction l generalizing m with
  | nil => exact ⟨le_rfl, fun _ hp => absurd hp not_mem_nil, .inl rfl⟩
  | cons p l ih =>
    rw [foldl_cons]
    obtain ⟨h1, h2, h3⟩ := ih (if p.y > m then p.y else m)
    have hm : m ≤ (if p.y > m then p.y else m) ∧ p.y ≤ (if p.y > m then p.y else m) := by
      split_ifs <;> omega
    refine ⟨hm.1.trans h1, ?_, ?_⟩
    · intro q hq
      rcases mem_cons.mp hq with rfl | hq
      · exact hm.2.trans h1
      · exact h2 q hq
    · rcases h3 with h3 | ⟨q, hq, h3⟩
      · rw [h3]
        split_ifs
        · exact .inr ⟨p, mem_cons_self, rfl⟩
        · exact .inl rfl
      · exact .inr ⟨q, mem_cons_of_mem _ hq, h3⟩

theorem ymin_spec (hf : Fits v) (hv : v ≠ []) : (∀ p ∈ v, ymin v ≤ p.y) ∧ ∃ p ∈ v, p.y = ymin v := by
  obtain ⟨h1, h2, h3⟩ := foldl_min v LONG_MAX
  refine ⟨h2, ?_⟩
  rcases h3 with h3 | ⟨p, hp, h3⟩
  · obtain ⟨p, l, rfl⟩ := exists_cons_of_ne_nil hv
    have hlong := hf.long p mem_cons_self
    have hle := h2 p mem_cons_self
    exact ⟨p, mem_cons_self, le_antisymm (by rw [ymin, h3]; exact hlong.2.2.2) hle⟩
  · exact ⟨p, hp, h3.symm⟩

theorem ymax_spec (hf : Fits v) (hv : v ≠ []) : (∀ p ∈ v, p.y ≤ ymax v) ∧ ∃ p ∈ v, p.y = ymax v := by
  obtain ⟨h1, h2, h3⟩ := foldl_max v LONG_MIN
  refine ⟨h2, ?_⟩
  rcases h3 with h3 | ⟨p, hp, h3⟩
  · obtain ⟨p, l, rfl⟩ := exists_cons_of_ne_nil hv
    have hlong := hf.long p mem_cons_self
    have hle := h2 p mem_cons_self
    exact ⟨p, mem_cons_self, le_antisymm hle (by rw [ymax, h3]; exact hlong.2.2.1)⟩
  · exact ⟨p, hp, h3.symm⟩

theorem exists_rise (f : Nat → Int) (n : Nat) (h0 : f 0 ≤ y) (hn : y ≤ f n) (hlt : f 0 < f n) :
    ∃ i, f i ≤ y ∧ y ≤ f (i + 1) ∧ f i < f (i + 1) := by
  induction n with
  | zero => omega
  | succ n ih =>
    by_cases hy : y ≤ f n
    · by_cases hl : f 0 < f n
      · exact ih hy hl
      · exact ⟨n, by omega, hn, by omega⟩
    · exact ⟨n, by omega, hn, by omega⟩

theorem Convex.ymin_lt (hf : Fits v) (hc : Convex v s) : ymin v < ymax v := by
  obtain ⟨p, hp, q, hq, r, hr, hne⟩ := hc.spread
  by_contra hle
  have hrow : ∀ p ∈ v, p.y = ymin v := by
    intro p hp
    have h1 := (ymin_spec hf hc.ne_nil).1 p hp
    have h2 := (ymax_spec hf hc.ne_nil).1 p hp
    omega
  apply hne
  unfold cross
  rw [hrow p hp, hrow q hq, hrow r hr]
  ring

theorem exists_covering (hf : Fits v) (hc : Convex v s) (h0 : ymin v ≤ y) (h1 : y ≤ ymax v) :
    (∃ k < v.length, Covers (vertex v k) (vertex v (k + 1)) y ∧ (vertex v k).y < (vertex v (k + 1)).y) ∧
      ∃ k < v.length, Covers (vertex v k) (vertex v (k + 1)) y ∧ (vertex v (k + 1)).y < (vertex v k).y := by
  have hv := hc.ne_nil
  have hlen : 0 < v.length := length_pos_iff.mpr hv
  have hlt := hc.ymin_lt hf
  obtain ⟨p, hp, hpy⟩ := (ymin_spec hf hv).2
  obtain ⟨q, hq, hqy⟩ := (ymax_spec hf hv).2
  obtain ⟨i, hi, rfl⟩ := exists_vertex hp
  obtain ⟨j, hj, rfl⟩ := exists_vertex hq
  have hround : ∀ m l, m < v.length → vertex v (m + (l + v.length - m)) = vertex v l := by
    intro m l hm
    rw [show m + (l + v.length - m) = l + v.length by omega, vertex, Nat.add_mod_right, vertex]
  constructor
  · obtain ⟨m, h2, h3, h4⟩ := exists_rise (fun m => (vertex v (i + m)).y) (j + v.length - i) (y := y)
      (by simp only [add_zero]; omega) (by simp only [hround i j hi]; omega) (by simp only [add_zero, hround i j hi]; omega)
    refine ⟨(i + m) % v.length, Nat.mod_lt _ hlen, ?_⟩
    rw [vertex_mod, vertex_mod_succ]
    exact ⟨.inl ⟨h2, h3, h4⟩, h4⟩
  · obtain ⟨m, h2, h3, h4⟩ := exists_rise (fun m => -(vertex v (j + m)).y) (i + v.length - j) (y := -y)
      (by simp only [add_zero]; omega) (by simp only [hround j i hj]; omega) (by simp only [add_zero, hround j i hj]; omega)
    refine ⟨(j + m) % v.length, Nat.mod_lt _ hlen, ?_⟩
    rw [vertex_mod, vertex_mod_succ]
    simp only [← add_assoc] at h2 h3 h4
    exact ⟨.inr ⟨by omega, by omega, by omega⟩, by omega⟩

theorem edge_direction (hf : Fits v) (hc : Convex v s) (hk : k < v.length) (hy : (vertex v k).y ≠ (vertex v (k + 1)).y) :
    decide (edge_side v k < 0) = left ↔
      if left then 0 < s * ((vertex v k).y - (vertex v (k + 1)).y) else s * ((vertex v k).y - (vertex v (k + 1)).y) < 0 := by
  have hne : s * ((vertex v k).y - (vertex v (k + 1)).y) ≠ 0 := by
    rcases hc.direction with rfl | rfl <;> omega
  cases left with
  | true => rw [decide_eq_true_iff, edge_side_sign hf hc hk hy, if_pos rfl]
  | false =>
    rw [decide_eq_false_iff_not, edge_side_sign hf hc hk hy, if_neg (by simp)]
    omega

theorem side_iff_inner (hc : Convex v s)
    (hleft : if left then 0 < s * (a.y - b.y) else s * (a.y - b.y) < 0) : Side left b a x y ↔ 0 ≤ s * cross a b ⟨x, y⟩ := by
  rw [Side.swap]
  unfold Side
  rcases hc.direction with rfl | rfl <;> cases left <;>
    simp only [if_true, Bool.false_eq_true, if_false] at hleft ⊢
  · rw [Int.sign_eq_neg_one_of_neg (by omega)]
    omega
  · rw [Int.sign_eq_one_of_pos (by omega)]
  · rw [Int.sign_eq_one_of_pos (by omega)]
    omega
  · rw [Int.sign_eq_neg_one_of_neg (by omega)]

theorem inner_end (hc : Convex v s) (hy : Covers a b y) :
    (0 < s * (a.y - b.y) → 0 ≤ s * cross a b ⟨max a.x b.x, y⟩) ∧ (s * (a.y - b.y) < 0 → 0 ≤ s * cross a b ⟨min a.x b.x, y⟩) := by
  have hsplit : ∀ X, cross a b ⟨X, y⟩ = (X - a.x) * (y - b.y) + (X - b.x) * (a.y - y) := by
    intro X
    unfold cross
    ring
  have hmax : 0 ≤ max a.x b.x - a.x ∧ 0 ≤ max a.x b.x - b.x := by omega
  have hmin : min a.x b.x - a.x ≤ 0 ∧ min a.x b.x - b.x ≤ 0 := by omega
  rw [hsplit, hsplit]
  unfold Covers at hy
  rcases hc.direction with rfl | rfl
  · constructor
    · intro hl
      have h1 := mul_nonneg hmax.1 (show 0 ≤ y - b.y by omega)
      have h2 := mul_nonneg hmax.2 (show 0 ≤ a.y - y by omega)
      omega
    · intro hr
      have h1 := mul_nonneg_of_nonpos_of_nonpos hmin.1 (show y - b.y ≤ 0 by omega)
      have h2 := mul_nonneg_of_nonpos_of_nonpos hmin.2 (show a.y - y ≤ 0 by omega)
      omega
  · constructor
    · intro hl
      have h1 := mul_nonpos_of_nonneg_of_nonpos hmax.1 (show y - b.y ≤ 0 by omega)
      have h2 := mul_nonpos_of_nonneg_of_nonpos hmax.2 (show a.y - y ≤ 0 by omega)
      omega
    · intro hr
      have h1 := mul_nonpos_of_nonpos_of_nonneg hmin.1 (show 0 ≤ y - b.y by omega)
      have h2 := mul_nonpos_of_nonpos_of_nonneg hmin.2 (show 0 ≤ a.y - y by omega)
      omega

theorem inner_mono (hleft : if left then 0 < s * (a.y - b.y) else s * (a.y - b.y) < 0) {x' : Int} (h : Outer left x x')
    (hx : 0 ≤ s * cross a b ⟨x, y⟩) : 0 ≤ s * cross a b ⟨x', y⟩ := by
  have hstep : s * cross a b ⟨x', y⟩ = s * cross a b ⟨x, y⟩ + (x' - x) * (s * (a.y - b.y)) := by
    unfold cross
    ring
  rw [hstep]
  cases left with
  | true =>
    simp only [Outer, if_true] at hleft h
    exact add_nonneg hx (mul_nonneg (by omega) hleft.le)
  | false =>
    simp only [Outer, Bool.false_eq_true, if_false] at hleft h
    exact add_nonneg hx (mul_nonneg_of_nonpos_of_nonpos (by omega) hleft.le)

structure Bounds (v : List Vertex) (s : Int) (left : Bool) (y : Int) (k : Nat) : Prop where
  lt : k < v.length
  covers : Covers (vertex v k) (vertex v (k + 1)) y
  kind : if left then 0 < s * ((vertex v k).y - (vertex v (k + 1)).y) else s * ((vertex v k).y - (vertex v (k + 1)).y) < 0

theorem Bounds.ne (h : Bounds v s left y k) : (vertex v k).y ≠ (vertex v (k + 1)).y := by
  have := h.covers
  unfold Covers at this
  omega

theorem Bounds.marked (hf : Fits v) (hc : Convex v s) (h : Bounds v s left y k) :
    ∃ c, Marked v left y c ∧ ∀ x, 0 ≤ s * cross (vertex v k) (vertex v (k + 1)) ⟨x, y⟩ → Outer left c x := by
  obtain ⟨c, hm, hreach⟩ := (edge_spec h.ne.symm left).reach y (Covers.swap.mp h.covers)
  exact ⟨c, ⟨k, h.lt, (edge_direction hf hc h.lt h.ne).mpr h.kind, hm⟩, fun x hx => hreach x ((side_iff_inner hc h.kind).mpr hx)⟩

theorem Bounds.inner (hc : Convex v s) (h : Bounds v s left y k) {l : Nat}
    (hl : if left then 0 ≤ s * ((vertex v l).y - (vertex v (l + 1)).y) else s * ((vertex v l).y - (vertex v (l + 1)).y) ≤ 0)
    (hx : 0 ≤ s * cross (vertex v k) (vertex v (k + 1)) ⟨x, y⟩) : 0 ≤ s * cross (vertex v l) (vertex v (l + 1)) ⟨x, y⟩ := by
  have hv := hc.ne_nil
  have hkind := h.kind
  apply inner_of_edge h.covers (hc.turns l _ (vertex_mem hv k)) (hc.turns l _ (vertex_mem hv (k + 1)))
  · intro hup
    refine mul_nonneg ?_ hx
    rcases hc.direction with rfl | rfl <;> cases left <;> simp only [if_true, Bool.false_eq_true, if_false] at hl hkind <;> omega
  · intro hdown
    refine mul_nonpos_of_nonpos_of_nonneg ?_ hx
    rcases hc.direction with rfl | rfl <;> cases left <;> simp only [if_true, Bool.false_eq_true, if_false] at hl hkind <;> omega

theorem Bounds.outer (hc : Convex v s) (h : Bounds v s left y k) {l : Nat} (hl : Bounds v s (!left) y l)
    (hx : s * cross (vertex v k) (vertex v (k + 1)) ⟨x, y⟩ ≤ 0) : 0 ≤ s * cross (vertex v l) (vertex v (l + 1)) ⟨x, y⟩ := by
  have hv := hc.ne_nil
  have hkind := h.kind
  have hkind' := hl.kind
  apply inner_of_edge h.covers (hc.turns l _ (vertex_mem hv k)) (hc.turns l _ (vertex_mem hv (k + 1)))
  · intro hup
    refine mul_nonneg_of_nonpos_of_nonpos ?_ hx
    rcases hc.direction with rfl | rfl <;> cases left <;>
      simp only [Bool.not_true, Bool.not_false, if_true, Bool.false_eq_true, if_false] at hkind' hkind <;> omega
  · intro hdown
    refine mul_nonpos_of_nonneg_of_nonpos ?_ hx
    rcases hc.direction with rfl | rfl <;> cases left <;>
      simp only [Bool.not_true, Bool.not_false, if_true, Bool.false_eq_true, if_false] at hkind' hkind <;> omega

theorem exists_bounds (hf : Fits v) (hc : Convex v s) (h0 : ymin v ≤ y) (h1 : y ≤ ymax v) (left : Bool) :
    ∃ k, Bounds v s left y k := by
  obtain ⟨⟨i, hi, hcov, hup⟩, j, hj, hcov', hdown⟩ := exists_covering hf hc h0 h1
  rcases hc.direction with rfl | rfl <;> cases left
  · exact ⟨i, hi, hcov, by simp only [Bool.false_eq_true, if_false]; omega⟩
  · exact ⟨j, hj, hcov', by simp only [if_true]; omega⟩
  · exact ⟨j, hj, hcov', by simp only [Bool.false_eq_true, if_false]; omega⟩
  · exact ⟨i, hi, hcov, by simp only [if_true]; omega⟩

theorem inside_iff (hc : Convex v s) {l : Nat} (hk : Bounds v s true y k) (hl : Bounds v s false y l) :
    Inside v s x y ↔ 0 ≤ s * cross (vertex v k) (vertex v (k + 1)) ⟨x, y⟩ ∧ 0 ≤ s * cross (vertex v l) (vertex v (l + 1)) ⟨x, y⟩ := by
  constructor
  · exact fun h => ⟨h k, h l⟩
  · rintro ⟨h1, h2⟩ m
    by_cases hm : 0 ≤ s * ((vertex v m).y - (vertex v (m + 1)).y)
    · exact hk.inner hc (by rw [if_pos rfl]; exact hm) h1
    · exact hl.inner hc (by rw [if_neg (by simp)]; omega) h2

theorem marked_row (hf : Fits v) (hc : Convex v s) {c : Int} (h : Marked v left r c) : ymin v ≤ r ∧ r ≤ ymax v := by
  have hv := hc.ne_nil
  have hmin := fun k => (ymin_spec hf hv).1 _ (vertex_mem hv k)
  have hmax := fun k => (ymax_spec hf hv).1 _ (vertex_mem hv k)
  obtain ⟨k, hk, -, hm⟩ := h
  have h1 := hmin k
  have h2 := hmin (k + 1)
  have h3 := hmax k
  have h4 := hmax (k + 1)
  by_cases hy : (vertex v (k + 1)).y = (vertex v k).y
  · unfold edgeMarks at hm
    rw [if_pos hy] at hm
    simp only [mem_cons, Prod.mk.injEq, not_mem_nil, or_false] at hm
    omega
  · have := (edge_spec hy left).rows r c hm
    unfold Covers at this
    omega

def NoneRising (v : List Vertex) : Prop := ∀ k < v.length, ¬ Rising (vertex v k) (vertex v (k + 1))

theorem marked_inner (hf : Fits v) (hc : Convex v s) (hr : NoneRising v) {c : Int} (h : Marked v left y c)
    (hk : Bounds v s left y k) : 0 ≤ s * cross (vertex v k) (vertex v (k + 1)) ⟨c, y⟩ := by
  have hv := hc.ne_nil
  obtain ⟨l, hl, hside, hm⟩ := h
  by_cases hy : (vertex v (l + 1)).y = (vertex v l).y
  · unfold edgeMarks at hm
    rw [if_pos hy] at hm
    simp only [mem_cons, Prod.mk.injEq, not_mem_nil, or_false] at hm
    rcases hm with ⟨rfl, rfl⟩ | ⟨rfl, rfl⟩
    · exact hc.turns k _ (vertex_mem hv (l + 1))
    · rw [hy]
      exact hc.turns k _ (vertex_mem hv l)
  · have hspec := edge_spec hy left
    have hkind := (edge_direction hf hc hl (Ne.symm hy)).mp hside
    have hb : Bounds v s left y l := ⟨hl, Covers.swap.mp (hspec.rows y c hm), hkind⟩
    have hinner := (side_iff_inner hc hkind).mp (hspec.exact (fun h => hr l hl (Rising.swap.mp h)) y c hm)
    refine hb.inner hc ?_ hinner
    have := hk.kind
    cases left with
    | true => exact le_of_lt this
    | false => exact le_of_lt this

theorem xmin_iff (hf : Fits v) (hc : Convex v s) (hr : NoneRising v) (hk : Bounds v s true y k) :
    ((make_span_table v).st y).xmin ≤ x ↔ 0 ≤ s * cross (vertex v k) (vertex v (k + 1)) ⟨x, y⟩ := by
  have hv := hc.ne_nil
  obtain ⟨c, hm, hreach⟩ := hk.marked hf hc
  have hle := ((table_xmin hf hv).mp (le_refl ((make_span_table v).st y).xmin)).2
  have hge : c ≤ ((make_span_table v).st y).xmin := by
    refine (table_xmin hf hv).mpr ⟨?_, fun c' hm' => hreach c' (marked_inner hf hc hr hm' hk)⟩
    have hend := hreach _ ((inner_end hc hk.covers).1 hk.kind)
    have h1 := hf.long _ (vertex_mem hv k)
    have h2 := hf.long _ (vertex_mem hv (k + 1))
    simp only [Outer, if_true] at hend
    omega
  constructor
  · intro hx
    exact inner_mono hk.kind (show Outer true c x from hge.trans hx) (marked_inner hf hc hr hm hk)
  · intro hx
    exact (hle c hm).trans (hreach x hx)

theorem xmax_iff (hf : Fits v) (hc : Convex v s) (hr : NoneRising v) (hk : Bounds v s false y k) :
    x ≤ ((make_span_table v).st y).xmax ↔ 0 ≤ s * cross (vertex v k) (vertex v (k + 1)) ⟨x, y⟩ := by
  have hv := hc.ne_nil
  obtain ⟨c, hm, hreach⟩ := hk.marked hf hc
  have hge := ((table_xmax hf hv).mp (le_refl ((make_span_table v).st y).xmax)).2
  have hle : ((make_span_table v).st y).xmax ≤ c := by
    refine (table_xmax hf hv).mpr ⟨?_, fun c' hm' => hreach c' (marked_inner hf hc hr hm' hk)⟩
    have hend := hreach _ ((inner_end hc hk.covers).2 hk.kind)
    have h1 := hf.long _ (vertex_mem hv k)
    have h2 := hf.long _ (vertex_mem hv (k + 1))
    simp only [Outer, Bool.false_eq_true, if_false] at hend
    omega
  constructor
  · intro hx
    exact inner_mono hk.kind (show Outer false c x from hx.trans hle) (marked_inner hf hc hr hm hk)
  · intro hx
    exact (show x ≤ c from hreach x hx).trans (hge c hm)

/-- The table is indexed at rows of the polygon only, and a span that is not empty is drawn as the points of the polygon on its row. -/
def SpansExact (v : List Vertex) (s : Int) : Prop :=
  (∀ r ∈ (make_span_table v).rows, ymin v ≤ r ∧ r ≤ ymax v) ∧
    ∀ y, ymin v ≤ y → y ≤ ymax v → ((make_span_table v).st y).xmin ≤ ((make_span_table v).st y).xmax →
      ∀ x, (∃ c ∈ generic_ppoly v, c.passes (x, y) = true) ↔ Inside v s x y

theorem Convex.two (hc : Convex v s) : ¬ v.length < 2 := by
  intro hlen
  obtain ⟨p, hp, q, hq, r, hr, hne⟩ := hc.spread
  apply hne
  rcases v with _ | ⟨a, _ | ⟨b, l⟩⟩
  · cases hp
  · rw [mem_singleton.mp hp, mem_singleton.mp hq, mem_singleton.mp hr]
    unfold cross
    ring
  · rw [length_cons, length_cons] at hlen
    omega

theorem drawn_iff (hlen : ¬ v.length < 2) (h0 : ymin v ≤ y) (h1 : y ≤ ymax v)
    (hspan : ((make_span_table v).st y).xmin ≤ ((make_span_table v).st y).xmax) :
    (∃ c ∈ generic_ppoly v, c.passes (x, y) = true) ↔
      ((make_span_table v).st y).xmin ≤ x ∧ x ≤ ((make_span_table v).st y).xmax := by
  unfold generic_ppoly
  rw [if_neg hlen]
  simp only [mem_map, mem_reverse, mem_range]
  constructor
  · rintro ⟨_, ⟨i, hi, rfl⟩, hp⟩
    simp only [Stroke.passes, decide_eq_true_eq] at hp
    obtain ⟨hy, hlo, hhi⟩ := hp
    rw [← hy, if_neg (by omega)] at hlo hhi
    omega
  · rintro ⟨hlo, hhi⟩
    refine ⟨_, ⟨(y - ymin v).toNat, by omega, rfl⟩, ?_⟩
    have hy : ymin v + ((y - ymin v).toNat : Int) = y := by omega
    simp only [Stroke.passes, decide_eq_true_eq, hy]
    rw [if_neg (by omega)]
    exact ⟨trivial, (min_le_left _ _).trans hlo, hhi.trans (le_max_right _ _)⟩

theorem rising_drawn (hf : Fits v) (hc : Convex v s) (hk : k < v.length) (hr : Rising (vertex v k) (vertex v (k + 1))) :
    ¬ SpansExact v s := by
  intro he
  have hv := hc.ne_nil
  have hy : (vertex v (k + 1)).y ≠ (vertex v k).y := by
    intro h
    have := hr.1
    rw [h, sub_self, mul_zero] at this
    omega
  have hkind := (edge_direction hf hc hk (Ne.symm hy)).mp (Eq.refl (decide (edge_side v k < 0)))
  generalize hleft : decide (edge_side v k < 0) = left at hkind
  have hspec := edge_spec hy left
  obtain ⟨y, c, hm, hout⟩ := hspec.rising (Rising.swap.mp hr)
  have hb : Bounds v s left y k := ⟨hk, Covers.swap.mp (hspec.rows y c hm), hkind⟩
  rw [side_iff_inner hc hkind] at hout
  have hmark : Marked v left y c := ⟨k, hk, hleft, hm⟩
  obtain ⟨h0, h1⟩ := marked_row hf hc hmark
  obtain ⟨l, hl⟩ := exists_bounds hf hc h0 h1 (!left)
  obtain ⟨c', hm', hreach⟩ := hl.marked hf hc
  have hc' := hreach c (hb.outer hc hl (by omega))
  have hmin := ((table_xmin (y := y) hf hv).mp le_rfl).2
  have hmax := ((table_xmax (y := y) hf hv).mp le_rfl).2
  have hbetween : ((make_span_table v).st y).xmin ≤ c ∧ c ≤ ((make_span_table v).st y).xmax := by
    cases left with
    | true => exact ⟨hmin c hmark, (show c ≤ c' from hc').trans (hmax c' hm')⟩
    | false => exact ⟨(hmin c' hm').trans (show c' ≤ c from hc'), hmax c hmark⟩
  have hinside := (he.2 y h0 h1 (by omega) c).mp ((drawn_iff hc.two h0 h1 (by omega)).mpr hbetween)
  exact hout (hinside k)

def triangle : List Vertex := [⟨0, 0⟩, ⟨4, 0⟩, ⟨4, 1⟩]

def steepTriangle : List Vertex := [⟨0, 0⟩, ⟨4, 0⟩, ⟨4, 6⟩]

theorem vertex_all (P : Vertex → Vertex → Prop) (hv : v ≠ []) (h : ∀ k < v.length, P (vertex v k) (vertex v (k + 1))) (k : Nat) :
    P (vertex v k) (vertex v (k + 1)) := by
  rw [← vertex_mod v k, ← vertex_mod_succ v k]
  exact h _ (Nat.mod_lt _ (length_pos_iff.mpr hv))

instance (p q : Vertex) : Decidable (Short p q) := inferInstanceAs (Decidable (_ ∧ _ ∧ _ ∧ _))

end WWindowSystem.Graph.Polygon
