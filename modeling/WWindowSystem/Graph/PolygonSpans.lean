import WWindowSystem.Graph.PolygonEdges

namespace WWindowSystem.Graph.Polygon

open List

variable {left : Bool} {x y z r s : Int} {t : Spans} {v : List Vertex} {a b c d p : Vertex} {k : Nat}

theorem foldl_iff {β α : Type} {f : β → α → β} {P : β → Prop} {Q : α → Prop} (h : ∀ t a, P (f t a) ↔ P t ∧ Q a)
    (l : List α) (t : β) : P (l.foldl f t) ↔ P t ∧ ∀ a ∈ l, Q a := by
  induction l generalizing t with
  | nil => simp
  | cons a l ih => rw [foldl_cons, ih, h, and_assoc, forall_mem_cons]

theorem note_xmin {y' : Int} : z ≤ ((note left y' x t).st y).xmin ↔ z ≤ (t.st y).xmin ∧ (left = true → y' = y → z ≤ x) := by
  unfold note
  by_cases hy : y = y'
  · subst hy
    simp only [Function.update_self]
    split_ifs with hl hx <;> simp [hl] <;> omega
  · simp only [Function.update_of_ne hy]
    exact ⟨fun h => ⟨h, fun _ he => absurd he.symm hy⟩, fun h => h.1⟩

theorem note_xmax {y' : Int} : ((note left y' x t).st y).xmax ≤ z ↔ (t.st y).xmax ≤ z ∧ (left = false → y' = y → x ≤ z) := by
  unfold note
  by_cases hy : y = y'
  · subst hy
    simp only [Function.update_self]
    split_ifs with hl hx <;> simp [hl] <;> omega
  · simp only [Function.update_of_ne hy]
    exact ⟨fun h => ⟨h, fun _ he => absurd he.symm hy⟩, fun h => h.1⟩

variable {Q : Int → Prop}

theorem marks_row {A : Prop} {l : Marks} : (∀ m ∈ l, A → m.1 = y → Q m.2) ↔ (A → ∀ c, (y, c) ∈ l → Q c) :=
  ⟨fun h hl c hc => h (y, c) hc hl rfl, fun h m hm hl he => h hl m.2 (he ▸ hm)⟩

variable (l : Marks)

theorem notes_xmin : z ≤ ((notes left l t).st y).xmin ↔
    z ≤ (t.st y).xmin ∧ (left = true → ∀ c, (y, c) ∈ l → z ≤ c) := by
  rw [← marks_row (Q := fun c => z ≤ c)]
  exact foldl_iff (P := fun t : Spans => z ≤ (t.st y).xmin) (Q := fun m : Int × Int => left = true → m.1 = y → z ≤ m.2)
    (fun _ _ => note_xmin) l t

theorem notes_xmax : ((notes left l t).st y).xmax ≤ z ↔
    (t.st y).xmax ≤ z ∧ (left = false → ∀ c, (y, c) ∈ l → c ≤ z) := by
  rw [← marks_row (Q := fun c => c ≤ z)]
  exact foldl_iff (P := fun t : Spans => (t.st y).xmax ≤ z) (Q := fun m : Int × Int => left = false → m.1 = y → m.2 ≤ z)
    (fun _ _ => note_xmax) l t

theorem notes_rows : r ∈ (notes left l t).rows ↔ (∃ c, (r, c) ∈ l) ∨ r ∈ t.rows := by
  induction l generalizing t with
  | nil => simp [notes]
  | cons m l ih =>
    rw [notes, foldl_cons]
    refine ih.trans ?_
    simp only [note, mem_cons]
    constructor
    · rintro (⟨c, hc⟩ | rfl | hr)
      · exact .inl ⟨c, .inr hc⟩
      · exact .inl ⟨m.2, .inl rfl⟩
      · exact .inr hr
    · rintro (⟨c, rfl | hc⟩ | hr)
      · exact .inr (.inl rfl)
      · exact .inl ⟨c, hc⟩
      · exact .inr (.inr hr)

def Marked (v : List Vertex) (left : Bool) (y c : Int) : Prop :=
  ∃ k < v.length, decide (edge_side v k < 0) = left ∧ (y, c) ∈ edgeMarks left (vertex v (k + 1)) (vertex v k)

structure Fits (v : List Vertex) : Prop where
  long : ∀ p ∈ v, LONG_MIN ≤ p.x ∧ p.x ≤ LONG_MAX ∧ LONG_MIN ≤ p.y ∧ p.y ≤ LONG_MAX
  short : ∀ p ∈ v, ∀ q ∈ v, Short p q
  area : ∀ p ∈ v, ∀ q ∈ v, ∀ r ∈ v, -2147483648 ≤ cross p q r ∧ cross p q r ≤ 2147483647

theorem vertex_mem (hv : v ≠ []) (k : Nat) : vertex v k ∈ v := by
  have hlen : k % v.length < v.length := Nat.mod_lt _ (length_pos_iff.mpr hv)
  rw [vertex, getD_eq_getElem?_getD, getElem?_eq_getElem hlen]
  exact getElem_mem hlen

def noteEdge (v : List Vertex) (t : Spans) (k : Nat) : Spans :=
  notes (decide (edge_side v k < 0)) (edgeMarks (decide (edge_side v k < 0)) (vertex v (k + 1)) (vertex v k)) t

theorem make_span_table_eq (hf : Fits v) (hv : v ≠ []) :
    make_span_table v = (List.range v.length).reverse.foldl (noteEdge v) ⟨fun _ => ⟨LONG_MAX, LONG_MIN⟩, []⟩ := by
  unfold make_span_table
  congr 1
  funext t k
  exact process_edge_notes (hf.short _ (vertex_mem hv _) _ (vertex_mem hv _))

variable (ks : List Nat)

theorem noteEdges_xmin (t : Spans) : z ≤ ((ks.foldl (noteEdge v) t).st y).xmin ↔
    z ≤ (t.st y).xmin ∧ ∀ k ∈ ks, decide (edge_side v k < 0) = true →
      ∀ c, (y, c) ∈ edgeMarks (decide (edge_side v k < 0)) (vertex v (k + 1)) (vertex v k) → z ≤ c := by
  refine foldl_iff (f := noteEdge v) (P := fun t => z ≤ (t.st y).xmin) (fun t k => ?_) ks t
  rw [noteEdge, notes_xmin]

theorem noteEdges_xmax (t : Spans) : ((ks.foldl (noteEdge v) t).st y).xmax ≤ z ↔
    (t.st y).xmax ≤ z ∧ ∀ k ∈ ks, decide (edge_side v k < 0) = false →
      ∀ c, (y, c) ∈ edgeMarks (decide (edge_side v k < 0)) (vertex v (k + 1)) (vertex v k) → c ≤ z := by
  refine foldl_iff (f := noteEdge v) (P := fun t => (t.st y).xmax ≤ z) (fun t k => ?_) ks t
  rw [noteEdge, notes_xmax]

theorem forall_marked : (∀ k ∈ (List.range v.length).reverse, decide (edge_side v k < 0) = left →
    ∀ c, (y, c) ∈ edgeMarks (decide (edge_side v k < 0)) (vertex v (k + 1)) (vertex v k) → Q c) ↔ ∀ c, Marked v left y c → Q c := by
  constructor
  · rintro h c ⟨k, hk, rfl, hc⟩
    exact h k (mem_reverse.mpr (mem_range.mpr hk)) rfl c hc
  · rintro h k hk rfl c hc
    exact h c ⟨k, mem_range.mp (mem_reverse.mp hk), rfl, hc⟩

theorem table_xmin (hf : Fits v) (hv : v ≠ []) : z ≤ ((make_span_table v).st y).xmin ↔
    z ≤ LONG_MAX ∧ ∀ c, Marked v true y c → z ≤ c := by
  rw [make_span_table_eq hf hv, noteEdges_xmin]
  exact and_congr_right fun _ => forall_marked (Q := fun c => z ≤ c)

theorem table_xmax (hf : Fits v) (hv : v ≠ []) : ((make_span_table v).st y).xmax ≤ z ↔
    LONG_MIN ≤ z ∧ ∀ c, Marked v false y c → c ≤ z := by
  rw [make_span_table_eq hf hv, noteEdges_xmax]
  exact and_congr_right fun _ => forall_marked (Q := fun c => c ≤ z)

theorem table_rows (hf : Fits v) (hv : v ≠ []) (hr : r ∈ (make_span_table v).rows) : ∃ left c, Marked v left r c := by
  rw [make_span_table_eq hf hv] at hr
  have hfold : ∀ (ks : List Nat) (t : Spans), r ∈ (ks.foldl (noteEdge v) t).rows →
      r ∈ t.rows ∨ ∃ k ∈ ks, ∃ c, (r, c) ∈ edgeMarks (decide (edge_side v k < 0)) (vertex v (k + 1)) (vertex v k) := by
    intro ks
    induction ks with
    | nil => exact fun t h => .inl h
    | cons k ks ih =>
      intro t h
      rw [foldl_cons] at h
      rcases ih _ h with h | ⟨k', hk', hc⟩
      · rcases (notes_rows _).mp h with hc | h
        · exact .inr ⟨k, mem_cons_self, hc⟩
        · exact .inl h
      · exact .inr ⟨k', mem_cons_of_mem _ hk', hc⟩
  rcases hfold _ _ hr with h | ⟨k, hk, c, hc⟩
  · cases h
  · exact ⟨_, c, k, mem_range.mp (mem_reverse.mp hk), rfl, hc⟩

structure Convex (v : List Vertex) (s : Int) : Prop where
  direction : s = 1 ∨ s = -1
  turns : ∀ k, ∀ r ∈ v, 0 ≤ s * cross (vertex v k) (vertex v (k + 1)) r
  spread : ∃ p ∈ v, ∃ q ∈ v, ∃ r ∈ v, cross p q r ≠ 0

def Inside (v : List Vertex) (s x y : Int) : Prop := ∀ k, 0 ≤ s * cross (vertex v k) (vertex v (k + 1)) ⟨x, y⟩

theorem Convex.ne_nil (hc : Convex v s) : v ≠ [] := by
  rintro rfl
  obtain ⟨p, hp, -⟩ := hc.spread
  cases hp

theorem cross_comb (a b c d : Vertex) (x y : Int) : (b.y - a.y) * cross c d ⟨x, y⟩ =
    (b.y - y) * cross c d a + (y - a.y) * cross c d b + (d.y - c.y) * cross a b ⟨x, y⟩ := by
  unfold cross
  ring

theorem inner_of_edge (hy : Covers a b y) (ha : 0 ≤ s * cross c d a) (hb : 0 ≤ s * cross c d b)
    (hup : a.y < b.y → 0 ≤ (d.y - c.y) * (s * cross a b ⟨x, y⟩)) (hdown : b.y < a.y → (d.y - c.y) * (s * cross a b ⟨x, y⟩) ≤ 0) :
    0 ≤ s * cross c d ⟨x, y⟩ := by
  have hcomb : (b.y - a.y) * (s * cross c d ⟨x, y⟩) = (b.y - y) * (s * cross c d a) + (y - a.y) * (s * cross c d b) +
      (d.y - c.y) * (s * cross a b ⟨x, y⟩) := by
    linear_combination s * cross_comb a b c d x y
  by_contra hneg
  rcases hy with ⟨h1, h2, h3⟩ | ⟨h1, h2, h3⟩
  · have hpos := mul_neg_of_pos_of_neg (show 0 < b.y - a.y by omega) (show s * cross c d ⟨x, y⟩ < 0 by omega)
    have h4 := mul_nonneg (show 0 ≤ b.y - y by omega) ha
    have h5 := mul_nonneg (show 0 ≤ y - a.y by omega) hb
    have h6 := hup h3
    omega
  · have hpos := mul_pos_of_neg_of_neg (show b.y - a.y < 0 by omega) (show s * cross c d ⟨x, y⟩ < 0 by omega)
    have h4 := mul_nonpos_of_nonpos_of_nonneg (show b.y - y ≤ 0 by omega) ha
    have h5 := mul_nonpos_of_nonpos_of_nonneg (show y - a.y ≤ 0 by omega) hb
    have h6 := hdown h3
    omega

theorem cross_flat (hy : a.y ≠ b.y) {p q r : Vertex} (hp : cross a b p = 0) (hq : cross a b q = 0) (hr : cross a b r = 0) :
    cross p q r = 0 := by
  have hd : b.y - a.y ≠ 0 := by omega
  apply (mul_eq_zero.mp (?_ : (b.y - a.y) * cross p q r = 0)).resolve_left hd
  unfold cross at *
  linear_combination (r.y - p.y) * (hp - hq) - (q.y - p.y) * (hp - hr)

theorem edge_type_sign (hf : Fits v) (hc : Convex v s) (hy : a.y ≠ b.y) (ha : a ∈ v) (hb : b ∈ v) (hp : p ∈ v)
    (hturn : 0 ≤ s * cross a b p) :
    (0 < s * (a.y - b.y) → edge_type b a p ≤ 0) ∧ (s * (a.y - b.y) < 0 → 0 ≤ edge_type b a p) ∧
      (edge_type b a p = 0 → cross a b p = 0) := by
  obtain ⟨hx1, hx2, -, -⟩ := hf.short p hp b hb
  obtain ⟨harea, harea'⟩ := hf.area b hb a ha p hp
  have hswap : cross a b p = -cross b a p := cross_swap b a p
  unfold edge_type
  rw [if_neg (Ne.symm hy)]
  by_cases hx : b.x = a.x
  · rw [if_pos hx, toint_of_range hx1 hx2]
    have hvert : cross a b p = (p.x - b.x) * (a.y - b.y) := by
      unfold cross
      rw [hx]
      ring
    have hs : s * cross a b p = (p.x - b.x) * (s * (a.y - b.y)) := by
      rw [hvert]
      ring
    rw [hs] at hturn
    refine ⟨fun hl => ?_, fun hr => ?_, fun h0 => ?_⟩
    · have := nonneg_of_mul_nonneg_left hturn hl
      omega
    · by_contra hneg
      have := mul_neg_of_pos_of_neg (show 0 < p.x - b.x by omega) hr
      omega
    · rw [hvert, show p.x - b.x = 0 by omega, zero_mul]
  · rw [if_neg hx]
    change (_ → (if a.y < b.y then -toint (cross b a p) else toint (cross b a p)) ≤ 0) ∧
      (_ → 0 ≤ if a.y < b.y then -toint (cross b a p) else toint (cross b a p)) ∧
        ((if a.y < b.y then -toint (cross b a p) else toint (cross b a p)) = 0 → _)
    rw [toint_of_range harea harea']
    rcases hc.direction with rfl | rfl
    · split_ifs <;> omega
    · split_ifs <;> omega

theorem find_type_mem {l : List Vertex} (h : ∃ p ∈ l, edge_type b a p ≠ 0) :
    ∃ p ∈ l, edge_type b a p ≠ 0 ∧ find_type b a l = edge_type b a p := by
  induction l with
  | nil =>
    obtain ⟨p, hp, -⟩ := h
    cases hp
  | cons p l ih =>
    rw [find_type]
    by_cases hp : edge_type b a p = 0
    · obtain ⟨q, hq, hq'⟩ := h
      have hrest : ∃ q ∈ l, edge_type b a q ≠ 0 := by
        rcases mem_cons.mp hq with rfl | hq
        · exact absurd hp hq'
        · exact ⟨q, hq, hq'⟩
      obtain ⟨q, hq, hne, he⟩ := ih hrest
      rw [if_neg (not_not.mpr hp)]
      exact ⟨q, mem_cons_of_mem _ hq, hne, he⟩
    · rw [if_pos hp]
      exact ⟨p, mem_cons_self, hp, rfl⟩

theorem mem_others (hk : k < v.length) (hp : p ∈ v) : p = vertex v k ∨ p = vertex v (k + 1) ∨ p ∈ others v k := by
  obtain ⟨m, hm, rfl⟩ := mem_iff_getElem.mp hp
  have hvertex : ∀ i, i % v.length = m → v[m] = vertex v i := by
    intro i hi
    rw [vertex, hi, getD_eq_getElem?_getD, getElem?_eq_getElem hm, Option.getD_some]
  by_cases h1 : m = k
  · exact .inl (hvertex k (by rw [Nat.mod_eq_of_lt hk, h1]))
  by_cases h2 : (k + 1) % v.length = m
  · exact .inr (.inl (hvertex _ h2))
  right
  right
  simp only [others, mem_map, mem_range]
  by_cases hlt : m < k
  · refine ⟨k - 1 - m, ?_, ?_⟩
    · have hlast : ¬ (k = v.length - 1 ∧ m = 0) := by
        rintro ⟨rfl, rfl⟩
        rw [Nat.sub_add_cancel (by omega), Nat.mod_self] at h2
        exact h2 rfl
      omega
    · refine (hvertex _ ?_).symm
      rw [show k + v.length - 1 - (k - 1 - m) = m + v.length by omega, Nat.add_mod_right, Nat.mod_eq_of_lt hm]
  · have hnext : m ≠ k + 1 := by
      rintro rfl
      rw [Nat.mod_eq_of_lt hm] at h2
      exact h2 rfl
    refine ⟨k + v.length - 1 - m, by omega, ?_⟩
    refine (hvertex _ ?_).symm
    rw [show k + v.length - 1 - (k + v.length - 1 - m) = m by omega, Nat.mod_eq_of_lt hm]

theorem edge_side_sign (hf : Fits v) (hc : Convex v s) (hk : k < v.length) (hy : (vertex v k).y ≠ (vertex v (k + 1)).y) :
    edge_side v k < 0 ↔ 0 < s * ((vertex v k).y - (vertex v (k + 1)).y) := by
  have hv := hc.ne_nil
  have hmem : ∀ p ∈ others v k, p ∈ v := by
    intro p hp
    obtain ⟨j, -, rfl⟩ := mem_map.mp hp
    exact vertex_mem hv _
  have htype := fun p (hp : p ∈ v) => edge_type_sign hf hc hy (vertex_mem hv k) (vertex_mem hv (k + 1)) hp (hc.turns k p hp)
  -- not all vertices are on the line of the edge
  have hoff : ∃ p ∈ others v k, edge_type (vertex v (k + 1)) (vertex v k) p ≠ 0 := by
    by_contra hnone
    have hall : ∀ p ∈ others v k, edge_type (vertex v (k + 1)) (vertex v k) p = 0 :=
      fun p hp => by_contra fun hne => hnone ⟨p, hp, hne⟩
    have hzero : ∀ p ∈ v, cross (vertex v k) (vertex v (k + 1)) p = 0 := by
      intro p hp
      rcases mem_others hk hp with rfl | rfl | ho
      · unfold cross
        ring
      · unfold cross
        ring
      · exact (htype p hp).2.2 (hall p ho)
    obtain ⟨p, hp, q, hq, r, hr, hne⟩ := hc.spread
    exact hne (cross_flat hy (hzero p hp) (hzero q hq) (hzero r hr))
  have hne : s * ((vertex v k).y - (vertex v (k + 1)).y) ≠ 0 := by
    rcases hc.direction with rfl | rfl <;> omega
  obtain ⟨p, hp, hdecides, hfind⟩ := find_type_mem hoff
  have hsign := htype p (hmem p hp)
  unfold edge_side
  simp only
  rw [hfind, if_pos hdecides]
  constructor
  · intro hneg
    by_contra hl
    have := hsign.2.1 (by omega)
    omega
  · intro hl
    have := hsign.1 hl
    omega

end WWindowSystem.Graph.Polygon
