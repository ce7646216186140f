import WWindowSystem.Graph.Circle
import WWindowSystem.Graph.Line

namespace WWindowSystem.Graph

def octet (x0 y0 x y : Int) (s : Canvas) : Canvas :=
  [(x0 + x, y0 + y), (x0 - x, y0 + y), (x0 + x, y0 - y), (x0 - x, y0 - y),
    (x0 + y, y0 + x), (x0 - y, y0 + x), (x0 + y, y0 - x), (x0 - y, y0 - x)].foldl (fun s p => s.draw (.plot p.1 p.2)) s

structure Octant where
  x : Int
  y : Int
  da : Int
  canvas : Canvas

def octantTurn (x0 y0 : Int) (s : Octant) : Octant ⊕ Option Octant :=
  let y := if s.da < 0 then s.y - 1 else s.y
  let da := if s.da < 0 then s.da + (y + y) else s.da
  match longs [y, y + y, da, x0 + s.x, x0 - s.x, y0 + y, y0 - y, x0 + y, x0 - y, y0 + s.x, y0 - s.x, da - s.x,
      da - s.x - s.x, da - s.x - s.x - 1, s.x + 1] with
  | none => .inr none
  | some _ =>
    let t : Octant := ⟨s.x + 1, y, da - s.x - s.x - 1, octet x0 y0 s.x y s.canvas⟩
    if t.x < t.y then .inl t else .inr (some t)

def circle (n : Nat) (drawmode : DrawMode) (x0 y0 r : Int) (s : Canvas) : Option Canvas := do
  if r = 0 then return s.draw (.plot x0 y0)
  longs ([x0 - r, x0 - r - 1, y0 - r, y0 - r - 1, r + r, r + r + 2, x0 + r, y0 + r, r - 1] ++
    boxValues (x0 - r - 1) (y0 - r - 1) (r + r + 2) (r + r + 2) s.glob_clip0)
  let t := unclipped s (x0 - r - 1) (y0 - r - 1) (r + r + 2) (r + r + 2)
  let t :=
    if drawmode = .M_INVERS then
      (((t.draw (.plot (x0 - r) y0)).draw (.plot (x0 + r) y0)).draw (.plot x0 (y0 - r))).draw (.plot x0 (y0 + r))
    else t
  let e ← (runLoop (octantTurn x0 y0) n ⟨0, r, r - 1, t⟩).join
  let t :=
    if drawmode = .M_INVERS ∧ e.x ≠ e.y then
      (((e.canvas.draw (.plot (x0 - e.y) (y0 - e.y))).draw (.plot (x0 + e.y) (y0 - e.y))).draw
        (.plot (x0 + e.y) (y0 + e.y))).draw (.plot (x0 - e.y) (y0 + e.y))
    else e.canvas
  return { t with glob_clip0 := s.glob_clip0 }

def Ordinate (r x y : Int) : Prop := x * x + y * y - y < r * r ∧ r * r ≤ x * x + y * y + y

instance (r x y : Int) : Decidable (Ordinate r x y) := inferInstanceAs (Decidable (_ ∧ _))

variable {r x y x0 y0 : Int} {p : Point}

theorem Ordinate.pos (h : Ordinate r x y) : 0 < y := by
  obtain ⟨h1, h2⟩ := h
  omega

theorem Ordinate.anti {x' y' : Int} (h : Ordinate r x y) (h' : Ordinate r x' y') (h0 : 0 ≤ x) (hle : x ≤ x') : y' ≤ y := by
  have hpos := h.pos
  have hx := mul_self_le_mul_self h0 hle
  by_contra hlt
  -- z * z - z grows, and the one of y + 1 is y * y + y
  have hy : (y + 1) * (y + 1) - (y + 1) ≤ y' * y' - y' := by nlinarith
  obtain ⟨-, h2⟩ := h
  obtain ⟨h3, -⟩ := h'
  nlinarith

theorem Ordinate.unique {y' : Int} (h : Ordinate r x y) (h' : Ordinate r x y') (h0 : 0 ≤ x) : y = y' :=
  le_antisymm (h'.anti h h0 le_rfl) (h.anti h' h0 le_rfl)

theorem ordinate_next (h : Ordinate r (x - 1) y) (h0 : 1 ≤ x) (hlt : x < y) :
    if r * r - 1 - (x * x + y * y - y) < 0 then Ordinate r x (y - 1) else Ordinate r x y := by
  obtain ⟨h1, h2⟩ := h
  split_ifs with hda
  · constructor <;> nlinarith
  · constructor <;> nlinarith

theorem ordinate_first (hr : 1 ≤ r) : Ordinate r 0 r := by
  constructor <;> omega

def on (a b : Int) : Nat := if a = b then 1 else 0

theorem plot_hits (s : Canvas) (x0 y0 i j : Int) (p : Point) :
    (s.draw (.plot (x0 + i) (y0 + j))).hits p = s.hits p + on (p.1 - x0) i * on (p.2 - y0) j := by
  have hp : (Stroke.plot (x0 + i) (y0 + j)).passes p = true ↔ p.1 - x0 = i ∧ p.2 - y0 = j := by
    rw [Stroke.passes, decide_eq_true_eq, Prod.ext_iff]
    constructor <;> rintro ⟨h1, h2⟩ <;> simp only at * <;> omega
  rw [Canvas.hits_draw, on, on]
  by_cases h1 : p.1 - x0 = i
  · by_cases h2 : p.2 - y0 = j
    · rw [if_pos (hp.mpr ⟨h1, h2⟩), if_pos h1, if_pos h2]
    · rw [if_neg fun h => h2 (hp.mp h).2, if_neg h2, mul_zero]
  · rw [if_neg fun h => h1 (hp.mp h).1, if_neg h1, zero_mul]

theorem on_signs (u : Int) {i : Int} (hi : 0 ≤ i) : on u i + on u (-i) = if |u| = i then if i = 0 then 2 else 1 else 0 := by
  unfold on
  rcases abs_cases u with ⟨ha, hu⟩ | ⟨ha, hu⟩ <;> rw [ha] <;> split_ifs <;> omega

theorem octet_hits (s : Canvas) (x0 y0 i j : Int) (p : Point) : (octet x0 y0 i j s).hits p = s.hits p +
    ((on (p.1 - x0) i + on (p.1 - x0) (-i)) * (on (p.2 - y0) j + on (p.2 - y0) (-j)) +
      (on (p.1 - x0) j + on (p.1 - x0) (-j)) * (on (p.2 - y0) i + on (p.2 - y0) (-i))) := by
  simp only [octet, List.foldl_cons, List.foldl_nil, sub_eq_add_neg, plot_hits]
  ring

def low (x0 y0 : Int) (p : Point) : Int := min |p.1 - x0| |p.2 - y0|

def high (x0 y0 : Int) (p : Point) : Int := max |p.1 - x0| |p.2 - y0|

def share (a b : Int) : Nat := if a = 0 ∨ a = b then 2 else 1

theorem octet_share (s : Canvas) (x0 y0 : Int) {i j : Int} (hi : 0 ≤ i) (hij : i ≤ j) (hj : 0 < j) (p : Point) :
    (octet x0 y0 i j s).hits p = s.hits p + if low x0 y0 p = i ∧ high x0 y0 p = j then share i j else 0 := by
  rw [octet_hits, on_signs _ hi, on_signs _ (hi.trans hij), on_signs _ hi, on_signs _ (hi.trans hij), low, high, share]
  congr 1
  generalize |p.1 - x0| = u
  generalize |p.2 - y0| = v
  rw [if_neg hj.ne']
  split_ifs <;> omega

structure Octant.Drawn (r x0 y0 : Int) (base : Point → Nat) (s : Octant) : Prop where
  nonneg : 0 ≤ s.x
  row : s.x = 0 ∧ s.y = r ∨ 1 ≤ s.x ∧ Ordinate r (s.x - 1) s.y ∧ s.x - 1 ≤ s.y
  term : s.da = r * r - 1 - (s.x * s.x + s.y * s.y - s.y)
  steep : ∀ i b, 1 ≤ i → i < s.x → Ordinate r (i - 1) b → i < b
  hits : ∀ p, s.canvas.hits p = base p +
    if low x0 y0 p < s.x ∧ Ordinate r (low x0 y0 p) (high x0 y0 p) then share (low x0 y0 p) (high x0 y0 p) else 0

variable {base : Point → Nat} {s : Octant}

theorem octant_row (hr : 1 ≤ r) (h : s.Drawn r x0 y0 base) (hlt : s.x < s.y) :
    Ordinate r s.x (if s.da < 0 then s.y - 1 else s.y) := by
  rw [h.term]
  rcases h.row with ⟨hx, hy⟩ | ⟨hx, ho, -⟩
  · rw [hx, hy, if_neg (by nlinarith)]
    exact ordinate_first hr
  · have hnext := ordinate_next ho hx hlt
    split_ifs with hda
    · rwa [if_pos hda] at hnext
    · rwa [if_neg hda] at hnext

theorem Octant.Drawn.y_le (hr : 1 ≤ r) (h : s.Drawn r x0 y0 base) : s.y ≤ r := by
  rcases h.row with ⟨-, hy⟩ | ⟨hx, ho, -⟩
  · exact hy.le
  · exact (ordinate_first hr).anti ho le_rfl (by omega)

theorem octant_turn (hr : 1 ≤ r) (hmax : r ≤ 32767) (hc : Center x0 y0)
    (h : s.Drawn r x0 y0 base) (hlt : s.x < s.y) :
    ∃ t : Octant, octantTurn x0 y0 s = (if t.x < t.y then .inl t else .inr (some t)) ∧ t.Drawn r x0 y0 base ∧
      t.x = s.x + 1 ∧ t.y ≤ s.y := by
  have hx := h.nonneg
  have hy := h.y_le hr
  have hrow := octant_row hr h hlt
  have hterm := h.term
  obtain ⟨y, hyd⟩ : ∃ y, y = if s.da < 0 then s.y - 1 else s.y := ⟨_, rfl⟩
  obtain ⟨da, hda⟩ : ∃ da, da = if s.da < 0 then s.da + (y + y) else s.da := ⟨_, rfl⟩
  rw [← hyd] at hrow
  have hle : y ≤ s.y ∧ s.y ≤ y + 1 := by split_ifs at hyd <;> omega
  have hda' : da = r * r - 1 - (s.x * s.x + y * y - y) := by
    split_ifs at hda hyd with hneg
    · rw [hda, hterm, hyd]
      ring
    · rw [hda, hterm, hyd]
  have hpos := hrow.pos
  have hlongs : longs [y, y + y, da, x0 + s.x, x0 - s.x, y0 + y, y0 - y, x0 + y, x0 - y, y0 + s.x, y0 - s.x, da - s.x,
      da - s.x - s.x, da - s.x - s.x - 1, s.x + 1] = some () := by
    obtain ⟨hx1, hx2, hy1, hy2⟩ := hc
    have h1 := square_short hpos.le (hle.1.trans (hy.trans hmax))
    have h2 := square_short hx (show s.x ≤ 32767 by omega)
    have h3 := square_short (show 0 ≤ r by omega) hmax
    have h4 := mul_self_nonneg y
    have h5 := mul_self_nonneg s.x
    have h6 := mul_self_nonneg r
    apply longs_eq
    simp only [List.forall_mem_cons, List.not_mem_nil, false_imp_iff, implies_true, and_true]
    omega
  refine ⟨⟨s.x + 1, y, da - s.x - s.x - 1, octet x0 y0 s.x y s.canvas⟩, ?_, ⟨?_, ?_, ?_, ?_, ?_⟩, rfl, hle.1⟩
  · simp only [octantTurn, ← hyd, ← hda, hlongs]
  · exact Int.le_add_one hx
  · exact .inr ⟨by simp only; omega, by simpa using hrow, by simp only; omega⟩
  · rw [hda']
    ring
  · intro i b h1 hi ho
    by_cases he : i = s.x
    · subst he
      rcases h.row with ⟨h0, -⟩ | ⟨-, ho', -⟩
      · omega
      · rwa [ho.unique ho' (by omega)]
    · simp only at hi
      exact h.steep i b h1 (by omega) ho
  · intro p
    rw [octet_share s.canvas x0 y0 hx (by omega) hpos, h.hits, add_assoc]
    congr 1
    -- the abscissa of the point was plotted before, is plotted now, or is still to come
    rcases lt_trichotomy (low x0 y0 p) s.x with hl | hl | hl
    · rw [if_neg (show ¬ (low x0 y0 p = s.x ∧ high x0 y0 p = y) from fun hh => absurd hh.1 hl.ne), add_zero]
      simp only [hl, true_and, show low x0 y0 p < s.x + 1 by omega]
    · rw [if_neg (fun hh => absurd hh.1 (by omega)), zero_add, hl]
      by_cases ho : high x0 y0 p = y
      · rw [if_pos ⟨rfl, ho⟩, if_pos ⟨by simp only; omega, ho ▸ hrow⟩, ho]
      · rw [if_neg fun hh => ho hh.2, if_neg fun hh => ho (hh.2.unique hrow hx)]
    · rw [if_neg (fun hh => absurd hh.1 (by omega)), if_neg (fun hh => absurd hh.1 (by omega)),
        if_neg (fun hh => absurd hh.1 (by simp only; omega))]

theorem octant_run {n : Nat} (hr : 1 ≤ r) (hmax : r ≤ 32767) (hc : Center x0 y0)
    (h : s.Drawn r x0 y0 base) (hlt : s.x < s.y) (hn : r.toNat < n) :
    ∃ t : Octant, runLoop (octantTurn x0 y0) n s = some (some t) ∧ t.Drawn r x0 y0 base ∧ 1 ≤ t.x ∧ t.y ≤ t.x := by
  have hloop : ∃ e, runLoop (octantTurn x0 y0) n s = some e ∧
      ∃ t : Octant, e = some t ∧ t.Drawn r x0 y0 base ∧ 1 ≤ t.x ∧ t.y ≤ t.x := by
    apply runLoop_spec (fun s : Octant => s.Drawn r x0 y0 base ∧ s.x < s.y) (fun s => (s.y - s.x).toNat) _ _ _ ⟨h, hlt⟩
    · have := h.nonneg
      have := h.y_le hr
      omega
    · rintro s s' ⟨hd, hlt⟩ hturn
      obtain ⟨t, ht, hd', hx, hy⟩ := octant_turn hr hmax hc hd hlt
      rw [ht] at hturn
      split_ifs at hturn with hmore
      obtain rfl := Sum.inl.inj hturn
      exact ⟨⟨hd', hmore⟩, by omega⟩
    · rintro s e ⟨hd, hlt⟩ hturn
      obtain ⟨t, ht, hd', hx, hy⟩ := octant_turn hr hmax hc hd hlt
      rw [ht] at hturn
      split_ifs at hturn with hmore
      obtain rfl := Sum.inr.inj hturn
      have := hd.nonneg
      exact ⟨t, rfl, hd', by omega, by omega⟩
  obtain ⟨_, hrun, t, rfl, ht⟩ := hloop
  exact ⟨t, hrun, ht⟩

/-- A point of the first octant that belongs to the outline. The corner on the diagonal is left out when the column
next to it ends in the same row. -/
def Outlined (r a b : Int) : Prop := Ordinate r a b ∧ a ≤ b ∧ (a = b → ¬ Ordinate r (a - 1) b)

theorem low_nonneg (x0 y0 : Int) (p : Point) : 0 ≤ low x0 y0 p := le_min (abs_nonneg _) (abs_nonneg _)

theorem low_le_high (x0 y0 : Int) (p : Point) : low x0 y0 p ≤ high x0 y0 p := min_le_max

theorem octant_end (h : s.Drawn r x0 y0 base) (h1 : 1 ≤ s.x) (hle : s.y ≤ s.x) {a b : Int}
    (ha : 0 ≤ a) (hab : a ≤ b) : a < s.x ∧ Ordinate r a b ↔ Outlined r a b := by
  obtain ⟨-, ho, hlast⟩ : 1 ≤ s.x ∧ Ordinate r (s.x - 1) s.y ∧ s.x - 1 ≤ s.y := by
    rcases h.row with ⟨h0, -⟩ | hrow
    · omega
    · exact hrow
  constructor
  · rintro ⟨hlt, hab'⟩
    refine ⟨hab', hab, ?_⟩
    rintro rfl hprev
    by_cases h0 : a = 0
    · have := hab'.pos
      omega
    · exact lt_irrefl a (h.steep a a (by omega) hlt hprev)
  · rintro ⟨hab', -, hdiag⟩
    refine ⟨?_, hab'⟩
    by_contra hge
    have hba := ho.anti hab' (by omega) (by omega)
    have heq : a = b := by omega
    refine hdiag heq ?_
    rwa [show a - 1 = s.x - 1 by omega, show b = s.y by omega]

theorem diagonal_end (h : s.Drawn r x0 y0 base) (h1 : 1 ≤ s.x) (hle : s.y ≤ s.x) {a : Int}
    (ha : 0 ≤ a) (hin : a < s.x ∧ Ordinate r a a) : s.x ≠ s.y ∧ a = s.y := by
  obtain ⟨-, ho, hlast⟩ : 1 ≤ s.x ∧ Ordinate r (s.x - 1) s.y ∧ s.x - 1 ≤ s.y := by
    rcases h.row with ⟨h0, -⟩ | hrow
    · omega
    · exact hrow
  have hay := hin.2.anti ho ha (by omega)
  omega

theorem axes_hits (s : Canvas) (x0 y0 : Int) (hr : 1 ≤ r) (p : Point) :
    ((((s.draw (.plot (x0 - r) y0)).draw (.plot (x0 + r) y0)).draw (.plot x0 (y0 - r))).draw (.plot x0 (y0 + r))).hits p =
      s.hits p + if low x0 y0 p = 0 ∧ high x0 y0 p = r then 1 else 0 := by
  have h0 : ∀ z : Int, z = z + 0 := fun z => (add_zero z).symm
  have hsum : ((((s.draw (.plot (x0 + -r) (y0 + 0))).draw (.plot (x0 + r) (y0 + 0))).draw (.plot (x0 + 0) (y0 + -r))).draw
      (.plot (x0 + 0) (y0 + r))).hits p = s.hits p +
        ((on (p.1 - x0) r + on (p.1 - x0) (-r)) * on (p.2 - y0) 0 + on (p.1 - x0) 0 * (on (p.2 - y0) r + on (p.2 - y0) (-r))) := by
    simp only [plot_hits]
    ring
  simp only [add_zero, ← sub_eq_add_neg] at hsum
  rw [hsum, on_signs _ (by omega), on_signs _ (by omega), low, high, on, on]
  congr 1
  have hu : p.1 - x0 = 0 ↔ |p.1 - x0| = 0 := abs_eq_zero.symm
  have hv : p.2 - y0 = 0 ↔ |p.2 - y0| = 0 := abs_eq_zero.symm
  simp only [hu, hv]
  generalize |p.1 - x0| = u
  generalize |p.2 - y0| = v
  split_ifs <;> omega

theorem corners_hits (s : Canvas) (x0 y0 : Int) {y : Int} (hy : 0 < y) (p : Point) :
    ((((s.draw (.plot (x0 - y) (y0 - y))).draw (.plot (x0 + y) (y0 - y))).draw (.plot (x0 + y) (y0 + y))).draw
      (.plot (x0 - y) (y0 + y))).hits p = s.hits p + if low x0 y0 p = y ∧ high x0 y0 p = y then 1 else 0 := by
  have hsum : ((((s.draw (.plot (x0 + -y) (y0 + -y))).draw (.plot (x0 + y) (y0 + -y))).draw (.plot (x0 + y) (y0 + y))).draw
      (.plot (x0 + -y) (y0 + y))).hits p = s.hits p +
        (on (p.1 - x0) y + on (p.1 - x0) (-y)) * (on (p.2 - y0) y + on (p.2 - y0) (-y)) := by
    simp only [plot_hits]
    ring
  simp only [← sub_eq_add_neg] at hsum
  rw [hsum, on_signs _ hy.le, on_signs _ hy.le, low, high]
  congr 1
  generalize |p.1 - x0| = u
  generalize |p.2 - y0| = v
  split_ifs <;> omega

/-- The plots of the outline: each point of it, an odd number of times when plots invert. -/
theorem circle_outline (cl : Option Rec) (hcl : ClipShorts cl) (drawmode : DrawMode) (x0 y0 r : Int) (hc : Center x0 y0)
    (hr : 1 ≤ r ∧ r ≤ 32767) : ∃ m, ∀ n ≥ m, ∃ s, circle n drawmode x0 y0 r ⟨cl, []⟩ = some s ∧
      (∀ p, 0 < s.hits p ↔ Outlined r (low x0 y0 p) (high x0 y0 p)) ∧
      (drawmode = .M_INVERS → ∀ p, 0 < s.hits p → s.hits p % 2 = 1) := by
  refine ⟨32768, fun n hn => ?_⟩
  have hlongs : longs ([x0 - r, x0 - r - 1, y0 - r, y0 - r - 1, r + r, r + r + 2, x0 + r, y0 + r, r - 1] ++
      boxValues (x0 - r - 1) (y0 - r - 1) (r + r + 2) (r + r + 2) cl) = some () := by
    apply start_longs hcl hc ⟨by omega, hr.2⟩ ⟨by omega, hr.2⟩
    obtain ⟨hx1, hx2, hy1, hy2⟩ := hc
    simp only [List.forall_mem_cons, List.not_mem_nil, false_imp_iff, implies_true, and_true]
    omega
  obtain ⟨t, ht⟩ : ∃ t, t = unclipped ⟨cl, []⟩ (x0 - r - 1) (y0 - r - 1) (r + r + 2) (r + r + 2) := ⟨_, rfl⟩
  have hempty : ∀ p, t.hits p = 0 := fun p => by rw [ht, Canvas.hits, unclipped_calls]; rfl
  obtain ⟨u, hu⟩ : ∃ u, u = if drawmode = .M_INVERS then
      (((t.draw (.plot (x0 - r) y0)).draw (.plot (x0 + r) y0)).draw (.plot x0 (y0 - r))).draw (.plot x0 (y0 + r))
    else t := ⟨_, rfl⟩
  have hbase : ∀ p, u.hits p = if drawmode = .M_INVERS ∧ low x0 y0 p = 0 ∧ high x0 y0 p = r then 1 else 0 := by
    intro p
    rw [hu]
    by_cases hm : drawmode = .M_INVERS
    · rw [if_pos hm, axes_hits _ _ _ hr.1, hempty, zero_add]
      simp only [hm, true_and]
    · rw [if_neg hm, hempty, if_neg fun hh => hm hh.1]
  have hstart : Octant.Drawn r x0 y0 u.hits ⟨0, r, r - 1, u⟩ := by
    refine ⟨le_rfl, .inl ⟨rfl, rfl⟩, by simp only; ring, fun i b h1 hi => by simp only at hi; omega, fun p => ?_⟩
    rw [if_neg fun hh => absurd hh.1 (not_lt.mpr (low_nonneg x0 y0 p)), add_zero]
  obtain ⟨e, he, hd, h1, hle⟩ := octant_run (n := n) hr.1 hr.2 hc hstart (by simp only; omega) (by omega)
  obtain ⟨ho, hlast⟩ : Ordinate r (e.x - 1) e.y ∧ e.x - 1 ≤ e.y := by
    rcases hd.row with ⟨h0, -⟩ | ⟨-, hrow⟩
    · omega
    · exact hrow
  obtain ⟨f, hf⟩ : ∃ f, f = if drawmode = .M_INVERS ∧ e.x ≠ e.y then
      (((e.canvas.draw (.plot (x0 - e.y) (y0 - e.y))).draw (.plot (x0 + e.y) (y0 - e.y))).draw
        (.plot (x0 + e.y) (y0 + e.y))).draw (.plot (x0 - e.y) (y0 + e.y))
    else e.canvas := ⟨_, rfl⟩
  have htotal : ∀ p, f.hits p = (if drawmode = .M_INVERS ∧ low x0 y0 p = 0 ∧ high x0 y0 p = r then 1 else 0) +
      (if low x0 y0 p < e.x ∧ Ordinate r (low x0 y0 p) (high x0 y0 p) then share (low x0 y0 p) (high x0 y0 p) else 0) +
      if drawmode = .M_INVERS ∧ e.x ≠ e.y ∧ low x0 y0 p = e.y ∧ high x0 y0 p = e.y then 1 else 0 := by
    intro p
    rw [← hbase, ← hd.hits, hf]
    by_cases hm : drawmode = .M_INVERS ∧ e.x ≠ e.y
    · rw [if_pos hm, corners_hits _ _ _ ho.pos]
      simp only [hm.1, hm.2, true_and, ne_eq, not_false_eq_true]
    · rw [if_neg hm, if_neg fun hh => hm ⟨hh.1, hh.2.1⟩, add_zero]
  have hplotted : ∀ p, 0 < f.hits p ↔ low x0 y0 p < e.x ∧ Ordinate r (low x0 y0 p) (high x0 y0 p) := by
    intro p
    rw [htotal]
    constructor
    · intro hpos
      by_contra hout
      have hfirst : ¬ (drawmode = .M_INVERS ∧ low x0 y0 p = 0 ∧ high x0 y0 p = r) := by
        rintro ⟨-, hl, hh⟩
        rw [hl, hh] at hout
        exact hout ⟨by omega, ordinate_first hr.1⟩
      have hcorner : ¬ (drawmode = .M_INVERS ∧ e.x ≠ e.y ∧ low x0 y0 p = e.y ∧ high x0 y0 p = e.y) := by
        rintro ⟨-, hne, hl, hh⟩
        rw [hl, hh] at hout
        rw [show e.x - 1 = e.y by omega] at ho
        exact hout ⟨by omega, ho⟩
      rw [if_neg hfirst, if_neg hout, if_neg hcorner] at hpos
      exact lt_irrefl 0 hpos
    · intro hin
      rw [if_pos hin, share]
      split_ifs <;> omega
  refine ⟨{ f with glob_clip0 := cl }, ?_, fun p => ?_, fun hm p hpos => ?_⟩
  · simp only [circle, if_neg (show r ≠ 0 by omega), hlongs, ← ht, ← hu, he, ← hf, Option.bind_eq_bind, Option.bind_some, Option.join_some]
    rfl
  · rw [Canvas.hits_clip, hplotted, octant_end hd h1 hle (low_nonneg x0 y0 p) (low_le_high x0 y0 p)]
  · rw [Canvas.hits_clip] at hpos ⊢
    have hin := (hplotted p).mp hpos
    rw [htotal, if_pos hin, share]
    by_cases hl : low x0 y0 p = 0
    · have hh : high x0 y0 p = r := (hl ▸ hin.2).unique (ordinate_first hr.1) le_rfl
      have := ho.pos
      rw [if_pos ⟨hm, hl, hh⟩, if_pos (.inl hl), if_neg fun hh => absurd hh.2.2.1 (by omega)]
    · by_cases hdiag : low x0 y0 p = high x0 y0 p
      · obtain ⟨hne, hy⟩ := diagonal_end hd h1 hle (low_nonneg x0 y0 p) ⟨hin.1, by rw [← hdiag] at hin; exact hin.2⟩
        rw [if_neg fun hh => hl hh.2.1, if_pos (.inr hdiag), if_pos ⟨hm, hne, hy, hdiag ▸ hy⟩]
      · rw [if_neg fun hh => hl hh.2.1, if_neg (not_or.mpr ⟨hl, hdiag⟩), if_neg fun hh => hdiag (hh.2.2.1.trans hh.2.2.2.symm)]

theorem circle_outline_four : ∃ m, ∀ n ≥ m, ∃ s, circle n .M_INVERS 10 (-4) 4 ⟨none, []⟩ = some s ∧
      (∀ p, 0 < s.hits p ↔ Outlined 4 (low 10 (-4) p) (high 10 (-4) p)) ∧
      (DrawMode.M_INVERS = .M_INVERS → ∀ p, 0 < s.hits p → s.hits p % 2 = 1) :=
  circle_outline none (fun _ h => nomatch h) .M_INVERS 10 (-4) 4 (by unfold Center; omega) (by decide)

/-- The corner on the diagonal that is left out. -/
theorem circle_corner_missing : Ordinate 4 3 3 ∧
    ∀ n ≥ 5, ∃ s, circle n .M_DRAW 10 10 4 ⟨none, []⟩ = some s ∧ s.hits (13, 13) = 0 := by
  refine ⟨by decide, fun n hn => ?_⟩
  obtain ⟨k, rfl⟩ : ∃ k, n = k + 5 := ⟨n - 5, by omega⟩
  exact ⟨_, rfl, by decide⟩

end WWindowSystem.Graph
