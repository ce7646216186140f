import Mathlib.Data.List.Chain
import Mathlib.Data.List.Range
import Mathlib.Logic.Relation
import Mathlib.Data.Finset.Card
import Mathlib.Data.Finset.Prod
import WWindowSystem.Graph.Line

namespace WWindowSystem.Fill

open WWindowSystem.Graph List

structure WWIN where
  width : Nat
  height : Nat
  linewidth : Nat
  gc : WGC

abbrev Pixels := Nat → Nat → BitVec 8

def w_test (p : Pixels) (x y : Nat) : BitVec 8 := p x y

def w_hline (win : WWIN) (x0 y0 xe : Nat) (p : Pixels) : Pixels := fun x y =>
  let th := if win.linewidth > 2 then win.linewidth / 2 else 0
  if min x0 xe ≤ x ∧ x ≤ max x0 xe ∧ y0 ≤ y + th ∧ y ≤ y0 + th ∧ x < win.width ∧ y < win.height then win.gc.solid (p x y)
  else p x y

def STACK : Nat := 64

structure Stack where
  points : List (Nat × Nat)
  overflows : Nat

def Stack.PUSH (s : Stack) (x y : Nat) : Stack :=
  if 2 * s.points.length < STACK - 1 then { s with points := (x, y) :: s.points } else { s with overflows := s.overflows + 1 }

/-- Only the first pixel of a run above or below the line is pushed: `seeking` is the `above` or the `below` of the source. -/
def lookAt (change : BitVec 8) (p : Pixels) (x y : Nat) (seeking : Bool) (s : Stack) : Stack × Bool :=
  if seeking then if w_test p x y = change then (s.PUSH x y, false) else (s, true)
  else (s, decide (w_test p x y ≠ change))

structure Scan where
  stack : Stack
  above : Bool
  below : Bool

def neighbours (win : WWIN) (change : BitVec 8) (p : Pixels) (x y : Nat) (s : Scan) : Scan :=
  let up := if y = 0 then (s.stack, s.above) else lookAt change p x (y - 1) s.above s.stack
  let down := if y + 1 < win.height then lookAt change p x (y + 1) s.below up.1 else (up.1, s.below)
  ⟨down.1, up.2, down.2⟩

/-- One of the two directions, as the columns that are still to be passed. The number of those that were passed. -/
def go (win : WWIN) (change : BitVec 8) (p : Pixels) (y : Nat) : List Nat → Scan → Nat × Scan
  | [], s => (0, s)
  | x :: xs, s =>
    if w_test p x y ≠ change then (0, s)
    else
      let (n, s) := go win change p y xs (neighbours win change p x y s)
      (n + 1, s)

def toLeft (x : Nat) : List Nat := (List.range x).reverse

def toRight (x wd : Nat) : List Nat := List.range' (x + 1) (wd - (x + 1))

def fillLine (win : WWIN) (change : BitVec 8) (x y : Nat) (p : Pixels) (s : Stack) : Pixels × Stack :=
  if w_test p x y ≠ change then (p, s)
  else
    let first := neighbours win change p x y ⟨s, true, true⟩
    let (l, s) := go win change p y (toLeft x) first
    let (r, s) := go win change p y (toRight x win.width) { s with above := first.above, below := first.below }
    (w_hline win (x - l) y (x + r) p, s.stack)

def fillLoop (win : WWIN) (change : BitVec 8) : Nat → Pixels → Stack → Option (Pixels × Nat)
  | 0, _, _ => none
  | n + 1, p, s =>
    match s.points with
    | [] => some (p, s.overflows)
    | (x, y) :: points =>
      let r := fillLine win change x y p { s with points }
      fillLoop win change n r.1 r.2

def hasColor (gc : WGC) (change : BitVec 8) : Bool :=
  match gc.drawmode with
  | .M_CLEAR => decide (change = gc.bgCol)
  | .M_INVERS => false
  | _ => decide (change = gc.fgCol)

def w_fill (win : WWIN) (n : Nat) (x y : Int) (p : Pixels) : Option (Pixels × Nat) :=
  if x < 0 ∨ y < 0 ∨ x ≥ win.width ∨ y ≥ win.height then some (p, 0)
  else
    let change := w_test p x.toNat y.toNat
    if hasColor win.gc change then some (p, 0) else fillLoop win change n p (Stack.PUSH ⟨[], 0⟩ x.toNat y.toNat)

def Joined (win : WWIN) (change : BitVec 8) (p : Pixels) (q r : Nat × Nat) : Prop :=
  (q.1 = r.1 ∧ (q.2 + 1 = r.2 ∨ r.2 + 1 = q.2) ∨ q.2 = r.2 ∧ (q.1 + 1 = r.1 ∨ r.1 + 1 = q.1)) ∧
    r.1 < win.width ∧ r.2 < win.height ∧ p r.1 r.2 = change

def Region (win : WWIN) (p : Pixels) (seed : Nat × Nat) (q : Nat × Nat) : Prop :=
  Relation.ReflTransGen (Joined win (p seed.1 seed.2) p) seed q

def Cover (change : BitVec 8) (p : Pixels) (s : Stack) (x y : Nat) : Prop :=
  ∃ a, (a, y) ∈ s.points ∧ ∀ c, min a x ≤ c → c ≤ max a x → p c y = change

structure Grows (s t : Stack) (fresh : Nat × Nat → Prop) : Prop where
  keeps : ∀ q ∈ s.points, q ∈ t.points
  only : ∀ q ∈ t.points, q ∈ s.points ∨ fresh q
  overflows : s.overflows ≤ t.overflows
  room : s.points.length ≤ 32 → t.points.length ≤ 32

variable {win : WWIN} {change : BitVec 8} {p : Pixels}

theorem Grows.refl (s : Stack) (fresh : Nat × Nat → Prop) : Grows s s fresh :=
  ⟨fun _ h => h, fun _ h => .inl h, Nat.le_refl _, fun h => h⟩

variable {fresh : Nat × Nat → Prop}

theorem Grows.trans {s t u : Stack} (hst : Grows s t fresh) (htu : Grows t u fresh) : Grows s u fresh where
  keeps q h := htu.keeps q (hst.keeps q h)
  only q h := (htu.only q h).elim (hst.only q) .inr
  overflows := hst.overflows.trans htu.overflows
  room h := htu.room (hst.room h)

variable {s t : Stack}

theorem Grows.mono {fresh fresh' : Nat × Nat → Prop} (h : Grows s t fresh) (hf : ∀ q, fresh q → fresh' q) :
    Grows s t fresh' :=
  ⟨h.keeps, fun q hq => (h.only q hq).imp_right (hf q), h.overflows, h.room⟩

theorem PUSH_grows (s : Stack) (x y : Nat) : Grows s (s.PUSH x y) (· = (x, y)) := by
  unfold Stack.PUSH STACK
  split_ifs with hroom
  · refine ⟨fun q h => mem_cons_of_mem _ h, fun q h => (mem_cons.mp h).symm, Nat.le_refl _, fun _ => ?_⟩
    rw [length_cons]
    omega
  · exact ⟨fun _ h => h, fun _ h => .inl h, Nat.le_succ _, fun h => h⟩

variable {x y : Nat}

theorem PUSH_mem {s : Stack} (h : (s.PUSH x y).overflows = 0) : (x, y) ∈ (s.PUSH x y).points := by
  unfold Stack.PUSH at h ⊢
  split_ifs at h ⊢
  exact mem_cons_self

theorem Cover.mono (h : Cover change p s x y) (hst : ∀ q ∈ s.points, q ∈ t.points) :
    Cover change p t x y := by
  obtain ⟨a, ha, hrun⟩ := h
  exact ⟨a, hst _ ha, hrun⟩

theorem Cover.next {s : Stack} {x x' y : Nat} (h : Cover change p s x' y) (hle : x ≤ x' + 1) (hge : x' ≤ x + 1)
    (hx : p x y = change) : Cover change p s x y := by
  obtain ⟨a, ha, hrun⟩ := h
  refine ⟨a, ha, fun c h1 h2 => ?_⟩
  by_cases hc : c = x
  · rwa [hc]
  · exact hrun c (by omega) (by omega)

theorem lookAt_spec {s : Stack} {x x' r : Nat} {seeking : Bool} (hle : x ≤ x' + 1) (hge : x' ≤ x + 1)
    (hflag : seeking = false → s.overflows = 0 → Cover change p s x' r) :
    let t := lookAt change p x r seeking s
    Grows s t.1 (fun q => q = (x, r) ∧ p x r = change) ∧
      (t.2 = false → t.1.overflows = 0 → Cover change p t.1 x r) ∧ (p x r = change → t.2 = false) := by
  intro t
  by_cases hx : p x r = change
  · cases seeking with
    | true =>
      have ht : t = (s.PUSH x r, false) := by simp [t, lookAt, w_test, hx]
      rw [ht]
      refine ⟨(PUSH_grows s x r).mono fun q hq => ⟨hq, hx⟩, fun _ h => ⟨x, PUSH_mem h, fun c h1 h2 => ?_⟩, fun _ => rfl⟩
      rw [Nat.min_self] at h1
      rw [Nat.max_self] at h2
      rwa [Nat.le_antisymm h2 h1]
    | false =>
      have ht : t = (s, false) := by simp [t, lookAt, w_test, hx]
      rw [ht]
      exact ⟨.refl .., fun _ h => (hflag rfl h).next hle hge hx, fun _ => rfl⟩
  · have ht : t = (s, true) := by simp [t, lookAt, w_test, hx]
    rw [ht]
    exact ⟨.refl .., ⟨fun h => absurd h.symm Bool.false_ne_true, fun h => absurd h hx⟩⟩

def Fresh (win : WWIN) (change : BitVec 8) (p : Pixels) (y : Nat) (C : Nat → Prop) (q : Nat × Nat) : Prop :=
  C q.1 ∧ (q.2 + 1 = y ∨ q.2 = y + 1) ∧ q.2 < win.height ∧ p q.1 q.2 = change

structure Watch (win : WWIN) (change : BitVec 8) (p : Pixels) (x y : Nat) (s : Scan) : Prop where
  above : s.above = false → 0 < y → s.stack.overflows = 0 → Cover change p s.stack x (y - 1)
  below : s.below = false → y + 1 < win.height → s.stack.overflows = 0 → Cover change p s.stack x (y + 1)

def Known (win : WWIN) (change : BitVec 8) (p : Pixels) (x y : Nat) (s : Stack) : Prop :=
  s.overflows = 0 → ∀ r, (r + 1 = y ∨ r = y + 1) → r < win.height → p x r = change → Cover change p s x r

theorem Known.mono (h : Known win change p x y s) (hst : Grows s t fresh) :
    Known win change p x y t := fun h0 r hr hin hp =>
  (h (Nat.le_zero.mp (h0 ▸ hst.overflows)) r hr hin hp).mono hst.keeps

theorem neighbours_spec {s : Scan} {x x' y : Nat} (hle : x ≤ x' + 1) (hge : x' ≤ x + 1) (hy : y < win.height)
    (hs : Watch win change p x' y s) :
    let t := neighbours win change p x y s
    Grows s.stack t.stack (Fresh win change p y (· = x)) ∧ Watch win change p x y t ∧ Known win change p x y t.stack := by
  intro t
  let up := if y = 0 then (s.stack, s.above) else lookAt change p x (y - 1) s.above s.stack
  let down := if y + 1 < win.height then lookAt change p x (y + 1) s.below up.1 else (up.1, s.below)
  have hup : Grows s.stack up.1 (Fresh win change p y (· = x)) ∧
      (up.2 = false → 0 < y → up.1.overflows = 0 → Cover change p up.1 x (y - 1)) ∧
      (0 < y → p x (y - 1) = change → up.2 = false) := by
    by_cases hy0 : y = 0
    · simp only [up, if_pos hy0]
      exact ⟨.refl .., fun _ h => absurd h (by omega), fun h => absurd h (by omega)⟩
    · have hpos : 0 < y := Nat.pos_of_ne_zero hy0
      obtain ⟨hg, hc, hf⟩ := lookAt_spec hle hge fun h h0 => hs.above h hpos h0
      simp only [up, if_neg hy0]
      refine ⟨hg.mono ?_, fun h _ => hc h, fun _ => hf⟩
      rintro q ⟨rfl, hq⟩
      exact ⟨rfl, .inl (Nat.sub_add_cancel hpos), by omega, hq⟩
  have hdown : Grows up.1 down.1 (Fresh win change p y (· = x)) ∧
      (down.2 = false → y + 1 < win.height → down.1.overflows = 0 → Cover change p down.1 x (y + 1)) ∧
      (y + 1 < win.height → p x (y + 1) = change → down.2 = false) := by
    by_cases hy1 : y + 1 < win.height
    · have hflag : s.below = false → up.1.overflows = 0 → Cover change p up.1 x' (y + 1) := fun h h0 =>
        (hs.below h hy1 (Nat.le_zero.mp (h0 ▸ hup.1.overflows))).mono hup.1.keeps
      obtain ⟨hg, hc, hf⟩ := lookAt_spec hle hge hflag
      simp only [down, if_pos hy1]
      refine ⟨hg.mono ?_, fun h _ => hc h, fun _ => hf⟩
      rintro q ⟨rfl, hq⟩
      exact ⟨rfl, .inr rfl, hy1, hq⟩
    · simp only [down, if_neg hy1]
      exact ⟨.refl .., fun _ h => absurd h hy1, fun h => absurd h hy1⟩
  have ht : t = ⟨down.1, up.2, down.2⟩ := rfl
  have hwatch : Watch win change p x y t := by
    rw [ht]
    exact ⟨fun h hy0 h0 => (hup.2.1 h hy0 (Nat.le_zero.mp (h0 ▸ hdown.1.overflows))).mono hdown.1.keeps, hdown.2.1⟩
  refine ⟨by rw [ht]; exact hup.1.trans hdown.1, hwatch, fun h0 r hr hin hp => ?_⟩
  rcases hr with hr | rfl
  · obtain rfl : r = y - 1 := by omega
    exact hwatch.above (hup.2.2 (by omega) hp) (by omega) h0
  · exact hwatch.below (hdown.2.2 hin hp) hin h0

theorem go_spec {y : Nat} (hy : y < win.height) {x : Nat} {xs : List Nat}
    (hnear : (x :: xs).IsChain fun a b => b ≤ a + 1 ∧ a ≤ b + 1) {s : Scan} (hs : Watch win change p x y s) :
    let t := go win change p y xs s
    t.1 ≤ xs.length ∧ (∀ c ∈ xs.take t.1, p c y = change) ∧ (∀ h : t.1 < xs.length, p xs[t.1] y ≠ change) ∧
      Grows s.stack t.2.stack (Fresh win change p y (· ∈ xs.take t.1)) ∧
      ∀ c ∈ xs.take t.1, Known win change p c y t.2.stack := by
  induction xs generalizing x s with
  | nil => exact ⟨Nat.le_refl 0, by simp, by simp, .refl .., by simp⟩
  | cons x' xs ih =>
    intro t
    by_cases hx : p x' y = change
    · rw [isChain_cons_cons] at hnear
      obtain ⟨hgrows, hwatch, hknown⟩ := neighbours_spec hnear.1.1 hnear.1.2 hy hs
      obtain ⟨hle, hrun, hstop, hgrows', hknown'⟩ := ih hnear.2 hwatch
      have ht : t = ((go win change p y xs (neighbours win change p x' y s)).1 + 1,
          (go win change p y xs (neighbours win change p x' y s)).2) := by
        simp only [t, go, w_test, hx, ne_eq, not_true_eq_false, if_false]
      rw [ht]
      refine ⟨Nat.succ_le_succ hle, ?_, fun h => hstop (Nat.lt_of_succ_lt_succ h), ?_, ?_⟩
      · simp only [take_succ_cons, forall_mem_cons]
        exact ⟨hx, hrun⟩
      · refine (hgrows.mono ?_).trans (hgrows'.mono ?_)
        · rintro q ⟨hq, hrest⟩
          exact ⟨by simp [hq], hrest⟩
        · rintro q ⟨hq, hrest⟩
          exact ⟨mem_cons_of_mem _ hq, hrest⟩
      · simp only [take_succ_cons, forall_mem_cons]
        exact ⟨hknown.mono hgrows', hknown'⟩
    · have ht : t = (0, s) := by simp only [t, go, w_test, hx, ne_eq, not_false_eq_true, if_true]
      rw [ht]
      exact ⟨Nat.zero_le _, by simp, fun _ => hx, .refl .., by simp⟩

theorem toLeft_chain (x : Nat) : (x :: toLeft x).IsChain fun a b => b ≤ a + 1 ∧ a ≤ b + 1 := by
  have h : x :: toLeft x = (List.range (x + 1)).reverse := by rw [toLeft, range_succ, reverse_append]; rfl
  rw [h, isChain_reverse, isChain_range_succ]
  intro m _
  omega

theorem toRight_chain (x wd : Nat) : (x :: toRight x wd).IsChain fun a b => b ≤ a + 1 ∧ a ≤ b + 1 := by
  have h : x :: toRight x wd = List.range' x (wd - (x + 1) + 1) := by rw [toRight, range'_succ]
  rw [h]
  refine (isChain_range' x _ 1).imp fun a b hab => ?_
  omega

theorem mem_toLeft {x l : Nat} (h : l ≤ x) (c : Nat) : c ∈ (toLeft x).take l ↔ x - l ≤ c ∧ c < x := by
  rw [toLeft, take_reverse, mem_reverse, length_range, range_eq_range', drop_range', mem_range'_1]
  omega

theorem mem_toRight {x wd r : Nat} (h : r ≤ wd - (x + 1)) (c : Nat) : c ∈ (toRight x wd).take r ↔ x < c ∧ c ≤ x + r := by
  rw [toRight, take_range'_of_length_ge h, mem_range'_1]
  omega

structure Line (win : WWIN) (change : BitVec 8) (p : Pixels) (y a b : Nat) : Prop where
  inside : b < win.width
  run : ∀ c, a ≤ c → c ≤ b → p c y = change
  left : 0 < a → p (a - 1) y ≠ change
  right : b + 1 < win.width → p (b + 1) y ≠ change

theorem fillLine_spec (hx : x < win.width) (hy : y < win.height) (hp : p x y = change) (s : Stack) :
    ∃ a b, a ≤ x ∧ x ≤ b ∧ Line win change p y a b ∧ (fillLine win change x y p s).1 = w_hline win a y b p ∧
      Grows s (fillLine win change x y p s).2 (Fresh win change p y fun c => a ≤ c ∧ c ≤ b) ∧
      ∀ c, a ≤ c → c ≤ b → Known win change p c y (fillLine win change x y p s).2 := by
  obtain ⟨first, hfirst⟩ : ∃ t, t = neighbours win change p x y ⟨s, true, true⟩ := ⟨_, rfl⟩
  have hstart : Watch win change p x y ⟨s, true, true⟩ := ⟨fun h => absurd h.symm Bool.false_ne_true, fun h => absurd h.symm Bool.false_ne_true⟩
  obtain ⟨hgrows, hwatch, hknown⟩ := neighbours_spec (x := x) (Nat.le_succ x) (Nat.le_succ x) hy hstart
  rw [← hfirst] at hgrows hwatch hknown
  obtain ⟨l, hl⟩ : ∃ t, t = go win change p y (toLeft x) first := ⟨_, rfl⟩
  obtain ⟨hlle, hlrun, hlstop, hlgrows, hlknown⟩ := go_spec hy (toLeft_chain x) hwatch
  rw [← hl] at hlle hlrun hlstop hlgrows hlknown
  have hback : Watch win change p x y { l.2 with above := first.above, below := first.below } :=
    ⟨fun h hy0 h0 => (hwatch.above h hy0 (Nat.le_zero.mp (h0 ▸ hlgrows.overflows))).mono hlgrows.keeps,
      fun h hy1 h0 => (hwatch.below h hy1 (Nat.le_zero.mp (h0 ▸ hlgrows.overflows))).mono hlgrows.keeps⟩
  obtain ⟨r, hr⟩ : ∃ t, t = go win change p y (toRight x win.width) { l.2 with above := first.above, below := first.below } :=
    ⟨_, rfl⟩
  obtain ⟨hrle, hrrun, hrstop, hrgrows, hrknown⟩ := go_spec hy (toRight_chain x win.width) hback
  rw [← hr] at hrle hrrun hrstop hrgrows hrknown
  have hline : fillLine win change x y p s = (w_hline win (x - l.1) y (x + r.1) p, r.2.stack) := by
    simp only [fillLine, w_test, hp, ne_eq, not_true_eq_false, if_false, ← hfirst, ← hl, ← hr]
  have hlen : (toLeft x).length = x := by simp [toLeft]
  have hlen' : (toRight x win.width).length = win.width - (x + 1) := by simp [toRight]
  rw [hlen] at hlle
  rw [hlen'] at hrle
  have hcases (c : Nat) (h1 : x - l.1 ≤ c) (h2 : c ≤ x + r.1) :
      c ∈ (toLeft x).take l.1 ∨ c = x ∨ c ∈ (toRight x win.width).take r.1 := by
    rw [mem_toLeft hlle, mem_toRight hrle]
    omega
  refine ⟨x - l.1, x + r.1, Nat.sub_le _ _, Nat.le_add_right _ _, ⟨by omega, fun c h1 h2 => ?_, fun h => ?_, fun h => ?_⟩,
    by rw [hline], ?_, fun c h1 h2 => ?_⟩
  · rcases hcases c h1 h2 with hc | rfl | hc
    · exact hlrun c hc
    · exact hp
    · exact hrrun c hc
  · have hlt : l.1 < (toLeft x).length := by omega
    have hstop := hlstop hlt
    have hget : (toLeft x)[l.1] = x - l.1 - 1 := by
      simp [toLeft]
      omega
    rwa [hget] at hstop
  · have hlt : r.1 < (toRight x win.width).length := by omega
    have hstop := hrstop hlt
    have hget : (toRight x win.width)[r.1] = x + r.1 + 1 := by
      simp [toRight]
      omega
    rwa [hget] at hstop
  · rw [hline]
    refine ((hgrows.mono ?_).trans (hlgrows.mono ?_)).trans (hrgrows.mono ?_)
    · rintro q ⟨hq, hrest⟩
      exact ⟨by omega, hrest⟩
    · rintro q ⟨hq, hrest⟩
      rw [mem_toLeft hlle] at hq
      exact ⟨by omega, hrest⟩
    · rintro q ⟨hq, hrest⟩
      rw [mem_toRight hrle] at hq
      exact ⟨by omega, hrest⟩
  · rw [hline]
    rcases hcases c h1 h2 with hc | rfl | hc
    · exact (hlknown c hc).mono hrgrows
    · exact (hknown.mono hlgrows).mono hrgrows
    · exact hrknown c hc

theorem Line.closed {y a b u v : Nat} (h : Line win change p y a b) (hau : a ≤ u) (hub : u ≤ b) (hv : v < win.width)
    (hrun : ∀ c, min u v ≤ c → c ≤ max u v → p c y = change) : a ≤ v ∧ v ≤ b := by
  constructor
  · by_contra hlt
    exact h.left (by omega) (hrun (a - 1) (by omega) (by omega))
  · by_contra hlt
    exact h.right (by omega) (hrun (b + 1) (by omega) (by omega))

theorem w_hline_thin (hthin : win.linewidth ≤ 2) {y a b : Nat} (hab : a ≤ b) (hb : b < win.width) (hy : y < win.height) (c r : Nat) :
    w_hline win a y b p c r = if r = y ∧ a ≤ c ∧ c ≤ b then win.gc.solid (p c r) else p c r := by
  rw [w_hline, if_neg (Nat.not_lt.mpr hthin), Nat.add_zero, Nat.add_zero, Nat.min_eq_left hab, Nat.max_eq_right hab]
  exact if_congr (by omega) rfl rfl

theorem Region.inside {p : Pixels} {seed q : Nat × Nat} (h : Region win p seed q) (h1 : seed.1 < win.width)
    (h2 : seed.2 < win.height) : q.1 < win.width ∧ q.2 < win.height ∧ p q.1 q.2 = p seed.1 seed.2 := by
  cases h with
  | refl => exact ⟨h1, h2, rfl⟩
  | tail _ h => exact h.2

theorem Region.run {p : Pixels} {seed : Nat × Nat} {x x' y : Nat} (h : Region win p seed (x, y)) (hy : y < win.height)
    (hrun : ∀ c, min x x' ≤ c → c ≤ max x x' → c < win.width ∧ p c y = p seed.1 seed.2) : Region win p seed (x', y) := by
  rcases Nat.le_total x x' with hle | hle
  · induction x', hle using Nat.le_induction with
    | base => exact h
    | succ c hc ih =>
      have hnext := hrun (c + 1) (by omega) (by omega)
      exact (ih fun d h1 h2 => hrun d (by omega) (by omega)).tail ⟨.inr ⟨rfl, .inl rfl⟩, hnext.1, hy, hnext.2⟩
  · induction hle using Nat.decreasingInduction with
    | self => exact h
    | of_succ c hc ih =>
      have hnext := hrun c (by omega) (by omega)
      exact (ih fun d h1 h2 => hrun d (by omega) (by omega)).tail ⟨.inr ⟨rfl, .inr rfl⟩, hnext.1, hy, hnext.2⟩

/-- Between two rounds: what is drawn is in the region, and what is next to it and still has the color can be reached from
the stack, unless it did overflow. -/
structure Inv (win : WWIN) (p₀ : Pixels) (seed : Nat × Nat) (p : Pixels) (s : Stack) : Prop where
  points : ∀ q ∈ s.points, Region win p₀ seed q
  pixels : ∀ x y, p x y = p₀ x y ∨ Region win p₀ seed (x, y) ∧ p x y = win.gc.solid (p₀ seed.1 seed.2)
  covered : s.overflows = 0 → ∀ q, Region win p₀ seed q → p q.1 q.2 = p₀ seed.1 seed.2 →
    (q = seed ∨ ∃ r, Region win p₀ seed r ∧ p r.1 r.2 ≠ p₀ seed.1 seed.2 ∧ Joined win (p₀ seed.1 seed.2) p₀ r q) →
    Cover (p₀ seed.1 seed.2) p s q.1 q.2
  room : s.points.length ≤ 32

section Rounds

variable {p₀ : Pixels} {seed : Nat × Nat}

variable {points : List (Nat × Nat)} {k : Nat}

theorem Inv.drop {x y : Nat} (h : Inv win p₀ seed p ⟨(x, y) :: points, k⟩)
    (hp : p x y ≠ p₀ seed.1 seed.2) : Inv win p₀ seed p ⟨points, k⟩ where
  points q hq := h.points q (mem_cons_of_mem _ hq)
  pixels := h.pixels
  covered h0 q hq hcolor hnext := by
    obtain ⟨a, ha, hrun⟩ := h.covered h0 q hq hcolor hnext
    rcases mem_cons.mp ha with heq | ha
    · obtain ⟨rfl, hy⟩ := Prod.mk.inj heq
      rw [← hy] at hp
      exact absurd (hrun a (by omega) (by omega)) hp
    · exact ⟨a, ha, hrun⟩
  room := (Nat.le_succ _).trans h.room

theorem Inv.color {s : Stack} (hdrawn : win.gc.solid (p₀ seed.1 seed.2) ≠ p₀ seed.1 seed.2) (h : Inv win p₀ seed p s)
    {x y : Nat} (hp : p x y = p₀ seed.1 seed.2) : p₀ x y = p₀ seed.1 seed.2 := by
  rcases h.pixels x y with heq | ⟨_, heq⟩
  · rw [← heq, hp]
  · exact absurd (heq.symm.trans hp) hdrawn

theorem Inv.line (hthin : win.linewidth ≤ 2) (hx : seed.1 < win.width) (hy : seed.2 < win.height)
    (hdrawn : win.gc.solid (p₀ seed.1 seed.2) ≠ p₀ seed.1 seed.2) {x y : Nat} (h : Inv win p₀ seed p ⟨(x, y) :: points, k⟩)
    (hp : p x y = p₀ seed.1 seed.2) :
    let r := fillLine win (p₀ seed.1 seed.2) x y p ⟨points, k⟩
    Inv win p₀ seed r.1 r.2 ∧ r.1 x y ≠ p₀ seed.1 seed.2 ∧ ∀ c d, r.1 c d = p₀ seed.1 seed.2 → p c d = p₀ seed.1 seed.2 := by
  intro r
  have hregion := h.points (x, y) mem_cons_self
  have hin := hregion.inside hx hy
  obtain ⟨a, b, hax, hxb, hline, hdraw, hgrows, hknown⟩ := fillLine_spec hin.1 hin.2.1 hp ⟨points, k⟩
  have hpix (c d : Nat) : r.1 c d = if d = y ∧ a ≤ c ∧ c ≤ b then win.gc.solid (p c d) else p c d := by
    rw [hdraw, w_hline_thin hthin (hax.trans hxb) hline.inside hin.2.1]
  have hfilled (c : Nat) (h1 : a ≤ c) (h2 : c ≤ b) :
      Region win p₀ seed (c, y) ∧ r.1 c y = win.gc.solid (p₀ seed.1 seed.2) := by
    refine ⟨hregion.run hin.2.1 fun d h3 h4 => ⟨Nat.lt_of_le_of_lt (by omega) hline.inside,
      Inv.color hdrawn h (hline.run d (by omega) (by omega))⟩, ?_⟩
    rw [hpix, if_pos ⟨rfl, h1, h2⟩, hline.run c h1 h2]
  have hrest (c d : Nat) (hcd : ¬ (d = y ∧ a ≤ c ∧ c ≤ b)) : r.1 c d = p c d := by rw [hpix, if_neg hcd]
  have hkept (c d : Nat) (hcolor : r.1 c d = p₀ seed.1 seed.2) : ¬ (d = y ∧ a ≤ c ∧ c ≤ b) ∧ p c d = p₀ seed.1 seed.2 := by
    by_cases hcd : d = y ∧ a ≤ c ∧ c ≤ b
    · obtain ⟨rfl, h1, h2⟩ := hcd
      exact absurd ((hfilled c h1 h2).2.symm.trans hcolor) hdrawn
    · exact ⟨hcd, hrest c d hcd ▸ hcolor⟩
  refine ⟨⟨?_, ?_, ?_, ?_⟩, ?_, fun c d hcolor => (hkept c d hcolor).2⟩
  · intro q hq
    rcases hgrows.only q hq with hold | ⟨⟨h1, h2⟩, hrow, hheight, hcolor⟩
    · exact h.points q (mem_cons_of_mem _ hold)
    · have hbeside := hfilled q.1 h1 h2
      exact hbeside.1.tail ⟨.inl ⟨rfl, by omega⟩, Nat.lt_of_le_of_lt h2 hline.inside, hheight, Inv.color hdrawn h hcolor⟩
  · intro c d
    by_cases hcd : d = y ∧ a ≤ c ∧ c ≤ b
    · obtain ⟨rfl, h1, h2⟩ := hcd
      exact .inr (hfilled c h1 h2)
    · rw [hrest c d hcd]
      exact h.pixels c d
  · intro h0 q hq hcolor hnext
    obtain ⟨hout, hpq⟩ := hkept q.1 q.2 hcolor
    have hqin := hq.inside hx hy
    have hk : k = 0 := Nat.le_zero.mp (h0 ▸ hgrows.overflows)
    -- a run that ends in `q` has no pixel in the line that was filled
    have haway (u : Nat) (hrun : ∀ c, min u q.1 ≤ c → c ≤ max u q.1 → p c q.2 = p₀ seed.1 seed.2) :
        ∀ c, min u q.1 ≤ c → c ≤ max u q.1 → ¬ (q.2 = y ∧ a ≤ c ∧ c ≤ b) := by
      rintro c h1 h2 ⟨rfl, h3, h4⟩
      exact hout ⟨rfl, hline.closed h3 h4 hqin.1 fun d h5 h6 => hrun d (by omega) (by omega)⟩
    have hmove (hcover : Cover (p₀ seed.1 seed.2) p r.2 q.1 q.2) : Cover (p₀ seed.1 seed.2) r.1 r.2 q.1 q.2 := by
      obtain ⟨u, hu, hrun⟩ := hcover
      exact ⟨u, hu, fun c h1 h2 => (hrest c q.2 (haway u hrun c h1 h2)).trans (hrun c h1 h2)⟩
    have hold (hcover : Cover (p₀ seed.1 seed.2) p ⟨(x, y) :: points, k⟩ q.1 q.2) : Cover (p₀ seed.1 seed.2) p r.2 q.1 q.2 := by
      obtain ⟨u, hu, hrun⟩ := hcover
      rcases mem_cons.mp hu with heq | hu
      · obtain ⟨rfl, hqy⟩ := Prod.mk.inj heq
        exact absurd ⟨hqy, hax, hxb⟩ (haway u hrun u (by omega) (by omega))
      · exact ⟨u, hgrows.keeps _ hu, hrun⟩
    apply hmove
    rcases hnext with hseed | ⟨q', hq', hdone, hjoined⟩
    · exact hold (h.covered hk q hq hpq (.inl hseed))
    · by_cases hcolor' : p q'.1 q'.2 = p₀ seed.1 seed.2
      · obtain ⟨hrow, h1, h2⟩ : q'.2 = y ∧ a ≤ q'.1 ∧ q'.1 ≤ b := by
          by_contra hnot
          exact hdone ((hrest q'.1 q'.2 hnot).trans hcolor')
        rcases hjoined.1 with ⟨hcol, hnear⟩ | ⟨hsame, hnear⟩
        · rw [← hcol] at hpq ⊢
          exact hknown q'.1 h1 h2 h0 q.2 (by omega) hqin.2.1 hpq
        · refine absurd ⟨hsame.symm.trans hrow, h1, h2⟩ (haway q'.1 (fun c h3 h4 => ?_) q'.1 (by omega) (by omega))
          by_cases hc : c = q.1
          · rwa [hc]
          · obtain rfl : c = q'.1 := by omega
            rwa [← hsame]
      · exact hold (h.covered hk q hq hpq (.inr ⟨q', hq', hcolor', hjoined⟩))
  · exact hgrows.room ((Nat.le_succ _).trans h.room)
  · rw [(hfilled x hax hxb).2]
    exact hdrawn

def colored (win : WWIN) (change : BitVec 8) (p : Pixels) : Finset (Nat × Nat) :=
  (Finset.range win.width ×ˢ Finset.range win.height).filter fun q => p q.1 q.2 = change

theorem colored_lt {p' : Pixels} {x y : Nat} (hx : x < win.width) (hy : y < win.height) (hp : p x y = change) (hp' : p' x y ≠ change)
    (hsub : ∀ c d, p' c d = change → p c d = change) : (colored win change p').card < (colored win change p).card := by
  apply Finset.card_lt_card
  refine Finset.ssubset_iff_of_subset (fun q hq => ?_) |>.mpr ⟨(x, y), ?_, fun h => hp' (Finset.mem_filter.mp h).2⟩
  · rw [colored, Finset.mem_filter] at hq ⊢
    exact ⟨hq.1, hsub _ _ hq.2⟩
  · rw [colored, Finset.mem_filter, Finset.mem_product, Finset.mem_range, Finset.mem_range]
    exact ⟨⟨hx, hy⟩, hp⟩

def Filled (win : WWIN) (p₀ : Pixels) (seed : Nat × Nat) (p : Pixels) (k : Nat) : Prop :=
  (∀ q, ¬ Region win p₀ seed q → p q.1 q.2 = p₀ q.1 q.2) ∧
    (k = 0 → ∀ q, Region win p₀ seed q → p q.1 q.2 = win.gc.solid (p₀ seed.1 seed.2))

theorem Inv.filled (hx : seed.1 < win.width) (hy : seed.2 < win.height) (h : Inv win p₀ seed p ⟨[], k⟩) :
    Filled win p₀ seed p k := by
  have hnone (q : Nat × Nat) : ¬ Cover (p₀ seed.1 seed.2) p ⟨[], k⟩ q.1 q.2 := by
    rintro ⟨a, ha, -⟩
    exact absurd ha not_mem_nil
  refine ⟨fun q hq => (h.pixels q.1 q.2).elim id fun hdone => absurd hdone.1 hq, fun h0 q hq => ?_⟩
  have hcolor : p q.1 q.2 ≠ p₀ seed.1 seed.2 := by
    induction hq with
    | refl => exact fun hc => hnone seed (h.covered h0 seed .refl hc (.inl rfl))
    | @tail q' q hq' hjoined ih => exact fun hc => hnone q (h.covered h0 q (hq'.tail hjoined) hc (.inr ⟨q', hq', ih, hjoined⟩))
  rcases h.pixels q.1 q.2 with hsame | hdone
  · exact absurd (hsame.trans (hq.inside hx hy).2.2) hcolor
  · exact hdone.2

theorem fillLoop_filled (hthin : win.linewidth ≤ 2) (hx : seed.1 < win.width) (hy : seed.2 < win.height)
    (hdrawn : win.gc.solid (p₀ seed.1 seed.2) ≠ p₀ seed.1 seed.2) {m : Nat} {s : Stack} (h : Inv win p₀ seed p s)
    (hm : 33 * (colored win (p₀ seed.1 seed.2) p).card + s.points.length ≤ m) :
    ∃ p' k, (∀ n > m, fillLoop win (p₀ seed.1 seed.2) n p s = some (p', k)) ∧ Filled win p₀ seed p' k := by
  induction m generalizing p s with
  | zero =>
    obtain ⟨_ | ⟨q, points⟩, k⟩ := s
    · refine ⟨p, k, fun n hn => ?_, h.filled hx hy⟩
      obtain ⟨n, rfl⟩ := Nat.exists_eq_add_of_lt hn
      rfl
    · exact absurd hm (by simp)
  | succ m ih =>
    obtain ⟨_ | ⟨⟨x, y⟩, points⟩, k⟩ := s
    · refine ⟨p, k, fun n hn => ?_, h.filled hx hy⟩
      obtain ⟨n, rfl⟩ := Nat.exists_eq_add_of_lt hn
      rfl
    · change _ + (points.length + 1) ≤ m + 1 at hm
      have hin := (h.points (x, y) mem_cons_self).inside hx hy
      have hstep (r : Pixels × Stack) (hr : fillLine win (p₀ seed.1 seed.2) x y p ⟨points, k⟩ = r) (hinv : Inv win p₀ seed r.1 r.2)
          (hless : 33 * (colored win (p₀ seed.1 seed.2) r.1).card + r.2.points.length ≤ m) :
          ∃ p' k', (∀ n > m + 1, fillLoop win (p₀ seed.1 seed.2) n p ⟨(x, y) :: points, k⟩ = some (p', k')) ∧
            Filled win p₀ seed p' k' := by
        obtain ⟨p', k', hrun, hfilled⟩ := ih hinv hless
        refine ⟨p', k', fun n hn => ?_, hfilled⟩
        obtain ⟨n, rfl⟩ : ∃ i, n = i + 1 := ⟨n - 1, by omega⟩
        subst hr
        exact hrun n (by omega)
      by_cases hp : p x y = p₀ seed.1 seed.2
      · obtain ⟨hinv, hdone, hsub⟩ := h.line hthin hx hy hdrawn hp
        have hless := colored_lt hin.1 hin.2.1 hp hdone hsub
        have hroom := hinv.room
        exact hstep _ rfl hinv (by omega)
      · exact hstep (p, ⟨points, k⟩) (by rw [fillLine, w_test, if_pos hp]) (h.drop hp) (Nat.le_of_succ_le_succ hm)

end Rounds

theorem solid_inverse {gc : WGC} (hmode : gc.drawmode = .M_INVERS) (hcolors : gc.fgCol ≠ gc.bgCol) (c : BitVec 8) :
    gc.solid c ≠ c := by
  rw [WGC.solid, hmode]
  intro h
  have h0 : c ^^^ (c ^^^ (gc.fgCol ^^^ gc.bgCol)) = 0#8 := by
    simp only at h
    rw [h, BitVec.xor_self]
  rw [← BitVec.xor_assoc, BitVec.xor_self, BitVec.zero_xor, BitVec.xor_eq_zero_iff] at h0
  exact hcolors h0

/-- A fill with thin lines ends, and draws the region and nothing else, unless the stack did overflow. -/
theorem w_fill_region (win : WWIN) (hthin : win.linewidth ≤ 2)
    (hmode : win.gc.drawmode = .M_DRAW ∨ win.gc.drawmode = .M_CLEAR ∨
      win.gc.drawmode = .M_INVERS ∧ win.gc.fgCol ≠ win.gc.bgCol)
    (p : Pixels) {x y : Nat} (hx : x < win.width) (hy : y < win.height) :
    ∃ m p' k, (∀ n > m, w_fill win n x y p = some (p', k)) ∧ (∀ q, ¬ Region win p (x, y) q → p' q.1 q.2 = p q.1 q.2) ∧
      (win.gc.solid (p x y) = p x y → p' = p) ∧
      (win.gc.solid (p x y) ≠ p x y → k = 0 → ∀ q, Region win p (x, y) q → p' q.1 q.2 = win.gc.solid (p x y)) := by
  have hinside : ¬ ((x : Int) < 0 ∨ (y : Int) < 0 ∨ (x : Int) ≥ win.width ∨ (y : Int) ≥ win.height) := by omega
  have hdone : hasColor win.gc (p x y) = decide (win.gc.solid (p x y) = p x y) := by
    rcases hmode with hm | hm | ⟨hm, hcolors⟩
    · simp only [hasColor, hm, WGC.solid, eq_comm]
    · simp only [hasColor, hm, WGC.solid, eq_comm]
    · simp only [hasColor, hm, solid_inverse hm hcolors, decide_false]
  have hfill (n : Nat) : w_fill win n x y p =
      if win.gc.solid (p x y) = p x y then some (p, 0) else fillLoop win (p x y) n p (Stack.PUSH ⟨[], 0⟩ x y) := by
    unfold w_fill
    simp only [if_neg hinside, Int.toNat_natCast, w_test, hdone, decide_eq_true_eq]
  by_cases hsame : win.gc.solid (p x y) = p x y
  · exact ⟨0, p, 0, fun n _ => by rw [hfill, if_pos hsame], fun _ _ => rfl, fun _ => rfl, fun h => absurd hsame h⟩
  · have hpush : Stack.PUSH ⟨[], 0⟩ x y = ⟨[(x, y)], 0⟩ := rfl
    have hinv : Inv win p (x, y) p ⟨[(x, y)], 0⟩ := by
      refine ⟨fun q hq => ?_, fun _ _ => .inl rfl, fun _ q _ hcolor hnext => ?_, by simp⟩
      · rw [List.mem_singleton.mp hq]
        exact .refl
      · rcases hnext with rfl | ⟨r, hr, hdrawn, -⟩
        · refine ⟨x, List.mem_singleton_self _, fun c h1 h2 => ?_⟩
          obtain rfl : c = x := by omega
          exact hcolor
        · exact absurd (hr.inside hx hy).2.2 hdrawn
    obtain ⟨p', k, hrun, hout, hin⟩ := fillLoop_filled hthin hx hy hsame hinv (Nat.le_refl _)
    exact ⟨_, p', k, fun n hn => by rw [hfill, if_neg hsame, hpush]; exact hrun n hn, hout, fun h => absurd h hsame, fun _ => hin⟩

theorem w_fill_region_corner :
    let win : WWIN := ⟨2, 1, 1, ⟨.M_INVERS, 1, 0, fun _ => 0⟩⟩
    let p : Pixels := fun _ _ => 0
    ∃ m p' k, (∀ n > m, w_fill win n (0 : Nat) (0 : Nat) p = some (p', k)) ∧
      (∀ q, ¬ Region win p (0, 0) q → p' q.1 q.2 = p q.1 q.2) ∧
      (win.gc.solid (p 0 0) = p 0 0 → p' = p) ∧
      (win.gc.solid (p 0 0) ≠ p 0 0 → k = 0 → ∀ q, Region win p (0, 0) q → p' q.1 q.2 = win.gc.solid (p 0 0)) :=
  w_fill_region ⟨2, 1, 1, ⟨.M_INVERS, 1, 0, fun _ => 0⟩⟩ (by decide) (.inr (.inr ⟨rfl, by decide⟩)) (fun _ _ => 0) (by decide)
    (by decide)

def comb : Pixels := fun x y => if y = 1 ∨ x % 2 = 0 then 0 else 1

theorem fillLoop_none (n : Nat) :
    fillLoop ⟨1, 2, 1, ⟨.M_INVERS, 1, 1, fun _ => 0⟩⟩ 0 n (fun _ _ => 0) ⟨[(0, 0)], 0⟩ = none ∧
      fillLoop ⟨1, 2, 1, ⟨.M_INVERS, 1, 1, fun _ => 0⟩⟩ 0 n (fun _ _ => 0) ⟨[(0, 1)], 0⟩ = none := by
  have hkept (y : Nat) : w_hline ⟨1, 2, 1, ⟨.M_INVERS, 1, 1, fun _ => 0⟩⟩ 0 y 0 (fun _ _ => 0) = fun _ _ => 0 := by
    funext c r
    simp [w_hline, WGC.solid]
  induction n with
  | zero => exact ⟨rfl, rfl⟩
  | succ n ih =>
    constructor
    · change fillLoop _ 0 n (w_hline _ 0 0 0 fun _ _ => 0) ⟨[(0, 1)], 0⟩ = none
      rw [hkept]
      exact ih.2
    · change fillLoop _ 0 n (w_hline _ 0 1 0 fun _ _ => 0) ⟨[(0, 0)], 0⟩ = none
      rw [hkept]
      exact ih.1

/-- A comb with more teeth than the stack has room for, a fill in the inverse mode with one color, and a fill with a wide line. -/
theorem w_fill_exceptions :
    (let win : WWIN := ⟨67, 2, 1, ⟨.M_DRAW, 2, 3, fun _ => 0⟩⟩
      ∃ p', w_fill win 100 (0 : Nat) (1 : Nat) comb = some (p', 2) ∧ Region win comb (0, 1) (66, 0) ∧ p' 66 0 = comb 66 0) ∧
    (let win : WWIN := ⟨1, 2, 1, ⟨.M_INVERS, 1, 1, fun _ => 0⟩⟩
      ∀ n, w_fill win n (0 : Nat) (0 : Nat) (fun _ _ => 0) = none) ∧
    (let win : WWIN := ⟨1, 2, 3, ⟨.M_DRAW, 2, 3, fun _ => 0⟩⟩
      let p : Pixels := fun _ y => if y = 0 then 1 else 0
      ∃ p', w_fill win 100 (0 : Nat) (1 : Nat) p = some (p', 0) ∧ ¬ Region win p (0, 1) (0, 0) ∧ p' 0 0 ≠ p 0 0) := by
  refine ⟨?_, fun n => (fillLoop_none n).1, ?_⟩
  · have hrun : (w_fill ⟨67, 2, 1, ⟨.M_DRAW, 2, 3, fun _ => 0⟩⟩ 100 (0 : Nat) (1 : Nat) comb).map (fun r => (r.1 66 0, r.2)) =
        some (0, 2) := by
      decide +kernel
    obtain ⟨⟨p', k⟩, hfill, hpix⟩ := Option.map_eq_some_iff.mp hrun
    obtain ⟨hpix, rfl⟩ := Prod.mk.inj hpix
    have hrow : Region ⟨67, 2, 1, ⟨.M_DRAW, 2, 3, fun _ => 0⟩⟩ comb (0, 1) (66, 1) :=
      Region.run (x := 0) .refl (by decide) fun c _ hc => ⟨by simp only; omega, rfl⟩
    exact ⟨p', hfill, hrow.tail ⟨.inl ⟨rfl, .inr rfl⟩, by decide, by decide, by decide⟩, hpix⟩
  · have hrun : (w_fill ⟨1, 2, 3, ⟨.M_DRAW, 2, 3, fun _ => 0⟩⟩ 100 (0 : Nat) (1 : Nat) (fun _ y => if y = 0 then 1 else 0)).map
        (fun r => (r.1 0 0, r.2)) = some (2, 0) := by
      decide +kernel
    obtain ⟨⟨p', k⟩, hfill, hpix⟩ := Option.map_eq_some_iff.mp hrun
    obtain ⟨hpix, rfl⟩ := Prod.mk.inj hpix
    refine ⟨p', hfill, fun h => absurd (h.inside (by decide) (by decide)).2.2 (by decide), ?_⟩
    change p' 0 0 = 2 at hpix
    change p' 0 0 ≠ 1
    rw [hpix]
    decide

end WWindowSystem.Fill
