import Mathlib.Algebra.Group.Prod
import Mathlib.Algebra.Order.BigOperators.Group.List
import Mathlib.Algebra.Order.Group.Nat
import Mathlib.Algebra.Order.Ring.Int
import Mathlib.Data.List.Induction
import Mathlib.Logic.Function.Basic
import Mathlib.Logic.Relation
import Mathlib.Tactic.SplitIfs
import WWindowSystem.Library.Loops

namespace WWindowSystem.Jewel

open Function Option

def BLK_JEWEL : Nat := 6

def BLK_BACK : Nat := 8

def MASK_BLOCKS : Nat := 63

def FLAG_DELETE : Nat := 64

def SCORE_WIDTH : Nat := 3

def VERTICAL_SCORE : Nat := 20

def HORIZONTAL_SCORE : Nat := 25

def DIAGONAL_SCORE : Nat := 50

def KILL_SCORE : Nat := 10

def INT_MAX : Nat := 2147483647

abbrev Area := Int × Int → Nat

structure PlayField where
  width : Nat
  height : Nat
  area : Area

def addInt (score more : Option Nat) : Option Nat :=
  score.bind fun s => more.bind fun m => if s + m ≤ INT_MAX then some (s + m) else none

def lineScore (base blocks : Nat) : Option Nat :=
  if base <<< (blocks - SCORE_WIDTH) ≤ INT_MAX then some (base <<< (blocks - SCORE_WIDTH)) else none

def flag (a : Area) (p : Int × Int) : Area := Function.update a p (a p ||| FLAG_DELETE)

def mark (cells : Nat → Int × Int) (k : Nat) : Nat → Area → Area
  | 0, a => a
  | blocks + 1, a => mark cells k blocks (flag a (cells (k - (blocks + 1))))

structure Scan where
  area : Area
  score : Option Nat
  blocks : Nat

def close (base : Nat) (cells : Nat → Int × Int) (k : Nat) (s : Scan) : Scan :=
  if SCORE_WIDTH ≤ s.blocks then ⟨mark cells k s.blocks s.area, addInt s.score (lineScore base s.blocks), 0⟩ else s

def scan_turn (base : Nat) (cells : Nat → Int × Int) (s : Scan) (k : Nat) : Scan :=
  if s.area (cells k) ≠ BLK_BACK ∧ s.area (cells k) &&& MASK_BLOCKS = s.area (cells (k - 1)) &&& MASK_BLOCKS then
    { s with blocks := s.blocks + 1 }
  else { close base cells k s with blocks := 1 }

structure Line where
  base : Nat
  cells : Nat → Int × Int
  n : Nat

def check_line (l : Line) (a : Area) : Option Nat × Area :=
  let s := close l.base l.cells l.n ((List.range' 1 (l.n - 1)).foldl (scan_turn l.base l.cells) ⟨a, some 0, 1⟩)
  (s.score, s.area)

def vertical (field : PlayField) (x : Nat) : Line := ⟨VERTICAL_SCORE, fun k => (x, k), field.height⟩

def horizontal (field : PlayField) (y : Nat) : Line := ⟨HORIZONTAL_SCORE, fun k => (k, y), field.width⟩

def diagonal (field : PlayField) (x y : Nat) (incy : Int) : Line :=
  ⟨DIAGONAL_SCORE, fun k => (x + k, y + k * incy), min (field.width - x) (if incy = 1 then field.height - y else y + 1)⟩

def PlayField.lines (field : PlayField) : List Line :=
  (List.range field.width).map (vertical field) ++
    ((List.range field.height).flatMap fun y => [horizontal field y, diagonal field 0 y 1, diagonal field 0 y (-1)]) ++
    (List.range' 1 (field.width - SCORE_WIDTH)).flatMap fun x => [diagonal field x 0 1, diagonal field x (field.height - 1) (-1)]

def flagged (c : Nat) : Bool := c &&& FLAG_DELETE != 0

def shift_down (x top : Nat) : Nat → Area → Area
  | 0, a => a
  | m + 1, a => shift_down x top m (Function.update a (x, top + m + 1) (a (x, top + m)))

def remove_turn (x : Nat) (s : Area × Nat) (y : Nat) : Area × Nat :=
  if s.1 (x, y) = BLK_BACK then (s.1, y + 1)
  else if flagged (s.1 (x, y)) then (Function.update (shift_down x s.2 (y - s.2) s.1) (x, s.2) BLK_BACK, s.2 + 1)
  else s

def remove_column (height : Nat) (a : Area) (x : Nat) : Area := ((List.range height).foldl (remove_turn x) (a, 0)).1

def flagged_blocks (width height : Nat) (a : Area) : Nat :=
  ((List.range width).map fun x : Nat => (List.range height).countP fun y : Nat => flagged (a (x, y))).sum

def kill_blocks (field : PlayField) (a : Area) : Option Nat × Area :=
  let blocks := flagged_blocks field.width field.height a
  if blocks = 0 then (some 0, a)
  else (addInt (some 0) (some (blocks * KILL_SCORE)), (List.range field.width).foldl (remove_column field.height) a)

def check_blocks (field : PlayField) : Option (Nat × PlayField) :=
  let (score, a) := field.lines.foldl (fun s l => (addInt s.1 (check_line l s.2).1, (check_line l s.2).2)) (some 0, field.area)
  let (kill, a) := kill_blocks field a
  (addInt score kill).map fun score => (score, { field with area := a })

def check_loop (n : Nat) (field : PlayField) : Option (Option PlayField) :=
  runLoop (fun field =>
    match check_blocks field with
    | none => Sum.inr none
    | some (scores, field) => if scores = 0 then Sum.inr (some field) else Sum.inl field) n field

/-! What the scans find. -/

def bounded (t : Nat) : Option Nat := if t ≤ INT_MAX then some t else none

theorem addInt_bounded (s m : Nat) : addInt (bounded s) (bounded m) = bounded (s + m) := by
  unfold addInt bounded
  by_cases h : s + m ≤ INT_MAX
  · rw [if_pos (show s ≤ INT_MAX by omega), if_pos (show m ≤ INT_MAX by omega), if_pos h]
    exact if_pos h
  · rw [if_neg h]
    by_cases hs : s ≤ INT_MAX
    · rw [if_pos hs]
      by_cases hm : m ≤ INT_MAX
      · rw [if_pos hm]
        exact if_neg h
      · rw [if_neg hm]
        rfl
    · rw [if_neg hs]
      rfl

def stretchPoints (base blocks : Nat) : Nat := if SCORE_WIDTH ≤ blocks then base * 2 ^ (blocks - SCORE_WIDTH) else 0

def runPoints (base : Nat) : List Bool → Nat → Nat
  | [], blocks => stretchPoints base blocks
  | true :: l, blocks => runPoints base l (blocks + 1)
  | false :: l, blocks => stretchPoints base blocks + runPoints base l 1

def Alike (a : Area) (p q : Int × Int) : Prop := a q ≠ BLK_BACK ∧ a q &&& MASK_BLOCKS = a p &&& MASK_BLOCKS

instance (a : Area) (p q : Int × Int) : Decidable (Alike a p q) := inferInstanceAs (Decidable (_ ∧ _))

def Line.link (l : Line) (a : Area) (k : Nat) : Prop := Alike a (l.cells (k - 1)) (l.cells k)

instance (l : Line) (a : Area) (k : Nat) : Decidable (l.link a k) := inferInstanceAs (Decidable (Alike _ _ _))

def InRun (link : Nat → Prop) (n k : Nat) : Prop := ∃ i, i ≤ k ∧ k ≤ i + 2 ∧ i + 2 < n ∧ link (i + 1) ∧ link (i + 2)

def SameBlocks (a a' : Area) : Prop := ∀ q, a q &&& MASK_BLOCKS = a' q &&& MASK_BLOCKS ∧ (a q = BLK_BACK ↔ a' q = BLK_BACK)

def Flags (a a' : Area) (S : Int × Int → Prop) : Prop := ∀ q, (S q → a' q = a q ||| FLAG_DELETE) ∧ (¬ S q → a' q = a q)

variable (c : Nat)

theorem or_flag_mask : (c ||| FLAG_DELETE) &&& MASK_BLOCKS = c &&& MASK_BLOCKS := by
  rw [Nat.and_or_distrib_right, show FLAG_DELETE &&& MASK_BLOCKS = 0 from rfl, Nat.or_zero]

theorem or_flag_flagged : flagged (c ||| FLAG_DELETE) = true := by
  have h : (c ||| FLAG_DELETE) &&& FLAG_DELETE ≠ 0 := by
    rw [Nat.and_or_distrib_right, Nat.and_self, Ne, Nat.or_eq_zero_iff]
    exact fun h => absurd h.2 (by decide)
  simpa [flagged] using h

theorem or_flag_ne : c ||| FLAG_DELETE ≠ BLK_BACK := by
  intro h
  have := or_flag_flagged c
  rw [h] at this
  cases this

theorem or_flag_twice : c ||| FLAG_DELETE ||| FLAG_DELETE = c ||| FLAG_DELETE := by
  rw [Nat.or_assoc, Nat.or_self]

theorem Flags.same {a a' : Area} {S : Int × Int → Prop} (h : Flags a a' S) (hS : ∀ q, S q → a q ≠ BLK_BACK) : SameBlocks a' a := by
  intro q
  by_cases hq : S q
  · rw [(h q).1 hq]
    exact ⟨or_flag_mask _, iff_of_false (or_flag_ne _) (hS q hq)⟩
  · rw [(h q).2 hq]
    exact ⟨rfl, Iff.rfl⟩

theorem SameBlocks.trans {a b c : Area} (h : SameBlocks a b) (h' : SameBlocks b c) : SameBlocks a c :=
  fun q => ⟨(h q).1.trans (h' q).1, (h q).2.trans (h' q).2⟩

theorem SameBlocks.alike {a b : Area} (h : SameBlocks a b) {p q : Int × Int} : Alike a p q ↔ Alike b p q := by
  unfold Alike
  rw [(h q).1, (h p).1, Ne, Ne, not_congr (h q).2]

variable {S T : Int × Int → Prop}

theorem Flags.trans {a b c : Area} (h : Flags a b S) (h' : Flags b c T) : Flags a c fun q => S q ∨ T q := by
  intro q
  constructor
  · rintro (hs | ht)
    · by_cases hT : T q
      · rw [(h' q).1 hT, (h q).1 hs, or_flag_twice]
      · rw [(h' q).2 hT, (h q).1 hs]
    · by_cases hS : S q
      · rw [(h' q).1 ht, (h q).1 hS, or_flag_twice]
      · rw [(h' q).1 ht, (h q).2 hS]
  · intro hno
    rw [not_or] at hno
    rw [(h' q).2 hno.2, (h q).2 hno.1]

theorem Flags.congr {a b : Area} (h : Flags a b S) (hST : ∀ q, S q ↔ T q) : Flags a b T := by
  intro q
  rw [← hST q]
  exact h q

variable {a : Area}

theorem Flags.none {S : Int × Int → Prop} (hS : ∀ q, ¬ S q) : Flags a a S :=
  fun q => ⟨fun h => absurd h (hS q), fun _ => rfl⟩

theorem flag_flags (a : Area) (p : Int × Int) : Flags a (flag a p) fun q => q = p := by
  intro q
  constructor
  · rintro rfl
    exact update_self _ _ _
  · exact fun h => update_of_ne h _ _

theorem mark_flags (cells : Nat → Int × Int) {k blocks : Nat} (hb : blocks ≤ k) (a : Area) :
    Flags a (mark cells k blocks a) fun q => ∃ j, k - blocks ≤ j ∧ j < k ∧ q = cells j := by
  induction blocks generalizing a with
  | zero => exact Flags.none fun q ⟨j, h1, h2, _⟩ => by omega
  | succ b ih =>
    refine ((flag_flags a _).trans (ih (by omega) _)).congr fun q => ?_
    constructor
    · rintro (rfl | ⟨j, h1, h2, rfl⟩)
      · exact ⟨_, by omega, by omega, rfl⟩
      · exact ⟨j, by omega, h2, rfl⟩
    · rintro ⟨j, h1, h2, rfl⟩
      by_cases hj : j = k - (b + 1)
      · exact .inl (by rw [hj])
      · exact .inr ⟨j, by omega, h2, rfl⟩

variable {j : Nat}

theorem stretch_run {link : Nat → Prop} {n k b : Nat} (hb : 1 ≤ b ∧ b ≤ k) (hkn : k ≤ n) (hlinks : ∀ j, k - b < j → j < k → link j)
    (hstart : k - b = 0 ∨ ¬ link (k - b)) (hstop : k = n ∨ ¬ link k) (hj : k - b ≤ j) (hjk : j < k) :
    InRun link n j ↔ SCORE_WIDTH ≤ b := by
  unfold SCORE_WIDTH
  constructor
  · rintro ⟨i, hij, hji, hin, h1, h2⟩
    have hlow : k - b ≤ i := by
      by_contra hlt
      rcases hstart with h0 | hno
      · omega
      · have : k - b = i + 1 ∨ k - b = i + 2 := by omega
        rcases this with h | h
        · exact hno (h ▸ h1)
        · exact hno (h ▸ h2)
    have hhigh : i + 2 < k := by
      by_contra hge
      rcases hstop with h0 | hno
      · omega
      · have : k = i + 1 ∨ k = i + 2 := by omega
        rcases this with h | h
        · exact hno (h ▸ h1)
        · exact hno (h ▸ h2)
    omega
  · intro h3
    refine ⟨min j (k - 3), by omega, by omega, by omega, hlinks _ (by omega) (by omega), hlinks _ (by omega) (by omega)⟩

variable {l : Line}

theorem run_ne_back (hl : ∀ k < l.n, a (l.cells k) &&& MASK_BLOCKS = BLK_BACK → a (l.cells k) = BLK_BACK) (hj : InRun (l.link a) l.n j) : a (l.cells j) ≠ BLK_BACK := by
  obtain ⟨i, hij, hji, hin, h1, h2⟩ := hj
  by_cases hfirst : i = j
  · subst hfirst
    intro hback
    have hmask := h1.2
    rw [Nat.add_sub_cancel, hback] at hmask
    exact h1.1 (hl (i + 1) (by omega) hmask)
  · have : j = i + 1 ∨ j = i + 2 := by omega
    rcases this with rfl | rfl
    · exact h1.1
    · exact h2.1

theorem lineScore_bounded {base blocks : Nat} (hb : SCORE_WIDTH ≤ blocks) : lineScore base blocks = bounded (stretchPoints base blocks) := by
  rw [lineScore, bounded, stretchPoints, if_pos hb, Nat.shiftLeft_eq]

variable {s : Scan} {t : Nat}

theorem close_eq (base k : Nat) (cells : Nat → Int × Int) (hs : s.score = bounded t) :
    (close base cells k s).score = bounded (t + stretchPoints base s.blocks) ∧
      (close base cells k s).area = if SCORE_WIDTH ≤ s.blocks then mark cells k s.blocks s.area else s.area := by
  unfold close
  by_cases hb : SCORE_WIDTH ≤ s.blocks
  · rw [if_pos hb, if_pos hb]
    exact ⟨by rw [hs, lineScore_bounded hb, addInt_bounded], rfl⟩
  · rw [if_neg hb, if_neg hb, stretchPoints, if_neg hb]
    exact ⟨hs, rfl⟩

theorem close_flags (base : Nat) (a0 : Area) {k : Nat} (hb : 1 ≤ s.blocks ∧ s.blocks ≤ k) (hkn : k ≤ l.n)
    (hlinks : ∀ j, k - s.blocks < j → j < k → l.link a0 j) (hstart : k - s.blocks = 0 ∨ ¬ l.link a0 (k - s.blocks)) (hstop : k = l.n ∨ ¬ l.link a0 k) :
    Flags s.area (if SCORE_WIDTH ≤ s.blocks then mark l.cells k s.blocks s.area else s.area)
        (fun q => ∃ j, k - s.blocks ≤ j ∧ j < k ∧ q = l.cells j ∧ InRun (l.link a0) l.n j) ∧
      (stretchPoints base s.blocks ≠ 0 → ∃ j, k - s.blocks ≤ j ∧ j < k ∧ InRun (l.link a0) l.n j) := by
  have hrun {j : Nat} := stretch_run (j := j) hb hkn hlinks hstart hstop
  constructor
  · by_cases h3 : SCORE_WIDTH ≤ s.blocks
    · rw [if_pos h3]
      refine (mark_flags l.cells hb.2 s.area).congr fun q => ?_
      constructor
      · rintro ⟨j, h1, h2, rfl⟩
        exact ⟨j, h1, h2, rfl, (hrun h1 h2).mpr h3⟩
      · rintro ⟨j, h1, h2, rfl, -⟩
        exact ⟨j, h1, h2, rfl⟩
    · rw [if_neg h3]
      exact Flags.none fun q ⟨j, h1, h2, _, hj⟩ => h3 ((hrun h1 h2).mp hj)
  · intro hpoints
    have h3 : SCORE_WIDTH ≤ s.blocks := by
      by_contra hno
      exact hpoints (if_neg hno)
    exact ⟨k - 1, by omega, by omega, (hrun (by omega) (by omega)).mpr h3⟩

def Line.links (l : Line) (a : Area) (k m : Nat) : List Bool := (List.range' k m).map fun j => decide (l.link a j)

theorem scan_fold (l : Line) {a0 : Area}
    (hl : ∀ k < l.n, a0 (l.cells k) &&& MASK_BLOCKS = BLK_BACK → a0 (l.cells k) = BLK_BACK) {m k : Nat} (hkm : k + m = l.n) (hb : 1 ≤ s.blocks ∧ s.blocks ≤ k)
    (hlinks : ∀ j, k - s.blocks < j → j < k → l.link a0 j) (hstart : k - s.blocks = 0 ∨ ¬ l.link a0 (k - s.blocks))
    (hsame : SameBlocks s.area a0) (hs : s.score = bounded t) :
    (close l.base l.cells l.n ((List.range' k m).foldl (scan_turn l.base l.cells) s)).score =
        bounded (t + runPoints l.base (l.links a0 k m) s.blocks) ∧
      Flags s.area (close l.base l.cells l.n ((List.range' k m).foldl (scan_turn l.base l.cells) s)).area
        (fun q => ∃ j, k - s.blocks ≤ j ∧ j < l.n ∧ q = l.cells j ∧ InRun (l.link a0) l.n j) ∧
      (runPoints l.base (l.links a0 k m) s.blocks ≠ 0 → ∃ j, k - s.blocks ≤ j ∧ j < l.n ∧ InRun (l.link a0) l.n j) := by
  induction m generalizing k s t with
  | zero =>
    obtain rfl : k = l.n := by omega
    obtain ⟨hscore, harea⟩ := close_eq l.base l.n l.cells hs
    obtain ⟨hflags, hpoints⟩ := close_flags l.base a0 hb (Nat.le_refl _) hlinks hstart (.inl rfl)
    rw [← harea] at hflags
    exact ⟨hscore, hflags, hpoints⟩
  | succ m ih =>
    rw [List.range'_succ, List.foldl_cons]
    have htest : s.area (l.cells k) ≠ BLK_BACK ∧ s.area (l.cells k) &&& MASK_BLOCKS = s.area (l.cells (k - 1)) &&& MASK_BLOCKS ↔ l.link a0 k :=
      hsame.alike
    have hcons : l.links a0 k (m + 1) = decide (l.link a0 k) :: l.links a0 (k + 1) m := by
      rw [Line.links, List.range'_succ, List.map_cons]
      rfl
    rw [hcons]
    by_cases hk : l.link a0 k
    · have hturn : scan_turn l.base l.cells s k = { s with blocks := s.blocks + 1 } := if_pos (htest.mpr hk)
      rw [hturn, decide_eq_true hk]
      have hback : k + 1 - (s.blocks + 1) = k - s.blocks := by omega
      have h := ih (k := k + 1) (s := { s with blocks := s.blocks + 1 }) (t := t) (by omega) ⟨by simp, by simpa using hb.2⟩
        (fun j h1 h2 => by
          rw [hback] at h1
          by_cases hj : j = k
          · exact hj ▸ hk
          · exact hlinks j h1 (by omega))
        (by rw [hback]; exact hstart) hsame hs
      rw [hback] at h
      exact h
    · have hturn : scan_turn l.base l.cells s k = { close l.base l.cells k s with blocks := 1 } := if_neg (mt htest.mp hk)
      rw [hturn, decide_eq_false hk]
      obtain ⟨hscore, harea⟩ := close_eq l.base k l.cells hs
      obtain ⟨hflags, hpoints⟩ := close_flags l.base a0 hb (by omega) hlinks hstart (.inr hk)
      rw [← harea] at hflags
      have hsame' : SameBlocks (close l.base l.cells k s).area s.area := hflags.same fun q ⟨j, h1, h2, hq, hrun⟩ hback => by
        subst hq
        exact run_ne_back hl hrun ((hsame _).2.mp hback)
      have h := ih (k := k + 1) (s := { close l.base l.cells k s with blocks := 1 }) (t := t + stretchPoints l.base s.blocks) (by omega)
        ⟨Nat.le_refl 1, by simp⟩ (fun j h1 h2 => by simp only at h1; omega) (by simpa using Or.inr hk) (hsame'.trans hsame) hscore
      simp only [Nat.add_sub_cancel] at h
      obtain ⟨h1, h2, h3⟩ := h
      refine ⟨by rw [h1, runPoints, Nat.add_assoc], (hflags.trans h2).congr fun q => ?_, fun hne => ?_⟩
      · constructor
        · rintro (⟨j, hj1, hj2, hq, hj⟩ | ⟨j, hj1, hj2, hq, hj⟩)
          · exact ⟨j, hj1, by omega, hq, hj⟩
          · exact ⟨j, by omega, hj2, hq, hj⟩
        · rintro ⟨j, hj1, hj2, hq, hj⟩
          by_cases hjk : j < k
          · exact .inl ⟨j, hj1, hjk, hq, hj⟩
          · exact .inr ⟨j, by omega, hj2, hq, hj⟩
      · rw [runPoints] at hne
        by_cases hfirst : stretchPoints l.base s.blocks ≠ 0
        · obtain ⟨j, hj1, hj2, hj⟩ := hpoints hfirst
          exact ⟨j, hj1, by omega, hj⟩
        · obtain ⟨j, hj1, hj2, hj⟩ := h3 (by omega)
          exact ⟨j, by omega, hj2, hj⟩

def Line.points (l : Line) (a : Area) : Nat := runPoints l.base (l.links a 1 (l.n - 1)) 1

def Line.Filled (l : Line) (a : Area) : Prop :=
  1 ≤ l.n ∧ ∀ k < l.n, a (l.cells k) &&& MASK_BLOCKS = BLK_BACK → a (l.cells k) = BLK_BACK

def Line.Run (l : Line) (a : Area) (q : Int × Int) : Prop := ∃ j, j < l.n ∧ q = l.cells j ∧ InRun (l.link a) l.n j

theorem check_line_eq {a0 a : Area} (hl : l.Filled a0) (hsame : SameBlocks a a0) :
    (check_line l a).1 = bounded (l.points a0) ∧ Flags a (check_line l a).2 (l.Run a0) ∧ (l.points a0 ≠ 0 → ∃ q, l.Run a0 q) := by
  obtain ⟨hscore, hflags, hpoints⟩ := scan_fold l hl.2 (k := 1) (m := l.n - 1) (s := ⟨a, some 0, 1⟩) (t := 0) (by have := hl.1; omega)
    ⟨Nat.le_refl 1, Nat.le_refl 1⟩ (fun j h1 h2 => by simp only at h1; omega) (.inl rfl) hsame rfl
  rw [Nat.zero_add] at hscore
  refine ⟨hscore, hflags.congr fun q => ?_, fun hne => ?_⟩
  · simp [Line.Run]
  · obtain ⟨j, -, hj, hrun⟩ := hpoints hne
    exact ⟨_, j, hj, rfl, hrun⟩

theorem lines_fold {a0 : Area} (ls : List Line) (hls : ∀ l ∈ ls, l.Filled a0) {s : Option Nat × Area} (hs : s.1 = bounded t)
    (hsame : SameBlocks s.2 a0) :
    (ls.foldl (fun s l => (addInt s.1 (check_line l s.2).1, (check_line l s.2).2)) s).1 = bounded (t + (ls.map fun l => l.points a0).sum) ∧
      Flags s.2 (ls.foldl (fun s l => (addInt s.1 (check_line l s.2).1, (check_line l s.2).2)) s).2 (fun q => ∃ l ∈ ls, l.Run a0 q) ∧
      ((ls.map fun l => l.points a0).sum ≠ 0 → ∃ l ∈ ls, ∃ q, l.Run a0 q) := by
  induction ls generalizing s t with
  | nil => exact ⟨hs, Flags.none (by simp), by simp⟩
  | cons l ls ih =>
    obtain ⟨hscore, hflags, hpoints⟩ := check_line_eq (hls l (by simp)) hsame
    have hsame' : SameBlocks (check_line l s.2).2 s.2 := hflags.same fun q ⟨j, _, hq, hrun⟩ hback => by
      subst hq
      exact run_ne_back (hls l (by simp)).2 hrun ((hsame _).2.mp hback)
    obtain ⟨h1, h2, h3⟩ := ih (fun l' h => hls l' (by simp [h])) (s := (addInt s.1 (check_line l s.2).1, (check_line l s.2).2))
      (t := t + l.points a0) (by rw [hs, hscore, addInt_bounded]) (hsame'.trans hsame)
    rw [List.foldl_cons, List.map_cons, List.sum_cons, ← Nat.add_assoc]
    refine ⟨h1, (hflags.trans h2).congr fun q => by simp, fun hne => ?_⟩
    by_cases hl : l.points a0 ≠ 0
    · exact ⟨l, by simp, hpoints hl⟩
    · obtain ⟨l', hl', hq⟩ := h3 (by omega)
      exact ⟨l', by simp [hl'], hq⟩

/-! The lines of the field. -/

def Inside (width height : Nat) (p : Int × Int) : Prop := 0 ≤ p.1 ∧ p.1 < width ∧ 0 ≤ p.2 ∧ p.2 < height

def directions : List (Int × Int) := [(0, 1), (1, 0), (1, 1), (1, -1)]

def InLine (field : PlayField) (q : Int × Int) : Prop :=
  ∃ d ∈ directions, ∃ p, Inside field.width field.height p ∧ Inside field.width field.height (p + d + d) ∧
    Alike field.area p (p + d) ∧ Alike field.area (p + d) (p + d + d) ∧ (q = p ∨ q = p + d ∨ q = p + d + d)

structure Line.Goes (l : Line) (field : PlayField) (d : Int × Int) : Prop where
  first : 1 ≤ l.n
  step : ∀ k, l.cells (k + 1) = l.cells k + d
  inside : ∀ k < l.n, Inside field.width field.height (l.cells k)

variable {field : PlayField}

theorem diagonal_goes {x y : Nat} (hx : x < field.width) (hy : y < field.height) {incy : Int} (hinc : incy = 1 ∨ incy = -1) :
    (diagonal field x y incy).Goes field (1, incy) := by
  refine ⟨?_, fun k => ?_, fun k hk => ?_⟩
  · simp only [diagonal]
    split_ifs <;> omega
  · simp only [diagonal, Prod.mk_add_mk, Prod.mk.injEq]
    rcases hinc with rfl | rfl <;> omega
  · simp only [diagonal] at hk
    unfold Inside diagonal
    rcases hinc with rfl | rfl
    · rw [if_pos rfl] at hk
      simp only
      omega
    · rw [if_neg (by decide)] at hk
      simp only
      omega

theorem vertical_goes {x : Nat} (hx : x < field.width) (hh : 1 ≤ field.height) : (vertical field x).Goes field (0, 1) := by
  refine ⟨hh, fun k => by simp [vertical], fun k hk => ?_⟩
  simp only [vertical] at hk
  simp only [vertical, Inside]
  omega

theorem horizontal_goes {y : Nat} (hw : 1 ≤ field.width) (hy : y < field.height) : (horizontal field y).Goes field (1, 0) := by
  refine ⟨hw, fun k => by simp [horizontal], fun k hk => ?_⟩
  simp only [horizontal] at hk
  simp only [horizontal, Inside]
  omega

theorem line_goes (hw : 1 ≤ field.width) (hh : 1 ≤ field.height) (hl : l ∈ field.lines) : ∃ d ∈ directions, l.Goes field d := by
  simp only [PlayField.lines, List.mem_append, List.mem_map, List.mem_flatMap, List.mem_range, List.mem_range'_1, List.mem_cons, List.not_mem_nil,
    or_false] at hl
  unfold SCORE_WIDTH at hl
  rcases hl with (⟨x, hx, rfl⟩ | ⟨y, hy, rfl | rfl | rfl⟩) | ⟨x, hx, rfl | rfl⟩
  · exact ⟨(0, 1), by simp [directions], vertical_goes hx hh⟩
  · exact ⟨(1, 0), by simp [directions], horizontal_goes hw hy⟩
  · exact ⟨(1, 1), by simp [directions], diagonal_goes (by omega) hy (.inl rfl)⟩
  · exact ⟨(1, -1), by simp [directions], diagonal_goes (by omega) hy (.inr rfl)⟩
  · exact ⟨(1, 1), by simp [directions], diagonal_goes (by omega) (by omega) (.inl rfl)⟩
  · exact ⟨(1, -1), by simp [directions], diagonal_goes (by omega) (by omega) (.inr rfl)⟩

theorem line_through {p d : Int × Int} (hd : d ∈ directions) (hp : Inside field.width field.height p)
    (hend : Inside field.width field.height (p + d + d)) : ∃ l ∈ field.lines, l.Goes field d ∧ ∃ i, i + 2 < l.n ∧ l.cells i = p := by
  obtain ⟨x, y⟩ := p
  simp only [directions, List.mem_cons, List.not_mem_nil, or_false] at hd
  simp only [PlayField.lines, List.mem_append, List.mem_map, List.mem_flatMap, List.mem_range, List.mem_range'_1, List.mem_cons, List.not_mem_nil, or_false]
  unfold Inside at hp hend
  unfold SCORE_WIDTH
  rcases hd with rfl | rfl | rfl | rfl
  · simp only [Prod.mk_add_mk] at hp hend
    refine ⟨vertical field x.toNat, .inl (.inl ⟨x.toNat, by omega, rfl⟩), vertical_goes (by omega) (by omega), y.toNat, by simp only [vertical]; omega, ?_⟩
    simp only [vertical, Prod.mk.injEq]
    omega
  · simp only [Prod.mk_add_mk] at hp hend
    refine ⟨horizontal field y.toNat, .inl (.inr ⟨y.toNat, by omega, .inl rfl⟩), horizontal_goes (by omega) (by omega), x.toNat, by simp only [horizontal]; omega, ?_⟩
    simp only [horizontal, Prod.mk.injEq]
    omega
  · simp only [Prod.mk_add_mk] at hp hend
    by_cases hxy : x ≤ y
    · refine ⟨diagonal field 0 (y - x).toNat 1, .inl (.inr ⟨(y - x).toNat, by omega, .inr (.inl rfl)⟩),
        diagonal_goes (by omega) (by omega) (.inl rfl), x.toNat, ?_, ?_⟩
      · simp only [diagonal, if_true]
        omega
      · simp only [diagonal, Prod.mk.injEq]
        omega
    · refine ⟨diagonal field (x - y).toNat 0 1, .inr ⟨(x - y).toNat, by omega, .inl rfl⟩,
        diagonal_goes (by omega) (by omega) (.inl rfl), y.toNat, ?_, ?_⟩
      · simp only [diagonal, if_true]
        omega
      · simp only [diagonal, Prod.mk.injEq]
        omega
  · simp only [Prod.mk_add_mk] at hp hend
    by_cases hxy : x + y < field.height
    · refine ⟨diagonal field 0 (x + y).toNat (-1), .inl (.inr ⟨(x + y).toNat, by omega, .inr (.inr rfl)⟩),
        diagonal_goes (by omega) (by omega) (.inr rfl), x.toNat, ?_, ?_⟩
      · simp only [diagonal, show ¬ (-1 : Int) = 1 by decide, if_false]
        omega
      · simp only [diagonal, Prod.mk.injEq]
        omega
    · refine ⟨diagonal field (x + y - (field.height - 1)).toNat (field.height - 1) (-1),
        .inr ⟨(x + y - (field.height - 1)).toNat, by omega, .inr rfl⟩, diagonal_goes (by omega) (by omega) (.inr rfl),
        (field.height - 1 - y).toNat, ?_, ?_⟩
      · simp only [diagonal, show ¬ (-1 : Int) = 1 by decide, if_false]
        omega
      · simp only [diagonal, Prod.mk.injEq]
        omega

theorem inLine_iff (hw : 1 ≤ field.width) (hh : 1 ≤ field.height) (q : Int × Int) :
    InLine field q ↔ ∃ l ∈ field.lines, l.Run field.area q := by
  constructor
  · rintro ⟨d, hd, p, hp, hend, h1, h2, hq⟩
    obtain ⟨l, hl, hgoes, i, hi, rfl⟩ := line_through hd hp hend
    have hs1 := hgoes.step i
    have hs2 := hgoes.step (i + 1)
    have hlink1 : l.link field.area (i + 1) := by
      rw [Line.link, Nat.add_sub_cancel, hs1]
      exact h1
    have hlink2 : l.link field.area (i + 2) := by
      rw [Line.link, show i + 2 - 1 = i + 1 by omega, show i + 2 = i + 1 + 1 from rfl, hs2, hs1]
      exact h2
    rcases hq with rfl | rfl | rfl
    · exact ⟨l, hl, i, by omega, rfl, i, by omega, by omega, hi, hlink1, hlink2⟩
    · exact ⟨l, hl, i + 1, by omega, hs1.symm, i, by omega, by omega, hi, hlink1, hlink2⟩
    · exact ⟨l, hl, i + 2, by omega, by rw [show i + 2 = i + 1 + 1 from rfl, hs2, hs1], i, by omega, by omega, hi, hlink1, hlink2⟩
  · rintro ⟨l, hl, j, hj, rfl, i, hij, hji, hin, h1, h2⟩
    obtain ⟨d, hd, hgoes⟩ := line_goes hw hh hl
    have hs1 := hgoes.step i
    have hs2 := hgoes.step (i + 1)
    unfold Line.link at h1 h2
    rw [Nat.add_sub_cancel, hs1] at h1
    rw [show i + 2 - 1 = i + 1 by omega, show i + 2 = i + 1 + 1 from rfl, hs2, hs1] at h2
    refine ⟨d, hd, l.cells i, hgoes.inside i (by omega), ?_, h1, h2, ?_⟩
    · rw [← hs1, ← hs2]
      exact hgoes.inside (i + 2) hin
    · have : j = i ∨ j = i + 1 ∨ j = i + 2 := by omega
      rcases this with rfl | rfl | rfl
      · exact .inl rfl
      · exact .inr (.inl hs1)
      · exact .inr (.inr (by rw [show i + 2 = i + 1 + 1 from rfl, hs2, hs1]))

/-! What the removal leaves. -/

theorem shift_down_eq (x top m : Nat) (a : Area) (q : Int × Int) :
    shift_down x top m a q = if q.1 = x ∧ top < q.2 ∧ q.2 ≤ top + m then a (q.1, q.2 - 1) else a q := by
  induction m generalizing a with
  | zero =>
    rw [if_neg (by omega)]
    rfl
  | succ m ih =>
    obtain ⟨i, j⟩ := q
    rw [shift_down, ih]
    simp only [update_apply, Prod.mk.injEq]
    by_cases hin : i = x ∧ top < j ∧ j ≤ top + m
    · rw [if_pos hin, if_neg (by omega), if_pos (by omega)]
    · rw [if_neg hin]
      by_cases hlast : i = x ∧ j = top + m + 1
      · rw [if_pos hlast, if_pos (by omega), hlast.1, hlast.2]
        congr 2
        omega
      · rw [if_neg hlast, if_neg (by omega)]

def stays (c : Nat) : Bool := c != BLK_BACK && !flagged c

def column (a : Area) (x n : Nat) : List Nat := (List.range n).map fun y : Nat => a (x, y)

theorem column_succ (a : Area) (x n : Nat) : column a x (n + 1) = column a x n ++ [a (x, n)] := by
  simp [column, List.range_succ]

def NoGaps (a : Area) (x n : Nat) : Prop := ∀ y : Nat, y + 1 < n → a (x, y + 1) = BLK_BACK → a (x, y) = BLK_BACK

variable {x n y : Nat}

theorem noGaps_above (h : NoGaps a x n) (hy : y < n) (hback : a (x, y) = BLK_BACK) (hj : j ≤ y) :
    a (x, j) = BLK_BACK := by
  induction y with
  | zero =>
    obtain rfl : j = 0 := by omega
    exact hback
  | succ y ih =>
    by_cases hlast : j = y + 1
    · rw [hlast]
      exact hback
    · refine ih (by omega) (h y hy ?_) (by omega)
      rw [← hback]
      norm_cast

/-- A column in which the first rows are done: `top` empty cells, the blocks that stay, and the rows that are not done. -/
structure Done (a : Area) (x y : Nat) (s : Area × Nat) : Prop where
  empty : ∀ j : Nat, j < s.2 → s.1 (x, j) = BLK_BACK
  kept : ∀ i : Nat, i < ((column a x y).filter stays).length → ((column a x y).filter stays)[i]? = some (s.1 (x, (s.2 + i : Nat)))
  count : s.2 + ((column a x y).filter stays).length = y
  rest : ∀ q : Int × Int, q.1 ≠ x ∨ y ≤ q.2 → s.1 q = a q

theorem Done.turn {s : Area × Nat} (hgaps : NoGaps a x n) (hy : y < n) (h : Done a x y s) :
    Done a x (y + 1) (remove_turn x s y) := by
  obtain ⟨b, top⟩ := s
  obtain ⟨hempty, hkept, hcount, hrest⟩ := h
  simp only at hempty hkept hcount hrest
  have hcell : b (x, y) = a (x, y) := hrest _ (.inr (Int.le_refl _))
  unfold remove_turn
  simp only [hcell]
  by_cases hback : a (x, y) = BLK_BACK
  · have hnone : (column a x (y + 1)).filter stays = [] := by
      rw [List.filter_eq_nil_iff]
      intro c hc
      obtain ⟨j, hj, rfl⟩ := List.mem_map.mp hc
      rw [noGaps_above hgaps hy hback (Nat.lt_succ_iff.mp (List.mem_range.mp hj))]
      decide
    have hbefore : (column a x y).filter stays = [] := by
      rw [column_succ, List.filter_append, List.append_eq_nil_iff] at hnone
      exact hnone.1
    rw [hbefore, List.length_nil] at hcount
    rw [if_pos hback]
    refine ⟨fun j hj => ?_, by simp [hnone], by simp [hnone], fun q hq => hrest q (by omega)⟩
    by_cases hjy : j = y
    · rw [hjy]
      exact hcell.trans hback
    · exact hempty j (by simp only at hj; omega)
  · rw [if_neg hback]
    by_cases hflag : flagged (a (x, y))
    · rw [if_pos hflag]
      have hsame : (column a x (y + 1)).filter stays = (column a x y).filter stays := by
        rw [column_succ, List.filter_append, List.filter_cons_of_neg (by simp [stays, hflag]), List.filter_nil, List.append_nil]
      rw [← hsame] at hkept hcount
      refine ⟨fun j hj => ?_, fun i hi => ?_, by simp only; omega, fun q hq => ?_⟩
      · simp only at hj ⊢
        simp only [update_apply, shift_down_eq, Prod.mk.injEq, Nat.cast_inj, true_and]
        by_cases hjt : j = top
        · rw [if_pos hjt]
        · rw [if_neg hjt, if_neg (by omega)]
          exact hempty j (by omega)
      · simp only [update_apply, shift_down_eq, Prod.mk.injEq, Nat.cast_inj, true_and]
        rw [if_neg (by omega), if_pos (by omega), hkept i hi]
        congr 3
        omega
      · simp only [update_apply, shift_down_eq]
        rw [if_neg (by rintro rfl; simp only at hq; omega), if_neg (by omega)]
        exact hrest q (by omega)
    · have hnext : (column a x (y + 1)).filter stays = (column a x y).filter stays ++ [a (x, y)] := by
        rw [column_succ, List.filter_append, List.filter_cons_of_pos (by simp [stays, hflag, hback]), List.filter_nil]
      rw [if_neg hflag]
      refine ⟨hempty, fun i hi => ?_, by rw [hnext, List.length_append, List.length_singleton]; simp only; omega, fun q hq => hrest q (by omega)⟩
      rw [hnext, List.length_append, List.length_singleton] at hi
      rw [hnext]
      by_cases hlast : i < ((column a x y).filter stays).length
      · rw [List.getElem?_append_left hlast]
        exact hkept i hlast
      · obtain rfl : i = ((column a x y).filter stays).length := by omega
        rw [List.getElem?_append_right (Nat.le_refl _), Nat.sub_self, hcount]
        exact congrArg some hcell.symm

theorem Done.all (hgaps : NoGaps a x n) (hy : y ≤ n) : Done a x y ((List.range y).foldl (remove_turn x) (a, 0)) := by
  induction y with
  | zero => exact ⟨by simp, by simp [column], by simp [column], fun _ _ => rfl⟩
  | succ y ih =>
    rw [List.range_succ, List.foldl_append, List.foldl_cons, List.foldl_nil]
    exact (ih (by omega)).turn hgaps (by omega)

def stacked (n : Nat) (blocks : List Nat) : List Nat := List.replicate (n - blocks.length) BLK_BACK ++ blocks

theorem remove_column_eq {x n : Nat} (hgaps : NoGaps a x n) :
    column (remove_column n a x) x n = stacked n ((column a x n).filter stays) ∧ ∀ q : Int × Int, q.1 ≠ x → remove_column n a x q = a q := by
  have h := Done.all hgaps (Nat.le_refl n)
  unfold remove_column
  generalize (List.range n).foldl (remove_turn x) (a, 0) = s at h
  obtain ⟨hempty, hkept, hcount, hrest⟩ := h
  refine ⟨?_, fun q hq => hrest q (.inl hq)⟩
  have htop : n - ((column a x n).filter stays).length = s.2 := by omega
  rw [stacked, htop]
  apply List.ext_getElem?
  intro j
  by_cases hj : j < n
  · rw [column, List.getElem?_map, List.getElem?_range hj, map_some]
    by_cases hjt : j < s.2
    · rw [List.getElem?_append_left (by simpa using hjt), List.getElem?_replicate, if_pos hjt, hempty j hjt]
    · rw [List.getElem?_append_right (by simp; omega), List.length_replicate, hkept _ (by omega), show s.2 + (j - s.2) = j by omega]
  · rw [List.getElem?_eq_none (by simp [column]; omega), List.getElem?_eq_none (by simp; omega)]

theorem column_congr {a b : Area} {x : Nat} (h : ∀ q : Int × Int, q.1 = x → a q = b q) (n : Nat) : column a x n = column b x n :=
  List.map_congr_left fun _ _ => h _ rfl

theorem remove_columns {n w : Nat} (hgaps : ∀ x < w, NoGaps a x n) :
    (∀ x < w, column ((List.range w).foldl (remove_column n) a) x n = stacked n ((column a x n).filter stays)) ∧
      ∀ q : Int × Int, (w : Int) ≤ q.1 → (List.range w).foldl (remove_column n) a q = a q := by
  induction w with
  | zero => exact ⟨fun x hx => by omega, fun q _ => rfl⟩
  | succ w ih =>
    obtain ⟨hdone, hrest⟩ := ih fun x hx => hgaps x (by omega)
    rw [List.range_succ, List.foldl_append, List.foldl_cons, List.foldl_nil]
    generalize (List.range w).foldl (remove_column n) a = b at hdone hrest
    have hlast : ∀ q : Int × Int, q.1 = w → b q = a q := fun q hq => hrest q (by omega)
    have hcol : NoGaps b w n := fun y hy hback => by
      rw [hlast _ rfl] at hback ⊢
      exact hgaps w (by omega) y hy hback
    obtain ⟨hw, hothers⟩ := remove_column_eq hcol
    refine ⟨fun x hx => ?_, fun q hq => (hothers q (by omega)).trans (hrest q (by omega))⟩
    by_cases hxw : x = w
    · rw [hxw, hw, column_congr hlast]
    · rw [column_congr (fun q hq => hothers q (by omega)), hdone x (by omega)]

theorem remove_nothing {n w : Nat} (hnone : flagged_blocks w n a = 0) : (List.range w).foldl (remove_column n) a = a := by
  have hcell : ∀ x < w, ∀ y < n, flagged (a ((x : Int), (y : Int))) = false := by
    intro x hx y hy
    have hcol := List.sum_eq_zero_iff_forall_eq_nat.mp hnone _ (List.mem_map_of_mem (List.mem_range.mpr hx))
    simpa using List.countP_eq_zero.mp hcol y (List.mem_range.mpr hy)
  have hrows (x m : Nat) (hx : x < w) (hm : m ≤ n) : ((List.range m).foldl (remove_turn x) (a, 0)).1 = a := by
    induction m with
    | zero => rfl
    | succ m ih =>
      have h := ih (by omega)
      rw [List.range_succ, List.foldl_append, List.foldl_cons, List.foldl_nil, remove_turn, h, hcell x hx m (by omega)]
      split_ifs <;> simp_all
  have hcolumns (m : Nat) (hm : m ≤ w) : (List.range m).foldl (remove_column n) a = a := by
    induction m with
    | zero => rfl
    | succ m ih =>
      rw [List.range_succ, List.foldl_append, ih (by omega), List.foldl_cons, List.foldl_nil]
      exact hrows m n (by omega) (Nat.le_refl n)
  exact hcolumns w (Nat.le_refl w)

theorem kill_blocks_eq (field : PlayField) (a : Area) :
    kill_blocks field a = (bounded (KILL_SCORE * flagged_blocks field.width field.height a), (List.range field.width).foldl (remove_column field.height) a) := by
  unfold kill_blocks
  by_cases hnone : flagged_blocks field.width field.height a = 0
  · simp only [hnone, if_true, Nat.mul_zero, remove_nothing hnone]
    rfl
  · simp only [hnone, if_false, addInt, bind_some, Nat.zero_add, bounded, Nat.mul_comm]

/-! What `check_blocks` does with a field. -/

structure PlayField.Valid (field : PlayField) : Prop where
  wide : 1 ≤ field.width
  high : 1 ≤ field.height
  block : ∀ x < field.width, ∀ c ∈ column field.area x field.height, c = BLK_BACK ∨ c < BLK_JEWEL ∨ FLAG_DELETE ≤ c ∧ c < FLAG_DELETE + BLK_JEWEL
  noGaps : ∀ x < field.width, NoGaps field.area x field.height

def Gone (field : PlayField) (q : Int × Int) : Prop := flagged (field.area q) ∨ InLine field q

noncomputable instance (field : PlayField) (q : Int × Int) : Decidable (Gone field q) := Classical.propDecidable _

noncomputable def PlayField.survivors (field : PlayField) (x : Nat) : List Nat :=
  ((List.range field.height).filter fun y : Nat => field.area (x, y) ≠ BLK_BACK ∧ ¬ Gone field (x, y)).map fun y : Nat => field.area (x, y)

noncomputable def PlayField.removed (field : PlayField) : Nat :=
  ((List.range field.width).map fun x : Nat => (List.range field.height).countP fun y : Nat => Gone field (x, y)).sum

noncomputable def PlayField.total (field : PlayField) : Nat :=
  (field.lines.map fun l => l.points field.area).sum + KILL_SCORE * field.removed

theorem mem_column (hy : y < n) : a (x, y) ∈ column a x n := List.mem_map_of_mem (List.mem_range.mpr hy)

variable {q : Int × Int}

theorem PlayField.Valid.cell (h : field.Valid) (hq : Inside field.width field.height q) :
    field.area q = BLK_BACK ∨ field.area q < BLK_JEWEL ∨ FLAG_DELETE ≤ field.area q ∧ field.area q < FLAG_DELETE + BLK_JEWEL := by
  obtain ⟨x, y⟩ := q
  obtain ⟨hx, hxw, hy, hyh⟩ := hq
  lift x to Nat using hx
  lift y to Nat using hy
  exact h.block x (by omega) _ (mem_column (by omega))

theorem block_mask : ∀ c < FLAG_DELETE + BLK_JEWEL, c &&& MASK_BLOCKS = BLK_BACK → c < BLK_JEWEL ∨ FLAG_DELETE ≤ c → c = BLK_BACK := by
  decide

theorem PlayField.Valid.filled (h : field.Valid) (hl : l ∈ field.lines) : l.Filled field.area := by
  obtain ⟨d, -, hgoes⟩ := line_goes h.wide h.high hl
  refine ⟨hgoes.first, fun k hk hmask => ?_⟩
  rcases h.cell (hgoes.inside k hk) with hback | hblock
  · exact hback
  · exact block_mask _ (by unfold FLAG_DELETE BLK_JEWEL at *; omega) hmask (by omega)

theorem PlayField.Valid.inLine_ne_back (h : field.Valid) (hq : InLine field q) : field.area q ≠ BLK_BACK := by
  obtain ⟨l, hl, j, hj, rfl, hrun⟩ := (inLine_iff h.wide h.high q).mp hq
  exact run_ne_back (h.filled hl).2 hrun

/-- The field after the removal: the same size, in every column only the blocks that are left, at the bottom, and no flags. -/
structure Removed (field field' : PlayField) : Prop where
  width : field'.width = field.width
  height : field'.height = field.height
  columns : ∀ x < field.width, column field'.area x field.height = stacked field.height (field.survivors x)
  clear : ∀ x < field.width, ∀ c ∈ column field'.area x field.height, flagged c = false

def Removes (field : PlayField) : Prop := ∃ q, Inside field.width field.height q ∧ Gone field q

def Meets (field : PlayField) : Prop :=
  ∃ score field', check_blocks field = some (score, field') ∧ Removed field field' ∧ (0 < score ↔ Removes field)

def Turn (field field' : PlayField) : Prop := ∃ score, 0 < score ∧ check_blocks field = some (score, field')

theorem flagged_iff (hflags : Flags field.area a (InLine field)) (q : Int × Int) : flagged (a q) ↔ Gone field q := by
  unfold Gone
  by_cases hq : InLine field q
  · rw [(hflags q).1 hq, or_flag_flagged]
    exact iff_of_true rfl (.inr hq)
  · rw [(hflags q).2 hq]
    exact ⟨.inl, fun h => h.resolve_right hq⟩

theorem flagged_blocks_eq (hflags : Flags field.area a (InLine field)) :
    flagged_blocks field.width field.height a = field.removed := by
  unfold flagged_blocks PlayField.removed
  refine congrArg List.sum (List.map_congr_left fun x _ => List.countP_congr fun y _ => ?_)
  rw [flagged_iff hflags, decide_eq_true_iff]

theorem survivors_eq (h : field.Valid) (hflags : Flags field.area a (InLine field)) (x : Nat) :
    (column a x field.height).filter stays = field.survivors x := by
  have hsame := hflags.same fun q hq => h.inLine_ne_back hq
  rw [column, List.filter_map, PlayField.survivors]
  have hfilter : (List.range field.height).filter (stays ∘ fun y : Nat => a (x, y)) =
      (List.range field.height).filter fun y : Nat => field.area (x, y) ≠ BLK_BACK ∧ ¬ Gone field (x, y) := by
    refine List.filter_congr fun y _ => ?_
    rw [Bool.eq_iff_iff, decide_eq_true_iff, ← flagged_iff hflags, Ne, ← (hsame _).2]
    simp [stays]
  rw [hfilter]
  refine List.map_congr_left fun y hy => ?_
  have hgone := (of_decide_eq_true (List.mem_filter.mp hy).2).2
  exact (hflags _).2 fun hline => hgone (.inr hline)

theorem removed_pos (field : PlayField) : 0 < field.removed ↔ Removes field := by
  unfold PlayField.removed Removes
  rw [Nat.pos_iff_ne_zero, Ne, List.sum_eq_zero_iff_forall_eq_nat]
  simp only [List.mem_map, List.mem_range, forall_exists_index, and_imp, forall_apply_eq_imp_iff₂, List.countP_eq_zero, decide_eq_true_iff, not_forall, not_not]
  constructor
  · rintro ⟨x, hx, y, hy, hgone⟩
    exact ⟨_, ⟨by omega, by simpa using hx, by omega, by simpa using hy⟩, hgone⟩
  · rintro ⟨⟨x, y⟩, ⟨hx, hxw, hy, hyh⟩, hgone⟩
    simp only at hx hxw hy hyh
    lift x to Nat using hx
    lift y to Nat using hy
    exact ⟨x, by omega, y, by omega, hgone⟩

theorem survivors_stay (field : PlayField) (x : Nat) : ∀ c ∈ field.survivors x, c ∈ column field.area x field.height ∧ c ≠ BLK_BACK ∧ flagged c = false := by
  intro c hc
  obtain ⟨y, hy, rfl⟩ := List.mem_map.mp hc
  obtain ⟨hrow, hstay⟩ := List.mem_filter.mp hy
  obtain ⟨hback, hgone⟩ := of_decide_eq_true hstay
  exact ⟨List.mem_map_of_mem hrow, hback, by simpa using fun hflag => hgone (.inl hflag)⟩

theorem mem_stacked {n c : Nat} {l : List Nat} (h : c ∈ stacked n l) : c = BLK_BACK ∨ c ∈ l := by
  rcases List.mem_append.mp h with h | h
  · exact .inl (List.eq_of_mem_replicate h)
  · exact .inr h

theorem check_blocks_eq (h : field.Valid) :
    ∃ field', check_blocks field = (bounded field.total).map (fun score => (score, field')) ∧ Removed field field' ∧ (0 < field.total ↔ Removes field) := by
  obtain ⟨hscore, hflags, hpoints⟩ := lines_fold field.lines (fun l hl => h.filled hl) (s := (some 0, field.area)) (t := 0) rfl fun q => ⟨rfl, Iff.rfl⟩
  unfold check_blocks
  generalize field.lines.foldl (fun s l => (addInt s.1 (check_line l s.2).1, (check_line l s.2).2)) (some 0, field.area) = s at hscore hflags
  obtain ⟨score, a⟩ := s
  simp only at hscore hflags ⊢
  have hflags : Flags field.area a (InLine field) := hflags.congr fun q => (inLine_iff h.wide h.high q).symm
  rw [kill_blocks_eq, flagged_blocks_eq hflags]
  simp only
  rw [hscore, addInt_bounded, Nat.zero_add]
  have hgaps : ∀ x < field.width, NoGaps a x field.height := by
    intro x hx y hy hback
    have hsame := hflags.same fun q hq => h.inLine_ne_back hq
    exact (hsame _).2.mpr (h.noGaps x hx y hy ((hsame _).2.mp hback))
  have hcolumns : ∀ x < field.width, column ((List.range field.width).foldl (remove_column field.height) a) x field.height = stacked field.height (field.survivors x) :=
    fun x hx => by rw [(remove_columns hgaps).1 x hx, survivors_eq h hflags]
  refine ⟨_, rfl, ⟨rfl, rfl, hcolumns, fun x hx c hc => ?_⟩, ?_⟩
  · rw [hcolumns x hx] at hc
    rcases mem_stacked hc with rfl | hc
    · rfl
    · exact (survivors_stay field x c hc).2.2
  · rw [← removed_pos, PlayField.total]
    constructor
    · intro htotal
      by_cases hlines : (field.lines.map fun l => l.points field.area).sum ≠ 0
      · obtain ⟨l, hl, q, hrun⟩ := hpoints hlines
        rw [removed_pos]
        obtain ⟨d, -, hgoes⟩ := line_goes h.wide h.high hl
        have hq : InLine field q := (inLine_iff h.wide h.high q).mpr ⟨l, hl, hrun⟩
        obtain ⟨j, hj, rfl, -⟩ := hrun
        exact ⟨_, hgoes.inside j hj, .inr hq⟩
      · unfold KILL_SCORE at htotal
        omega
    · unfold KILL_SCORE
      omega

theorem meets_iff (h : field.Valid) : Meets field ↔ field.total ≤ INT_MAX := by
  obtain ⟨field', hcheck, hremoved, hpos⟩ := check_blocks_eq h
  unfold bounded at hcheck
  constructor
  · rintro ⟨score, f, hf, -⟩
    by_contra hno
    rw [if_neg hno, hf] at hcheck
    cases hcheck
  · intro htotal
    rw [if_pos htotal] at hcheck
    exact ⟨_, _, hcheck, hremoved, hpos⟩

/-! The loop. -/

theorem column_getElem? (a : Area) (x : Nat) {n y : Nat} (hy : y < n) : (column a x n)[y]? = some (a (x, y)) := by
  rw [column, List.getElem?_map, List.getElem?_range hy, map_some]

theorem stacked_noGaps {x n : Nat} {l : List Nat} (h : column a x n = stacked n l) (hl : ∀ c ∈ l, c ≠ BLK_BACK) : NoGaps a x n := by
  intro y hy hback
  have hnext := column_getElem? a x hy
  have hcell := column_getElem? a x (Nat.lt_of_succ_lt hy)
  rw [h, stacked] at hnext hcell
  have hshort : y + 1 < n - l.length := by
    by_contra hlong
    rw [List.getElem?_append_right (by simpa using hlong)] at hnext
    exact hl _ (List.mem_of_getElem? hnext) (by rw [← hback]; norm_cast)
  rw [List.getElem?_append_left (by simp; omega), List.getElem?_replicate, if_pos (by omega)] at hcell
  exact (Option.some.inj hcell).symm

theorem Removed.valid {field field' : PlayField} (hr : Removed field field') (h : field.Valid) : field'.Valid := by
  refine ⟨hr.width ▸ h.wide, hr.height ▸ h.high, ?_, ?_⟩
  · rw [hr.width, hr.height]
    intro x hx c hc
    rw [hr.columns x hx] at hc
    rcases mem_stacked hc with hback | hc
    · exact .inl hback
    · exact h.block x hx c (survivors_stay field x c hc).1
  · rw [hr.width, hr.height]
    exact fun x hx => stacked_noGaps (hr.columns x hx) fun c hc => (survivors_stay field x c hc).2.1

def PlayField.blocks (field : PlayField) : Nat :=
  ((List.range field.width).map fun x : Nat => (column field.area x field.height).countP (· != BLK_BACK)).sum

theorem countP_split {α : Type} {p q : α → Bool} (h : ∀ c, q c → p c) (l : List α) : l.countP p = (l.filter fun c => p c && !q c).length + l.countP q := by
  induction l with
  | nil => rfl
  | cons c l ih =>
    have hc := h c
    cases hp : p c <;> cases hq : q c <;> simp_all <;> omega

theorem Removed.blocks {field field' : PlayField} (hr : Removed field field') (h : field.Valid) : field.blocks = field'.blocks + field.removed := by
  unfold PlayField.blocks PlayField.removed
  rw [hr.width, hr.height, ← List.sum_map_add]
  refine congrArg List.sum (List.map_congr_left fun x hx => ?_)
  have hleft : (column field'.area x field.height).countP (· != BLK_BACK) = (field.survivors x).length := by
    rw [hr.columns x (List.mem_range.mp hx), stacked, List.countP_append, List.countP_replicate]
    have hall : (field.survivors x).countP (· != BLK_BACK) = (field.survivors x).length :=
      List.countP_eq_length.mpr fun c hc => by simpa using (survivors_stay field x c hc).2.1
    simp [hall]
  have hgone (y : Nat) : decide (Gone field (x, y)) = true → (field.area (x, y) != BLK_BACK) = true := by
    rw [decide_eq_true_iff, bne_iff_ne]
    rintro (hflag | hline)
    · intro hback
      rw [hback] at hflag
      cases hflag
    · exact h.inLine_ne_back hline
  have hstay : (field.survivors x).length =
      ((List.range field.height).filter fun y : Nat => (field.area (x, y) != BLK_BACK) && !decide (Gone field (x, y))).length := by
    rw [PlayField.survivors, List.length_map]
    refine congrArg List.length (List.filter_congr fun y _ => ?_)
    rw [Bool.eq_iff_iff]
    simp only [decide_eq_true_iff, Bool.and_eq_true, bne_iff_ne, Bool.not_eq_true', decide_eq_false_iff_not]
  rw [hleft, hstay, column, List.countP_map]
  exact countP_split hgone _

theorem blocks_le (field : PlayField) : field.blocks ≤ field.width * field.height := by
  unfold PlayField.blocks
  have h := List.sum_le_card_nsmul ((List.range field.width).map fun x : Nat => (column field.area x field.height).countP (· != BLK_BACK)) field.height
    fun n hn => by
      obtain ⟨x, -, rfl⟩ := List.mem_map.mp hn
      exact List.countP_le_length.trans (by simp [column])
  simpa using h

theorem check_loop_ends (h : field.Valid) :
    ∃ r, check_loop (field.width * field.height + 1) field = some r ∧
      (∀ f', r = some f' → ∃ f, Relation.ReflTransGen Turn field f ∧ ¬ Removes f ∧ Removed f f') ∧
      (r = none → ∃ f, Relation.ReflTransGen Turn field f ∧ INT_MAX < f.total) := by
  refine runLoop_spec (fun f => f.Valid ∧ Relation.ReflTransGen Turn field f) PlayField.blocks _ ?_ ?_ ⟨h, .refl⟩ (by have := blocks_le field; omega)
  · rintro f f' ⟨hf, hrun⟩ hbody
    obtain ⟨g, hcheck, hremoved, hpos⟩ := check_blocks_eq hf
    unfold bounded at hcheck
    by_cases htotal : f.total ≤ INT_MAX
    · rw [if_pos htotal] at hcheck
      simp only [hcheck, map_some] at hbody
      by_cases hzero : f.total = 0
      · rw [if_pos hzero] at hbody
        cases hbody
      · rw [if_neg hzero] at hbody
        cases hbody
        have hgone := (removed_pos f).mpr (hpos.mp (by omega))
        have hblocks := hremoved.blocks hf
        exact ⟨⟨hremoved.valid hf, hrun.tail ⟨f.total, by omega, hcheck⟩⟩, by omega⟩
    · rw [if_neg htotal] at hcheck
      simp only [hcheck, map_none] at hbody
      cases hbody
  · rintro f r ⟨hf, hrun⟩ hbody
    obtain ⟨g, hcheck, hremoved, hpos⟩ := check_blocks_eq hf
    unfold bounded at hcheck
    by_cases htotal : f.total ≤ INT_MAX
    · rw [if_pos htotal] at hcheck
      simp only [hcheck, map_some] at hbody
      by_cases hzero : f.total = 0
      · rw [if_pos hzero] at hbody
        cases hbody
        refine ⟨fun f' hf' => ?_, nofun⟩
        cases hf'
        exact ⟨f, hrun, fun hgone => absurd (hpos.mpr hgone) (by omega), hremoved⟩
      · rw [if_neg hzero] at hbody
        cases hbody
    · rw [if_neg htotal] at hcheck
      simp only [hcheck, map_none] at hbody
      cases hbody
      exact ⟨by simp, fun _ => ⟨f, hrun, by omega⟩⟩

/-- The blocks in lines go, and those with a flag, and the score says so, unless it overflows; the loop ends in every case. -/
theorem check_blocks_meets {field : PlayField} (h : field.Valid) : (Meets field ↔ field.total ≤ INT_MAX) ∧
      ∃ r, check_loop (field.width * field.height + 1) field = some r ∧
        (∀ f', r = some f' → ∃ f, Relation.ReflTransGen Turn field f ∧ ¬ Removes f ∧ Removed f f') ∧
        (r = none → ∃ f, Relation.ReflTransGen Turn field f ∧ INT_MAX < f.total) :=
  ⟨meets_iff h, check_loop_ends h⟩

def pile (height : Nat) : PlayField := ⟨1, height, fun _ => 0⟩

theorem pile_valid {height : Nat} (h : 1 ≤ height) : (pile height).Valid :=
  ⟨Nat.le_refl 1, h, fun x _ c hc => by
    obtain ⟨y, -, rfl⟩ := List.mem_map.mp hc
    exact .inr (.inl (show 0 < BLK_JEWEL by decide)), fun x _ y _ hback => by cases hback⟩

theorem check_blocks_meets_pile : (Meets (pile 3) ↔ (pile 3).total ≤ INT_MAX) ∧
    ∃ r, check_loop (1 * 3 + 1) (pile 3) = some r ∧
      (∀ f', r = some f' → ∃ f, Relation.ReflTransGen Turn (pile 3) f ∧ ¬ Removes f ∧ Removed f f') ∧
      (r = none → ∃ f, Relation.ReflTransGen Turn (pile 3) f ∧ INT_MAX < f.total) :=
  check_blocks_meets (pile_valid (by decide))

/-- Thirty equal blocks in a column give more points than an `int` holds. -/
theorem high_pile_overflows : (pile 30).Valid ∧ check_blocks (pile 30) = none ∧ ¬ Meets (pile 30) := by
  have hvalid : (pile 30).Valid := pile_valid (by decide)
  have hpoints : INT_MAX < (pile 30).total := by
    have hlines : INT_MAX < ((pile 30).lines.map fun l => l.points (pile 30).area).sum := by decide +kernel
    unfold PlayField.total
    omega
  obtain ⟨f, hcheck, -⟩ := check_blocks_eq hvalid
  unfold bounded at hcheck
  rw [if_neg (by omega)] at hcheck
  exact ⟨hvalid, hcheck, fun hmeets => absurd ((meets_iff hvalid).mp hmeets) (by omega)⟩

end WWindowSystem.Jewel
