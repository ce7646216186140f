import Mathlib.Data.List.Induction
import Mathlib.Data.List.Nodup
import WWindowSystem.Library.Loops

namespace WWindowSystem.Pente

open List

inductive color_t
  | EMPTY
  | BLACK
  | WHITE
  deriving DecidableEq, Repr

def BOARD_SIZE : Int := 19

structure Player where
  captures : Nat
  color : color_t
  deriving DecidableEq

structure Engine where
  LastX : Int
  LastY : Int
  Board : Int → Int → color_t
  Backup : Int → Int → color_t
  Mine : Player
  Your : Player
  NeedClearing : Bool
  playing : Bool

def put (b : Int → Int → color_t) (x y : Int) (c : color_t) : Int → Int → color_t :=
  fun u v => if u = x ∧ v = y then c else b u v

def inside (x y : Int) : Prop := 0 ≤ x ∧ 0 ≤ y ∧ x < BOARD_SIZE ∧ y < BOARD_SIZE

instance (x y : Int) : Decidable (inside x y) := inferInstanceAs (Decidable (_ ∧ _))

def remove_piece (x y : Int) (b : Int → Int → color_t) : Int → Int → color_t := put b x y .EMPTY

def capture_table : List (Int × Int) := [(-1, 0), (1, 0), (0, -1), (0, 1), (-1, 1), (1, 1), (1, -1), (-1, -1)]

def brackets (own other : color_t) (x y : Int) (b : Int → Int → color_t) (dir : Int × Int) : Prop :=
  inside (x - 3 * dir.1) (y - 3 * dir.2) ∧ b (x - 3 * dir.1) (y - 3 * dir.2) = own ∧
    b (x - 2 * dir.1) (y - 2 * dir.2) = other ∧ b (x - dir.1) (y - dir.2) = other

instance (own other : color_t) (x y : Int) (b : Int → Int → color_t) (dir : Int × Int) : Decidable (brackets own other x y b dir) :=
  inferInstanceAs (Decidable (_ ∧ _))

def capture_dir (own other : color_t) (x y : Int) (s : (Int → Int → color_t) × Nat) (dir : Int × Int) :
    (Int → Int → color_t) × Nat :=
  if brackets own other x y s.1 dir then
    (remove_piece (x - 2 * dir.1) (y - 2 * dir.2) (remove_piece (x - dir.1) (y - dir.2) s.1), s.2 + 1)
  else s

def capture (own : Bool) (x y : Int) (s : Engine) : Engine × Bool :=
  let test := if own then s.Mine else s.Your
  let other := if own then s.Your.color else s.Mine.color
  let (b, captures) := capture_table.foldl (capture_dir test.color other x y) (s.Board, test.captures)
  let test := { test with captures := captures }
  ({ s with Board := b, Mine := if own then test else s.Mine, Your := if own then s.Your else test }, decide (4 < captures))

def stretch (color : color_t) (b : Int → Int → color_t) (w h x y : Int) : Int × Int :=
  (runLoop (fun p : Int × Int =>
    if inside (p.1 + w) (p.2 + h) ∧ b (p.1 + w) (p.2 + h) = color then Sum.inl (p.1 + w, p.2 + h) else Sum.inr (p.1 + w, p.2 + h))
    20 (x, y)).getD (x, y)

def straight (color : color_t) (x y : Int) (b : Int → Int → color_t) (dir : Int × Int) : Bool :=
  let (a, c) := stretch color b (-dir.1) (-dir.2) x y
  let (e, d) := stretch color b dir.1 dir.2 x y
  decide (5 < (e - a).natAbs ∨ 5 < (d - c).natAbs)

def check5row (color : color_t) (x y : Int) (s : Engine) : Engine × Bool :=
  let clearing := s.NeedClearing || [(1, 0), (0, 1), (1, 1), (1, -1)].any (straight color x y s.Board)
  ({ s with NeedClearing := clearing }, clearing)

def make_move (own : Bool) (x y : Int) (s : Engine) : Engine :=
  let one := if own then s.Mine else s.Your
  let s := { s with Backup := s.Board, Board := put s.Board x y one.color }
  if s.playing then
    let (s, captured) := capture own x y { s with LastX := x, LastY := y }
    let (s, row) := check5row one.color x y s
    -- `game_over()`
    { s with playing := s.playing && !(captured || row) }
  else s

def do_undo (s : Engine) : Option Engine :=
  if s.LastX < 0 ∨ s.LastY < 0 then none else some { s with Board := s.Backup, LastX := -1 }

def Board_get (b : Int → Int → color_t) (x y : Int) : Option color_t := if inside x y then some (b x y) else none

def Board_set (b : Int → Int → color_t) (x y : Int) (c : color_t) : Option (Int → Int → color_t) :=
  if inside x y then some (put b x y c) else none

def capture_turn (own other : color_t) (x y : Int) (s : (Int → Int → color_t) × Nat) (dir : Int × Int) :
    Option ((Int → Int → color_t) × Nat) :=
  if ¬ inside (x - 3 * dir.1) (y - 3 * dir.2) then some s else do
    let far ← Board_get s.1 (x - 3 * dir.1) (y - 3 * dir.2)
    if far ≠ own then some s else do
      let next ← Board_get s.1 (x - 2 * dir.1) (y - 2 * dir.2)
      if next ≠ other then some s else do
        let near ← Board_get s.1 (x - dir.1) (y - dir.2)
        if near ≠ other then some s else do
          let b ← Board_set s.1 (x - dir.1) (y - dir.2) .EMPTY
          let b ← Board_set b (x - 2 * dir.1) (y - 2 * dir.2) .EMPTY
          some (b, s.2 + 1)

def capture_run (own : Bool) (x y : Int) (s : Engine) : Option (Engine × Bool) := do
  let test := if own then s.Mine else s.Your
  let other := if own then s.Your.color else s.Mine.color
  let (b, captures) ← capture_table.foldlM (capture_turn test.color other x y) (s.Board, test.captures)
  let test := { test with captures := captures }
  some ({ s with Board := b, Mine := if own then test else s.Mine, Your := if own then s.Your else test }, decide (4 < captures))

def mark_straight (x y : Int) (dir first last : Int × Int) : Option (List (Int × Int)) :=
  runLoop (fun s : (Int × Int) × List (Int × Int) =>
    let p := (s.1.1 + dir.1, s.1.2 + dir.2)
    if p = last then Sum.inr s.2 else Sum.inl (p, if p = (x, y) then s.2 else s.2 ++ [p]))
    40 (first, [])

def straight_turn (color : color_t) (x y : Int) (b : Int → Int → color_t) (s : Bool × List (Int × Int)) (dir : Int × Int) :
    Option (Bool × List (Int × Int)) :=
  if straight color x y b dir then
    (mark_straight x y dir (stretch color b (-dir.1) (-dir.2) x y) (stretch color b dir.1 dir.2 x y)).map
      fun marks => (true, s.2 ++ marks)
  else some s

def check5row_run (color : color_t) (x y : Int) (s : Engine) : Option ((Engine × Bool) × List (Int × Int)) :=
  ([(1, 0), (0, 1), (1, 1), (1, -1)].foldlM (straight_turn color x y s.Board) (s.NeedClearing, [])).map
    fun r => (({ s with NeedClearing := r.1 }, r.1), r.2)

def old_mark (b : Int → Int → color_t) (s : Engine) : Option color_t :=
  if 0 ≤ s.LastX then Board_get b s.LastX s.LastY else some .EMPTY

def make_move_run (own : Bool) (x y : Int) (s : Engine) : Option (Engine × List (Int × Int)) := do
  let one := if own then s.Mine else s.Your
  let b ← Board_set s.Board x y one.color
  let s := { s with Backup := s.Board, Board := b }
  if s.playing then do
    let _ ← old_mark b s
    let (s, captured) ← capture_run own x y { s with LastX := x, LastY := y }
    let ((s, row), marks) ← check5row_run one.color x y s
    some ({ s with playing := s.playing && !(captured || row) }, marks)
  else some (s, [])

def Engine.player (s : Engine) (mine : Bool) : Player := if mine then s.Mine else s.Your

structure Direction (d : Int × Int) : Prop where
  fst : -1 ≤ d.1 ∧ d.1 ≤ 1
  snd : -1 ≤ d.2 ∧ d.2 ≤ 1
  ne : d.1 ≠ 0 ∨ d.2 ≠ 0

def Bracketed (own other : color_t) (b : Int → Int → color_t) (x y : Int) (d : Int × Int) : Prop :=
  inside (x + 3 * d.1) (y + 3 * d.2) ∧ b (x + 3 * d.1) (y + 3 * d.2) = own ∧
    b (x + 2 * d.1) (y + 2 * d.2) = other ∧ b (x + d.1) (y + d.2) = other

def pairCells (x y : Int) (d : Int × Int) : List (Int × Int) := [(x + d.1, y + d.2), (x + 2 * d.1, y + 2 * d.2)]

def Owned (color : color_t) (b : Int → Int → color_t) (u v : Int) : Prop := inside u v ∧ b u v = color

def Row (color : color_t) (b : Int → Int → color_t) (x y : Int) : Prop :=
  ∃ d, Direction d ∧ ∃ i j : Nat, 5 ≤ i + 1 + j ∧ ∀ k : Int, -i ≤ k → k ≤ j → Owned color b (x + k * d.1) (y + k * d.2)

theorem Direction.neg {d : Int × Int} (hd : Direction d) : Direction (-d.1, -d.2) := by
  obtain ⟨h1, h2, h3⟩ := hd
  exact ⟨by simp only; omega, by simp only; omega, by simp only; omega⟩

theorem capture_table_mem {d : Int × Int} : d ∈ capture_table ↔ Direction d := by
  obtain ⟨w, h⟩ := d
  constructor
  · intro hd
    simp only [capture_table, mem_cons, Prod.mk.injEq, not_mem_nil, or_false] at hd
    exact ⟨by simp only; omega, by simp only; omega, by simp only; omega⟩
  · rintro ⟨h1, h2, h3⟩
    simp only [capture_table, mem_cons, Prod.mk.injEq, not_mem_nil, or_false] at h1 h2 h3 ⊢
    omega

theorem inside_between {x y : Int} {d : Int × Int} (hxy : inside x y) (hd : Direction d) (hfar : inside (x + 3 * d.1) (y + 3 * d.2)) :
    inside (x + d.1) (y + d.2) ∧ inside (x + 2 * d.1) (y + 2 * d.2) := by
  obtain ⟨h1, h2, _⟩ := hd
  unfold inside BOARD_SIZE at *
  omega

theorem brackets_iff {own other : color_t} {x y : Int} {b : Int → Int → color_t} {d : Int × Int} :
    brackets own other x y b d ↔ Bracketed own other b x y (-d.1, -d.2) := by
  have h (k z w : Int) : z + k * -w = z - k * w := by rw [Int.mul_neg, Int.sub_eq_add_neg]
  simp only [brackets, Bracketed, h, ← Int.sub_eq_add_neg]

theorem Direction.steps_ne {d e : Int × Int} (hd : Direction d) (he : Direction e) (hne : d ≠ e) {i j : Int}
    (hi : i = 1 ∨ i = 2 ∨ i = 3) (hj : j = 1 ∨ j = 2) : ¬ (i * d.1 = j * e.1 ∧ i * d.2 = j * e.2) := by
  obtain ⟨hd1, hd2, hd3⟩ := hd
  obtain ⟨he1, he2, he3⟩ := he
  rw [Ne, Prod.ext_iff] at hne
  rcases hi with rfl | rfl | rfl <;> rcases hj with rfl | rfl <;> omega

def without (own other : color_t) (x y : Int) (b : Int → Int → color_t) (l : List (Int × Int)) : Int → Int → color_t :=
  l.foldl (fun b' d => if brackets own other x y b d then remove_piece (x - 2 * d.1) (y - 2 * d.2) (remove_piece (x - d.1) (y - d.2) b') else b') b

section Captures

variable {own other : color_t} {x y : Int} {b : Int → Int → color_t}

theorem without_append (l : List (Int × Int)) (d : Int × Int) : without own other x y b (l ++ [d]) =
    if brackets own other x y b d then remove_piece (x - 2 * d.1) (y - 2 * d.2) (remove_piece (x - d.1) (y - d.2) (without own other x y b l))
    else without own other x y b l := by
  rw [without, foldl_append]
  rfl

theorem without_cell (l : List (Int × Int)) (u v : Int) : without own other x y b l u v =
    if ∃ d ∈ l, brackets own other x y b d ∧ (u, v) ∈ pairCells x y (-d.1, -d.2) then .EMPTY else b u v := by
  induction l using List.reverseRecOn with
  | nil => simp [without]
  | append_singleton l d ih =>
    have hcell : (u, v) ∈ pairCells x y (-d.1, -d.2) ↔ u = x - d.1 ∧ v = y - d.2 ∨ u = x - 2 * d.1 ∧ v = y - 2 * d.2 := by
      simp only [pairCells, mem_cons, Prod.mk.injEq, not_mem_nil, or_false]
      omega
    have hsplit : (∃ e ∈ l ++ [d], brackets own other x y b e ∧ (u, v) ∈ pairCells x y (-e.1, -e.2)) ↔
        (∃ e ∈ l, brackets own other x y b e ∧ (u, v) ∈ pairCells x y (-e.1, -e.2)) ∨
          brackets own other x y b d ∧ (u, v) ∈ pairCells x y (-d.1, -d.2) := by
      simp only [mem_append, mem_singleton, or_and_right, exists_or, exists_eq_left]
    rw [without_append, if_congr hsplit rfl rfl]
    by_cases hb : brackets own other x y b d
    · rw [if_pos hb]
      unfold remove_piece put
      by_cases h2 : u = x - 2 * d.1 ∧ v = y - 2 * d.2
      · rw [if_pos h2, if_pos (.inr ⟨hb, hcell.mpr (.inr h2)⟩)]
      · rw [if_neg h2]
        by_cases h1 : u = x - d.1 ∧ v = y - d.2
        · rw [if_pos h1, if_pos (.inr ⟨hb, hcell.mpr (.inl h1)⟩)]
        · rw [if_neg h1, ih]
          have hno : ¬ (u, v) ∈ pairCells x y (-d.1, -d.2) := fun h => (hcell.mp h).elim h1 h2
          simp only [hno, and_false, or_false]
    · rw [if_neg hb, ih]
      simp only [hb, false_and, or_false]

theorem without_brackets {l : List (Int × Int)} (hl : ∀ e ∈ l, Direction e) {d : Int × Int} (hd : Direction d) (hnew : d ∉ l) :
    brackets own other x y (without own other x y b l) d ↔ brackets own other x y b d := by
  have hcell (i : Int) (hi : i = 1 ∨ i = 2 ∨ i = 3) :
      without own other x y b l (x - i * d.1) (y - i * d.2) = b (x - i * d.1) (y - i * d.2) := by
    rw [without_cell, if_neg]
    rintro ⟨e, he, -, hmem⟩
    have hne : d ≠ e := fun h => hnew (h ▸ he)
    simp only [pairCells, mem_cons, Prod.mk.injEq, not_mem_nil, or_false] at hmem
    rcases hmem with h | h
    · exact hd.steps_ne (hl e he) hne hi (.inl rfl) ⟨by omega, by omega⟩
    · exact hd.steps_ne (hl e he) hne hi (.inr rfl) ⟨by omega, by omega⟩
  have h1 := hcell 1 (.inl rfl)
  rw [Int.one_mul, Int.one_mul] at h1
  simp only [brackets, hcell 2 (.inr (.inl rfl)), hcell 3 (.inr (.inr rfl)), h1]

variable (own other b) in
theorem capture_turn_eq (hxy : inside x y) {l : List (Int × Int)} (hl : ∀ e ∈ l, Direction e) {d : Int × Int}
    (hd : Direction d) (hnew : d ∉ l) (n : Nat) : capture_turn own other x y (without own other x y b l, n) d =
        some (without own other x y b (l ++ [d]), n + if brackets own other x y b d then 1 else 0) ∧
      capture_dir own other x y (without own other x y b l, n) d =
        (without own other x y b (l ++ [d]), n + if brackets own other x y b d then 1 else 0) := by
  have hb : brackets own other x y (without own other x y b l) d ↔ brackets own other x y b d := without_brackets hl hd hnew
  have hdir : capture_dir own other x y (without own other x y b l, n) d =
      (without own other x y b (l ++ [d]), n + if brackets own other x y b d then 1 else 0) := by
    unfold capture_dir
    rw [if_congr hb rfl rfl, without_append]
    by_cases h : brackets own other x y b d
    · simp only [if_pos h]
    · simp only [if_neg h, Nat.add_zero]
  refine ⟨?_, hdir⟩
  rw [← hdir]
  unfold capture_turn capture_dir
  by_cases hfar : inside (x - 3 * d.1) (y - 3 * d.2)
  · obtain ⟨h1, h2⟩ := inside_between hxy hd.neg (show inside (x + 3 * -d.1) (y + 3 * -d.2) by
      rwa [Int.mul_neg, Int.mul_neg, ← Int.sub_eq_add_neg, ← Int.sub_eq_add_neg])
    rw [Int.mul_neg, Int.mul_neg, ← Int.sub_eq_add_neg, ← Int.sub_eq_add_neg] at h2
    rw [← Int.sub_eq_add_neg, ← Int.sub_eq_add_neg] at h1
    simp only [hfar, h1, h2, Board_get, Board_set, brackets, remove_piece, if_true, not_true, if_false, true_and,
      Option.bind_eq_bind, Option.bind_some]
    split_ifs <;> simp_all
  · rw [if_pos hfar, if_neg (fun h => hfar h.1)]

variable (own other b) in
theorem capture_fold (hxy : inside x y) (n : Nat) {l r : List (Int × Int)} (hl : ∀ e ∈ l ++ r, Direction e) (hn : (l ++ r).Nodup) :
    ∃ m, r.foldlM (capture_turn own other x y) (without own other x y b l, n) = some (without own other x y b (l ++ r), n + m) ∧
      r.foldl (capture_dir own other x y) (without own other x y b l, n) = (without own other x y b (l ++ r), n + m) ∧
      m = (r.filter fun d => brackets own other x y b d).length := by
  induction r generalizing l n with
  | nil => exact ⟨0, by simp [List.foldlM], by simp, rfl⟩
  | cons d r ih =>
    have hnew : d ∉ l := fun h => (nodup_append.mp hn).2.2 d h d (by simp) rfl
    obtain ⟨hturn, hdir⟩ := capture_turn_eq own other b hxy
      (fun e he => hl e (mem_append_left _ he)) (hl d (by simp)) hnew n
    obtain ⟨m, hm, hm', hlen⟩ := ih (n + if brackets own other x y b d then 1 else 0) (l := l ++ [d])
      (by simpa using hl) (by simpa using hn)
    refine ⟨(if brackets own other x y b d then 1 else 0) + m, ?_, ?_, ?_⟩
    · rw [foldlM_cons, hturn, ← Nat.add_assoc]
      simpa using hm
    · rw [foldl_cons, hdir, ← Nat.add_assoc]
      simpa using hm'
    · rw [hlen, filter_cons]
      by_cases h : brackets own other x y b d
      · simp [h, Nat.add_comm]
      · simp [h]

end Captures

section Straights

variable {color : color_t} {x y : Int} {b : Int → Int → color_t} {d : Int × Int}

theorem Direction.reach (hd : Direction d) (hxy : inside x y) {k : Int} (hk : inside (x + k * d.1) (y + k * d.2)) : -18 ≤ k ∧ k ≤ 18 := by
  obtain ⟨w, h⟩ := d
  obtain ⟨h1, h2, h3⟩ := hd
  simp only at h1 h2 h3 hk
  unfold inside BOARD_SIZE at hxy hk
  have hw : w = -1 ∨ w = 0 ∨ w = 1 := by omega
  have hh : h = -1 ∨ h = 0 ∨ h = 1 := by omega
  rcases hw with rfl | rfl | rfl <;> rcases hh with rfl | rfl | rfl <;> omega

variable (color b) in
theorem stretch_loop (hxy : inside x y) (hd : Direction d) {n k : Nat} (hfuel : 20 ≤ k + n)
    (hown : ∀ j : Int, 1 ≤ j → j ≤ k → Owned color b (x + j * d.1) (y + j * d.2)) :
    ∃ m : Nat, runLoop (fun p : Int × Int =>
        if inside (p.1 + d.1) (p.2 + d.2) ∧ b (p.1 + d.1) (p.2 + d.2) = color then Sum.inl (p.1 + d.1, p.2 + d.2)
        else Sum.inr (p.1 + d.1, p.2 + d.2)) n (x + k * d.1, y + k * d.2) = some (x + (m + 1) * d.1, y + (m + 1) * d.2) ∧
      (∀ j : Int, 1 ≤ j → j ≤ m → Owned color b (x + j * d.1) (y + j * d.2)) ∧
      ¬ Owned color b (x + (m + 1) * d.1) (y + (m + 1) * d.2) := by
  induction n generalizing k with
  | zero =>
    have := (hd.reach hxy (hown 19 (by omega) (by omega)).1).2
    omega
  | succ n ih =>
    have hx : x + k * d.1 + d.1 = x + (k + 1) * d.1 := by rw [Int.add_mul, Int.one_mul, Int.add_assoc]
    have hy : y + k * d.2 + d.2 = y + (k + 1) * d.2 := by rw [Int.add_mul, Int.one_mul, Int.add_assoc]
    unfold runLoop
    simp only [hx, hy]
    by_cases hnext : Owned color b (x + (k + 1) * d.1) (y + (k + 1) * d.2)
    · rw [if_pos (show inside _ _ ∧ _ = color from hnext)]
      refine ih (k := k + 1) (by omega) fun j hj hjk => ?_
      by_cases hlast : j = k + 1
      · exact hlast ▸ hnext
      · exact hown j hj (by omega)
    · rw [if_neg (show ¬ (inside _ _ ∧ _ = color) from hnext)]
      exact ⟨k, rfl, hown, hnext⟩

variable (color b) in
theorem stretch_eq (hxy : inside x y) (hd : Direction d) :
    ∃ m : Nat, stretch color b d.1 d.2 x y = (x + (m + 1) * d.1, y + (m + 1) * d.2) ∧
      (∀ j : Int, 1 ≤ j → j ≤ m → Owned color b (x + j * d.1) (y + j * d.2)) ∧
      ¬ Owned color b (x + (m + 1) * d.1) (y + (m + 1) * d.2) := by
  obtain ⟨m, hm, hrest⟩ := stretch_loop color b (n := 20) (k := 0) hxy hd (by omega) (by omega)
  refine ⟨m, ?_, hrest⟩
  rw [stretch, show (x, y) = (x + (0 : Nat) * d.1, y + (0 : Nat) * d.2) by simp, hm, Option.getD_some]

theorem line_ends (hxy : Owned color b x y) (hd : Direction d) :
    ∃ n m : Nat, stretch color b (-d.1) (-d.2) x y = (x - (n + 1) * d.1, y - (n + 1) * d.2) ∧
      stretch color b d.1 d.2 x y = (x + (m + 1) * d.1, y + (m + 1) * d.2) ∧
      (∀ k : Int, -n ≤ k → k ≤ m → Owned color b (x + k * d.1) (y + k * d.2)) ∧
      ¬ Owned color b (x + -(n + 1) * d.1) (y + -(n + 1) * d.2) ∧ ¬ Owned color b (x + (m + 1) * d.1) (y + (m + 1) * d.2) := by
  obtain ⟨n, hn, hback, hstart⟩ := stretch_eq color b hxy.1 hd.neg
  obtain ⟨m, hm, hfront, hend⟩ := stretch_eq color b hxy.1 hd
  simp only [Int.mul_neg, ← Int.neg_mul] at hn hback hstart
  refine ⟨n, m, ?_, hm, ?_, hstart, hend⟩
  · rw [hn, Int.neg_mul, Int.neg_mul, ← Int.sub_eq_add_neg, ← Int.sub_eq_add_neg]
  · intro k hk hkm
    rcases Int.lt_trichotomy k 0 with h | rfl | h
    · simpa using hback (-k) (by omega) (by omega)
    · simpa using hxy
    · exact hfront k (by omega) hkm

theorem straight_iff (hxy : Owned color b x y) (hd : Direction d) : straight color x y b d = true ↔
    ∃ i j : Nat, 5 ≤ i + 1 + j ∧ ∀ k : Int, -i ≤ k → k ≤ j → Owned color b (x + k * d.1) (y + k * d.2) := by
  obtain ⟨n, m, hback, hfront, hline, hstart, hend⟩ := line_ends hxy hd
  have hlong : straight color x y b d = true ↔ 5 ≤ n + 1 + m := by
    obtain ⟨w, h⟩ := d
    obtain ⟨h1, h2, h3⟩ := hd
    simp only at h1 h2 h3 hback hfront
    simp only [straight, hback, hfront, decide_eq_true_eq]
    have hw : w = -1 ∨ w = 0 ∨ w = 1 := by omega
    have hh : h = -1 ∨ h = 0 ∨ h = 1 := by omega
    rcases hw with rfl | rfl | rfl <;> rcases hh with rfl | rfl | rfl <;> omega
  rw [hlong]
  constructor
  · exact fun h => ⟨n, m, h, hline⟩
  · rintro ⟨i, j, hij, hall⟩
    have hi : i ≤ n := by
      by_contra hlt
      exact hstart (hall (-(n + 1)) (by omega) (by omega))
    have hj : j ≤ m := by
      by_contra hlt
      exact hend (hall (m + 1) (by omega) (by omega))
    omega

theorem straight_any (hxy : Owned color b x y) :
    [(1, 0), (0, 1), (1, 1), (1, -1)].any (straight color x y b) = true ↔ Row color b x y := by
  have hfour : ∀ d ∈ [((1 : Int), (0 : Int)), (0, 1), (1, 1), (1, -1)], Direction d := by
    intro d hd
    refine capture_table_mem.mp ?_
    revert d
    decide
  rw [any_eq_true]
  constructor
  · rintro ⟨d, hd, hs⟩
    exact ⟨d, hfour d hd, (straight_iff hxy (hfour d hd)).mp hs⟩
  · rintro ⟨d, hd, i, j, hij, hall⟩
    have hcase : d ∈ [((1 : Int), (0 : Int)), (0, 1), (1, 1), (1, -1)] ∨ (-d.1, -d.2) ∈ [((1 : Int), (0 : Int)), (0, 1), (1, 1), (1, -1)] := by
      obtain ⟨w, h⟩ := d
      have hmem := capture_table_mem.mpr hd
      simp only [capture_table, mem_cons, Prod.mk.injEq, not_mem_nil, or_false] at hmem
      rcases hmem with ⟨rfl, rfl⟩ | ⟨rfl, rfl⟩ | ⟨rfl, rfl⟩ | ⟨rfl, rfl⟩ | ⟨rfl, rfl⟩ | ⟨rfl, rfl⟩ | ⟨rfl, rfl⟩ | ⟨rfl, rfl⟩ <;>
        decide
    rcases hcase with hmem | hmem
    · exact ⟨d, hmem, (straight_iff hxy hd).mpr ⟨i, j, hij, hall⟩⟩
    · refine ⟨_, hmem, (straight_iff hxy hd.neg).mpr ⟨j, i, by omega, fun k hk hki => ?_⟩⟩
      simpa only [Int.mul_neg, Int.neg_mul] using hall (-k) (by omega) (by omega)

theorem mark_loop (hd : Direction d) {n m : Nat} (hline : ∀ k : Int, -n ≤ k → k ≤ m → Owned color b (x + k * d.1) (y + k * d.2))
    (fuel : Nat) (k : Int) (marks : List (Int × Int)) (hlo : -(n + 1) ≤ k) (hhi : k ≤ m) (hfuel : m + 1 - k ≤ fuel)
    (hmarks : ∀ p ∈ marks, Owned color b p.1 p.2) :
    ∃ r, runLoop (fun s : (Int × Int) × List (Int × Int) =>
        let p := (s.1.1 + d.1, s.1.2 + d.2)
        if p = (x + (m + 1) * d.1, y + (m + 1) * d.2) then Sum.inr s.2 else Sum.inl (p, if p = (x, y) then s.2 else s.2 ++ [p]))
        fuel ((x + k * d.1, y + k * d.2), marks) = some r ∧ ∀ p ∈ r, Owned color b p.1 p.2 := by
  induction fuel generalizing k marks with
  | zero => omega
  | succ fuel ih =>
    have hx : x + k * d.1 + d.1 = x + (k + 1) * d.1 := by rw [Int.add_mul, Int.one_mul, Int.add_assoc]
    have hy : y + k * d.2 + d.2 = y + (k + 1) * d.2 := by rw [Int.add_mul, Int.one_mul, Int.add_assoc]
    have hsame : (x + (k + 1) * d.1, y + (k + 1) * d.2) = (x + (m + 1) * d.1, y + (m + 1) * d.2) ↔ k = m := by
      simp only [Prod.mk.injEq, Int.add_right_inj]
      constructor
      · rintro ⟨h1, h2⟩
        rcases hd.ne with hne | hne
        · have := Int.eq_of_mul_eq_mul_right hne h1
          omega
        · have := Int.eq_of_mul_eq_mul_right hne h2
          omega
      · rintro rfl
        exact ⟨rfl, rfl⟩
    unfold runLoop
    simp only [hx, hy]
    rw [if_congr hsame rfl rfl]
    by_cases hend : k = m
    · rw [if_pos hend]
      exact ⟨marks, rfl, hmarks⟩
    · rw [if_neg hend]
      refine ih _ _ (by omega) (by omega) (by omega) fun p hp => ?_
      have hp' : p ∈ marks ∨ p = (x + (k + 1) * d.1, y + (k + 1) * d.2) := by
        split_ifs at hp with h
        · exact .inl hp
        · simpa using hp
      rcases hp' with hp | rfl
      · exact hmarks p hp
      · exact hline (k + 1) (by omega) (by omega)

theorem straight_turn_eq (hxy : Owned color b x y) (hd : Direction d) (s : Bool × List (Int × Int))
    (hs : ∀ p ∈ s.2, Owned color b p.1 p.2) :
    ∃ marks, straight_turn color x y b s d = some (s.1 || straight color x y b d, marks) ∧ ∀ p ∈ marks, Owned color b p.1 p.2 := by
  unfold straight_turn
  by_cases h : straight color x y b d = true
  · obtain ⟨n, m, hback, hfront, hline, -, -⟩ := line_ends hxy hd
    have hn := (hd.reach hxy.1 (hline (-n) (by omega) (by omega)).1).1
    have hm := (hd.reach hxy.1 (hline m (by omega) (by omega)).1).2
    obtain ⟨r, hr, hown⟩ := mark_loop hd hline 40 (-(n + 1)) [] (by omega) (by omega) (by omega) (by simp)
    rw [Int.neg_mul, Int.neg_mul, ← Int.sub_eq_add_neg, ← Int.sub_eq_add_neg] at hr
    refine ⟨s.2 ++ r, ?_, ?_⟩
    · rw [if_pos h, h, hback, hfront, mark_straight, hr, Bool.or_true]
      rfl
    · intro p hp
      exact (mem_append.mp hp).elim (hs p) (hown p)
  · refine ⟨s.2, ?_, hs⟩
    rw [if_neg h, Bool.eq_false_iff.mpr h, Bool.or_false]

theorem straight_fold (hxy : Owned color b x y) {l : List (Int × Int)} (hl : ∀ d ∈ l, Direction d) (s : Bool × List (Int × Int))
    (hs : ∀ p ∈ s.2, Owned color b p.1 p.2) :
    ∃ marks, l.foldlM (straight_turn color x y b) s = some (s.1 || l.any (straight color x y b), marks) ∧
      ∀ p ∈ marks, Owned color b p.1 p.2 := by
  induction l generalizing s with
  | nil => exact ⟨s.2, by simp [List.foldlM], hs⟩
  | cons d l ih =>
    obtain ⟨marks, hturn, hmarks⟩ := straight_turn_eq hxy (hl d (by simp)) s hs
    obtain ⟨r, hr, hown⟩ := ih (fun e he => hl e (by simp [he])) (s.1 || straight color x y b d, marks) hmarks
    refine ⟨r, ?_, hown⟩
    rw [foldlM_cons, hturn, any_cons, ← Bool.or_assoc]
    exact hr

end Straights

theorem capture_run_eq (own : Bool) {x y : Int} (hxy : inside x y) (s : Engine) :
    capture_run own x y s = some (capture own x y s) ∧
      (capture own x y s).1.Board = without (s.player own).color (s.player !own).color x y s.Board capture_table ∧
      ((capture own x y s).1.player own).captures = (s.player own).captures +
        (capture_table.filter fun d => brackets (s.player own).color (s.player !own).color x y s.Board d).length := by
  obtain ⟨m, hrun, hfold, hm⟩ := capture_fold (s.player own).color (s.player !own).color s.Board
    hxy (s.player own).captures (l := []) (r := capture_table) (fun d hd => capture_table_mem.mp hd) (by decide)
  have hstart : without (s.player own).color (s.player !own).color x y s.Board [] = s.Board := rfl
  rw [hstart, nil_append] at hrun hfold
  rw [← hm]
  cases own
  · simp only [Engine.player, Bool.not_false, if_true, Bool.false_eq_true, if_false] at hrun hfold ⊢
    simp only [capture_run, capture, hrun, hfold, Bool.false_eq_true, if_false]
    exact ⟨rfl, trivial, trivial⟩
  · simp only [Engine.player, Bool.not_true, if_true, Bool.false_eq_true, if_false] at hrun hfold ⊢
    simp only [capture_run, capture, hrun, hfold, if_true]
    exact ⟨rfl, trivial, trivial⟩

theorem capture_keeps (own : Bool) (x y : Int) (s : Engine) :
    (capture own x y s).1.player (!own) = s.player (!own) ∧ ((capture own x y s).1.player own).color = (s.player own).color ∧
      (capture own x y s).1.playing = s.playing ∧ (capture own x y s).1.NeedClearing = s.NeedClearing ∧
      (capture own x y s).1.LastX = s.LastX ∧ (capture own x y s).1.LastY = s.LastY ∧
      (capture own x y s).2 = decide (4 < ((capture own x y s).1.player own).captures) := by
  cases own
  · exact ⟨rfl, rfl, rfl, rfl, rfl, rfl, rfl⟩
  · exact ⟨rfl, rfl, rfl, rfl, rfl, rfl, rfl⟩

theorem check5row_run_eq {color : color_t} {x y : Int} (s : Engine) (hxy : Owned color s.Board x y) :
    ∃ marks, check5row_run color x y s = some (check5row color x y s, marks) ∧ ∀ p ∈ marks, Owned color s.Board p.1 p.2 := by
  have hfour : ∀ d ∈ [((1 : Int), (0 : Int)), (0, 1), (1, 1), (1, -1)], Direction d := by
    intro d hd
    refine capture_table_mem.mp ?_
    revert d
    decide
  obtain ⟨marks, hrun, hown⟩ := straight_fold hxy hfour (s.NeedClearing, []) (by simp)
  exact ⟨marks, by rw [check5row_run, hrun]; rfl, hown⟩

theorem without_point {own other : color_t} {x y : Int} {b : Int → Int → color_t} :
    without own other x y b capture_table x y = b x y := by
  rw [without_cell, if_neg]
  rintro ⟨d, hd, -, hmem⟩
  obtain ⟨-, -, hne⟩ := capture_table_mem.mp hd
  simp only [pairCells, mem_cons, Prod.mk.injEq, not_mem_nil, or_false] at hmem
  omega

theorem Bracketed.put {own other : color_t} {x y : Int} {b : Int → Int → color_t} {c : color_t} {d : Int × Int} (hd : Direction d) :
    Bracketed own other (Pente.put b x y c) x y d ↔ Bracketed own other b x y d := by
  have hcell (i : Int) (hi : i = 1 ∨ i = 2 ∨ i = 3) : Pente.put b x y c (x + i * d.1) (y + i * d.2) = b (x + i * d.1) (y + i * d.2) := by
    unfold Pente.put
    rw [if_neg]
    rintro ⟨h1, h2⟩
    have := hd.ne
    rcases hi with rfl | rfl | rfl <;> omega
  have h1 := hcell 1 (.inl rfl)
  rw [Int.one_mul, Int.one_mul] at h1
  simp only [Bracketed, hcell 2 (.inr (.inl rfl)), hcell 3 (.inr (.inr rfl)), h1]

theorem old_mark_some {b : Int → Int → color_t} {s : Engine} (h : s.LastX < 0 ∨ inside s.LastX s.LastY) :
    ∃ old, old_mark b s = some old := by
  unfold old_mark Board_get
  by_cases h0 : 0 ≤ s.LastX
  · exact ⟨_, by rw [if_pos h0, if_pos (h.resolve_left (by omega))]⟩
  · exact ⟨_, if_neg h0⟩

def takes (own : Bool) (x y : Int) (s : Engine) : List (Int × Int) :=
  (capture_table.filter fun d => brackets (s.player own).color (s.player !own).color x y (put s.Board x y (s.player own).color) d).map
    fun d => (-d.1, -d.2)

theorem mem_takes {own : Bool} {x y : Int} {s : Engine} {d : Int × Int} :
    d ∈ takes own x y s ↔ Direction d ∧ Bracketed (s.player own).color (s.player !own).color s.Board x y d := by
  simp only [takes, mem_map, mem_filter, capture_table_mem, decide_eq_true_eq, brackets_iff]
  constructor
  · rintro ⟨e, ⟨he, hb⟩, rfl⟩
    exact ⟨he.neg, (Bracketed.put he.neg).mp hb⟩
  · rintro ⟨hd, hb⟩
    exact ⟨_, ⟨hd.neg, by simpa using (Bracketed.put hd).mpr hb⟩, by simp⟩

theorem takes_nodup (own : Bool) (x y : Int) (s : Engine) : (takes own x y s).Nodup := by
  refine List.Nodup.map (fun d e h => ?_) (List.Nodup.filter _ (by decide))
  simp only [Prod.mk.injEq, Int.neg_inj] at h
  exact Prod.ext h.1 h.2

/-- A move in a game that is played: the pairs that it takes, the captures that it counts and when it ends the game, with
every index on the board and the marks on the stones of a line. -/
theorem make_move_exact (own : Bool) (x y : Int) (s : Engine) (hxy : inside x y) (hplay : s.playing = true)
    (hclear : s.NeedClearing = false) (hlast : s.LastX < 0 ∨ inside s.LastX s.LastY) :
    ∃ marks, make_move_run own x y s = some (make_move own x y s, marks) ∧
      (∀ p ∈ marks, Owned (s.player own).color (make_move own x y s).Board p.1 p.2) ∧ (takes own x y s).Nodup ∧
      (∀ d, d ∈ takes own x y s ↔ Direction d ∧ Bracketed (s.player own).color (s.player !own).color s.Board x y d) ∧
      (∀ u v, (make_move own x y s).Board u v = if ∃ d ∈ takes own x y s, (u, v) ∈ pairCells x y d then .EMPTY
        else put s.Board x y (s.player own).color u v) ∧
      ((make_move own x y s).player own).captures = (s.player own).captures + (takes own x y s).length ∧
      (make_move own x y s).player (!own) = s.player (!own) ∧ ((make_move own x y s).playing = false ↔
        5 ≤ ((make_move own x y s).player own).captures ∨ Row (s.player own).color (make_move own x y s).Board x y) ∧
      ((make_move own x y s).playing = true → (make_move own x y s).NeedClearing = false) ∧
      inside (make_move own x y s).LastX (make_move own x y s).LastY := by
  -- the state in which the captures are looked for
  let s1 : Engine := { s with Backup := s.Board, Board := put s.Board x y (s.player own).color, LastX := x, LastY := y }
  obtain ⟨hcap, hboard, hcount⟩ := capture_run_eq own hxy s1
  obtain ⟨hother, hcolor, hplaying, hneed, hlx, hly, hover⟩ := capture_keeps own x y s1
  have hpoint : Owned (s.player own).color (capture own x y s1).1.Board x y := by
    refine ⟨hxy, ?_⟩
    rw [hboard, without_point]
    exact if_pos ⟨rfl, rfl⟩
  obtain ⟨marks, hcheck, hown⟩ := check5row_run_eq (capture own x y s1).1 hpoint
  have hmove : make_move own x y s = { (check5row (s.player own).color x y (capture own x y s1).1).1 with
      playing := (capture own x y s1).1.playing && !((capture own x y s1).2 || (check5row (s.player own).color x y (capture own x y s1).1).2) } := by
    rw [make_move]
    exact if_pos hplay
  have hrow : (check5row (s.player own).color x y (capture own x y s1).1).2 = true ↔
      Row (s.player own).color (capture own x y s1).1.Board x y := by
    change ((capture own x y s1).1.NeedClearing || _) = true ↔ _
    rw [hneed, show s1.NeedClearing = false from hclear, Bool.false_or]
    exact straight_any hpoint
  have hrun : make_move_run own x y s = some (make_move own x y s, marks) := by
    obtain ⟨old, hold⟩ := old_mark_some (b := put s.Board x y (s.player own).color)
      (s := { s with Backup := s.Board, Board := put s.Board x y (s.player own).color }) hlast
    rw [hmove]
    refine Option.bind_eq_some_iff.mpr ⟨put s.Board x y (s.player own).color, if_pos hxy, ?_⟩
    refine (if_pos hplay).trans (Option.bind_eq_some_iff.mpr ⟨old, hold, ?_⟩)
    refine Option.bind_eq_some_iff.mpr ⟨_, hcap, ?_⟩
    exact Option.bind_eq_some_iff.mpr ⟨_, hcheck, rfl⟩
  have hlen : (takes own x y s).length = (capture_table.filter fun d =>
      brackets (s1.player own).color (s1.player !own).color x y s1.Board d).length := by
    rw [takes, List.length_map]
    cases own <;> rfl
  refine ⟨marks, hrun, ?_, takes_nodup own x y s, fun d => mem_takes, ?_, ?_, ?_, ?_, ?_, ?_⟩
  · rw [hmove]
    exact hown
  · intro u v
    have hcells : (∃ d ∈ takes own x y s, (u, v) ∈ pairCells x y d) ↔ ∃ d ∈ capture_table,
        brackets (s1.player own).color (s1.player !own).color x y s1.Board d ∧ (u, v) ∈ pairCells x y (-d.1, -d.2) := by
      simp only [takes, List.mem_map, List.mem_filter, decide_eq_true_eq]
      constructor
      · rintro ⟨_, ⟨e, ⟨he, hb⟩, rfl⟩, hmem⟩
        exact ⟨e, he, by cases own <;> exact hb, hmem⟩
      · rintro ⟨e, he, hb, hmem⟩
        exact ⟨_, ⟨e, ⟨he, by cases own <;> exact hb⟩, rfl⟩, hmem⟩
    rw [hmove]
    change (capture own x y s1).1.Board u v = _
    rw [hboard, without_cell, if_congr hcells rfl rfl]
  · rw [hmove, hlen]
    cases own <;> exact hcount
  · rw [hmove]
    cases own <;> exact hother
  · have hcaptures : ((make_move own x y s).player own).captures = ((capture own x y s1).1.player own).captures := by
      rw [hmove]
      cases own <;> rfl
    have hend : (make_move own x y s).playing = !((capture own x y s1).2 || (check5row (s.player own).color x y (capture own x y s1).1).2) := by
      rw [hmove]
      change ((capture own x y s1).1.playing && _) = _
      rw [hplaying, show s1.playing = true from hplay, Bool.true_and]
    have hboards : (make_move own x y s).Board = (capture own x y s1).1.Board := by
      rw [hmove]
      rfl
    rw [hcaptures, hboards, ← hrow, hend, hover]
    simp only [Bool.not_eq_false', Bool.or_eq_true, decide_eq_true_eq]
    exact Iff.rfl
  · rw [hmove]
    simp only [Bool.and_eq_true, Bool.not_eq_true', Bool.or_eq_false_iff]
    exact fun h => h.2.2
  · rw [hmove]
    exact hxy

def pairEngine (playing : Bool) : Engine :=
  ⟨-1, 0, fun u v => if v ≠ 0 then .EMPTY else if u = 3 then .BLACK else if u = 1 ∨ u = 2 then .WHITE else .EMPTY, fun _ _ => .EMPTY,
    ⟨0, .BLACK⟩, ⟨0, .WHITE⟩, false, playing⟩

theorem make_move_exact_pair : ∃ marks, make_move_run true 0 0 (pairEngine true) = some (make_move true 0 0 (pairEngine true), marks) ∧
    ((make_move true 0 0 (pairEngine true)).player true).captures = 1 := by
  obtain ⟨marks, hrun, -, -, -, -, hcount, -⟩ := make_move_exact true 0 0 (pairEngine true) (by decide) rfl rfl (.inl (by decide))
  exact ⟨marks, hrun, hcount.trans (by decide)⟩

/-- While the board is set up a move only puts the stone. -/
theorem setup_takes_nothing : inside 0 0 ∧ (pairEngine false).Board 0 0 = .EMPTY ∧
    Bracketed .BLACK .WHITE (pairEngine false).Board 0 0 (1, 0) ∧ (make_move true 0 0 (pairEngine false)).Board 1 0 = .WHITE ∧
    ((make_move true 0 0 (pairEngine false)).player true).captures = 0 := by
  refine ⟨by decide, by decide, ⟨by decide, by decide, by decide, by decide⟩, by decide, by decide⟩

end WWindowSystem.Pente
