import WWindowSystem.Library.Loops

namespace WWindowSystem.Reversi

inductive color_t
  | EMPTY
  | BLACK
  | WHITE
  deriving DecidableEq, Repr

def BOARD_SIZE : Int := 8

abbrev Board := Int → Int → color_t

def Board.set (b : Board) (x y : Int) (c : color_t) : Board := fun u v => if u = x ∧ v = y then c else b u v

def inside (x y : Int) : Prop := 0 ≤ x ∧ 0 ≤ y ∧ x < BOARD_SIZE ∧ y < BOARD_SIZE

instance (x y : Int) : Decidable (inside x y) := inferInstanceAs (Decidable (_ ∧ _))

structure Player where
  color : color_t
  pieces : Int
  deriving DecidableEq

inductive player_t
  | Player0
  | Player1
  deriving DecidableEq

structure Engine where
  Board : Int → Int → color_t
  Backup : Int → Int → color_t
  Mine : Player
  Your : Player
  Passed : Bool

def set_side (player : player_t) (s : Engine) : Engine :=
  match player with
  | .Player0 => { s with Mine := { s.Mine with color := .WHITE }, Your := { s.Your with color := .BLACK } }
  | .Player1 => { s with Mine := { s.Mine with color := .BLACK }, Your := { s.Your with color := .WHITE } }

def start_board : Board :=
  let empty : Board := fun _ _ => .EMPTY
  Board.set (Board.set (Board.set (Board.set empty 3 3 .WHITE) 3 4 .BLACK) 4 3 .BLACK) 4 4 .WHITE

def initialize_game (s : Engine) : Engine :=
  { s with
    Board := start_board
    Mine := { s.Mine with pieces := 2 }
    Your := { s.Your with pieces := 2 }
    Passed := false }

def do_undo (s : Engine) : Engine := { s with Board := s.Backup, Passed := false }

def table : List (Int × Int) := [(-1, -1), (0, -1), (1, -1), (-1, 0), (1, 0), (-1, 1), (0, 1), (1, 1)]

def flipper_turn (plr color : color_t) (dir : Int × Int) (flip : Bool) :
    Int × Int × Nat × Board → (Int × Int × Nat × Board) ⊕ (Nat × Board)
  | (x, y, flips, b) =>
    let x := x + dir.1
    let y := y + dir.2
    if ¬ inside x y then .inr (0, b)
    else if b x y = color then .inl (x, y, flips + 1, if flip then Board.set b x y plr else b)
    else if flips ≠ 0 ∧ b x y = plr then .inr (flips, b)
    else .inr (0, b)

def flipper (x y : Int) (plr color : color_t) (dir : Int × Int) (flip : Bool) (b : Board) : Nat × Board :=
  (runLoop (flipper_turn plr color dir flip) 10 (x, y, 0, b)).getD (0, b)

def make_flips (x y : Int) (one two : color_t) (dir : Int × Int) (s : Board × Int) : Board × Int :=
  if (flipper x y one two dir false s.1).1 ≠ 0 then
    let (flips, b) := flipper x y one two dir true s.1
    (b, s.2 + flips)
  else s

def move_board (x y : Int) (one two : color_t) (b : Board) : Board × Int :=
  table.foldl (fun s dir => make_flips x y one two dir s) (Board.set b x y one, 0)

def make_move (own : Bool) (x y : Int) (s : Engine) : Engine :=
  let one := if own then s.Mine else s.Your
  let two := if own then s.Your else s.Mine
  let (b, turned) := move_board x y one.color two.color s.Board
  let one := { one with pieces := one.pieces + 1 + turned }
  let two := { two with pieces := two.pieces - turned }
  { s with
    Board := b
    Backup := s.Board
    Mine := if own then one else two
    Your := if own then two else one
    Passed := false }

def my_move (x y : Int) (s : Engine) : Bool :=
  decide (inside x y) && decide (s.Board x y = .EMPTY) &&
    table.any fun dir => (flipper x y s.Mine.color s.Your.color dir false s.Board).1 != 0

def BWIDTH : Nat := 8

def BHEIGHT : Nat := 8

def MAXLOOSE : Int := -32768

def OPPONENT : color_t → color_t
  | .EMPTY => .EMPTY
  | .WHITE => .BLACK
  | .BLACK => .WHITE

def Dirs : List (Int × Int) := [(1, 1), (1, 0), (1, -1), (0, 1), (0, -1), (-1, 1), (-1, 0), (-1, -1)]

/-- One turn of the loop that `best` and `flips` share: it stops at a stone of the color, or at nothing. -/
def scan_turn (b : Board) (color : color_t) (d : Int × Int) :
    Int × Int × Nat → (Int × Int × Nat) ⊕ Option (Int × Int × Nat)
  | (x, y, count) =>
    let x := x + d.1
    let y := y + d.2
    if ¬ inside x y then .inr none
    else if b x y = .EMPTY then .inr none
    else if b x y = color then .inr (some (x, y, count))
    else .inl (x, y, count + 1)

def scan (b : Board) (color : color_t) (d : Int × Int) (x y : Int) : Option (Int × Int × Nat) :=
  (runLoop (scan_turn b color d) 10 (x, y, 0)).join

def flip_back (color : color_t) (d : Int × Int) : Int → Int → Nat → Board → Board
  | _, _, 0, b => b
  | x, y, count + 1, b => flip_back color d (x - d.1) (y - d.2) count (Board.set b (x - d.1) (y - d.2) color)

def flips_dir (color : color_t) (mx my : Int) (s : Nat × Board) (d : Int × Int) : Nat × Board :=
  match scan s.2 color d mx my with
  | none => s
  | some (x, y, count) => (s.1 + count, flip_back color d x y count s.2)

def flips (b : Board) (color : color_t) (mx my : Int) : Nat × Option Board :=
  let (flipped, b) := Dirs.foldl (flips_dir color mx my) (0, b)
  if flipped ≠ 0 then (flipped, if inside mx my then some (Board.set b mx my color) else none) else (0, some b)

def best_first (b : Board) (color : color_t) (i j : Int) : List (Int × Int) → Option ((Int × Int × Nat) × (Int × Int) × List (Int × Int))
  | [] => none
  | d :: dirs =>
    match scan b color d i j with
    | some (x, y, count) => if count ≠ 0 then some ((x, y, count), d, dirs) else best_first b color i j dirs
    | none => best_first b color i j dirs

def best_dir (color : color_t) (i j : Int) (s : Nat × Board) (d : Int × Int) : Nat × Board :=
  match scan s.2 color d i j with
  | some (x, y, count) => if count ≠ 0 then (s.1 + count, flip_back color d x y count s.2) else s
  | none => s

def best_move (b : Board) (color : color_t) (i j : Int) : Option (Nat × Board) :=
  if b i j ≠ .EMPTY then none
  else
    (best_first b color i j Dirs).map fun r =>
      let ((x, y, count), d, dirs) := r
      dirs.foldl (best_dir color i j) (count, flip_back color d x y count (Board.set b i j color))

def side_bonus (SideBonus i j : Int) : Int :=
  (if i = 0 ∨ i = BWIDTH - 1 then SideBonus else 0) + (if j = 0 ∨ j = BHEIGHT - 1 then SideBonus else 0)

def places : List (Int × Int) :=
  (List.range BWIDTH).reverse.flatMap fun i => (List.range BHEIGHT).reverse.map fun (j : Nat) => (Int.ofNat i, Int.ofNat j)

def best (SideBonus : Int) : Nat → Board → color_t → Int × Int × Int
  | deeper, b, color =>
    places.foldl
      (fun s p =>
        match best_move b color p.1 p.2 with
        | none => s
        | some (new, tmp) =>
          let new := new + side_bonus SideBonus p.1 p.2
          let new :=
            match deeper with
            | 0 => new
            | deeper + 1 => new - (best SideBonus deeper tmp (OPPONENT color)).1
          if s.1 < new then (new, p.1, p.2) else s)
      (MAXLOOSE, 0, 0)

structure IsDir (d : Int × Int) : Prop where
  sign_x : d.1.sign = d.1
  sign_y : d.2.sign = d.2
  moves : d.1 ≠ 0 ∨ d.2 ≠ 0

theorem table_dir : ∀ d ∈ table, IsDir d := by
  intro d hd
  simp only [table, List.mem_cons, List.not_mem_nil, or_false] at hd
  rcases hd with rfl | rfl | rfl | rfl | rfl | rfl | rfl | rfl <;> exact ⟨by decide, by decide, by decide⟩

theorem table_perm : Dirs.Perm table := by decide

variable {b b' : Board} {me opp : color_t} {d d' : Int × Int} {x y u v : Int} {n m k : Nat}

def ray_x (d : Int × Int) (x : Int) (k : Nat) : Int := x + k * d.1

def ray_y (d : Int × Int) (y : Int) (k : Nat) : Int := y + k * d.2

@[simp] theorem ray_x_zero : ray_x d x 0 = x := by simp [ray_x]

@[simp] theorem ray_y_zero : ray_y d y 0 = y := by simp [ray_y]

theorem ray_x_succ : ray_x d x k + d.1 = ray_x d x (k + 1) := by
  simp only [ray_x]
  push_cast
  rw [Int.add_mul, Int.one_mul, Int.add_assoc]

theorem ray_y_succ : ray_y d y k + d.2 = ray_y d y (k + 1) := by
  simp only [ray_y]
  push_cast
  rw [Int.add_mul, Int.one_mul, Int.add_assoc]

theorem ray_inj (hd : IsDir d) (hd' : IsDir d') (hn : 0 < n) (hm : 0 < m) (hx : ray_x d x n = ray_x d' x m)
    (hy : ray_y d y n = ray_y d' y m) : d = d' ∧ n = m := by
  have hsn : ((n : Nat) : Int).sign = 1 := Int.sign_eq_one_of_pos (by omega)
  have hsm : ((m : Nat) : Int).sign = 1 := Int.sign_eq_one_of_pos (by omega)
  have hx' : (n : Int) * d.1 = m * d'.1 := by simp only [ray_x] at hx; omega
  have hy' : (n : Int) * d.2 = m * d'.2 := by simp only [ray_y] at hy; omega
  have h1 : d.1 = d'.1 := by
    have h := congrArg Int.sign hx'
    rwa [Int.sign_mul, Int.sign_mul, hsn, hsm, Int.one_mul, Int.one_mul, hd.sign_x, hd'.sign_x] at h
  have h2 : d.2 = d'.2 := by
    have h := congrArg Int.sign hy'
    rwa [Int.sign_mul, Int.sign_mul, hsn, hsm, Int.one_mul, Int.one_mul, hd.sign_y, hd'.sign_y] at h
  have hdd : d = d' := Prod.ext h1 h2
  subst hdd
  refine ⟨rfl, ?_⟩
  rcases hd.moves with h0 | h0
  · exact_mod_cast Int.eq_of_mul_eq_mul_right h0 hx'
  · exact_mod_cast Int.eq_of_mul_eq_mul_right h0 hy'

theorem ray_ne_start (hd : IsDir d) (hn : 0 < n) : ¬ (ray_x d x n = x ∧ ray_y d y n = y) := by
  rintro ⟨hx, hy⟩
  simp only [ray_x, ray_y] at hx hy
  rcases hd.moves with h0 | h0
  · exact h0 ((Int.mul_eq_zero.mp (by omega : (n : Int) * d.1 = 0)).resolve_left (by omega))
  · exact h0 ((Int.mul_eq_zero.mp (by omega : (n : Int) * d.2 = 0)).resolve_left (by omega))

def Held (b : Board) (c : color_t) (d : Int × Int) (x y : Int) (n : Nat) : Prop :=
  ∀ k, 0 < k → k ≤ n → inside (ray_x d x k) (ray_y d y k) ∧ b (ray_x d x k) (ray_y d y k) = c

structure Run (b : Board) (me : color_t) (d : Int × Int) (x y : Int) (n : Nat) : Prop where
  between : Held b (OPPONENT me) d x y n
  within : inside (ray_x d x (n + 1)) (ray_y d y (n + 1))
  own : b (ray_x d x (n + 1)) (ray_y d y (n + 1)) = me

theorem Held.zero : Held b me d x y 0 := fun _ h0 h1 => absurd h1 (by omega)

theorem Held.succ (h : Held b me d x y n) (hin : inside (ray_x d x (n + 1)) (ray_y d y (n + 1)))
    (hb : b (ray_x d x (n + 1)) (ray_y d y (n + 1)) = me) : Held b me d x y (n + 1) := by
  intro k h0 hk
  rcases Nat.lt_or_ge n k with hlt | hge
  · obtain rfl : k = n + 1 := by omega
    exact ⟨hin, hb⟩
  · exact h k h0 hge

theorem Held.length_le (hd : IsDir d) (h : Held b me d x y n) : n ≤ 8 := by
  by_contra hlt
  have hone := (h 1 (by omega) (by omega)).1
  have hlast := (h 9 (by omega) (by omega)).1
  simp only [inside, ray_x, ray_y, BOARD_SIZE] at hone hlast
  push_cast at hone hlast
  have hx := hd.sign_x
  have hy := hd.sign_y
  rcases hd.moves with h0 | h0 <;> omega

theorem opponent_ne (h : me ≠ .EMPTY) : OPPONENT me ≠ me := by
  cases me <;> simp_all [OPPONENT]

theorem opponent_stone (h : me ≠ .EMPTY) : OPPONENT me ≠ .EMPTY := by
  cases me <;> simp_all [OPPONENT]

theorem opponent_cases (h : me ≠ .EMPTY) (c : color_t) : c = .EMPTY ∨ c = me ∨ c = OPPONENT me := by
  cases me <;> cases c <;> simp_all [OPPONENT]

theorem Run.unique (hme : me ≠ .EMPTY) (h : Run b me d x y n) (h' : Run b me d x y m) : n = m := by
  have key : ∀ {n m : Nat}, Run b me d x y n → Run b me d x y m → ¬ n < m := by
    intro n m h h' hlt
    have hopp := (h'.between (n + 1) (by omega) (by omega)).2
    exact opponent_ne hme (hopp.symm.trans h.own)
  have h1 := key h h'
  have h2 := key h' h
  omega

theorem no_run (hme : me ≠ .EMPTY) (h : Held b (OPPONENT me) d x y n)
    (hend : ¬ inside (ray_x d x (n + 1)) (ray_y d y (n + 1)) ∨ b (ray_x d x (n + 1)) (ray_y d y (n + 1)) = .EMPTY) (m : Nat) :
    ¬ Run b me d x y m := by
  intro hr
  rcases Nat.lt_trichotomy m n with hlt | rfl | hgt
  · have hopp := (h (m + 1) (by omega) (by omega)).2
    exact opponent_ne hme (hopp.symm.trans hr.own)
  · rcases hend with hout | hempty
    · exact hout hr.within
    · exact hme (hr.own.symm.trans hempty)
  · have hmid := hr.between (n + 1) (by omega) (by omega)
    rcases hend with hout | hempty
    · exact hout hmid.1
    · exact opponent_stone hme (hmid.2.symm.trans hempty)

def Turned (b : Board) (me : color_t) (d : Int × Int) (x y u v : Int) : Prop :=
  ∃ n, Run b me d x y n ∧ ∃ k, 0 < k ∧ k ≤ n ∧ u = ray_x d x k ∧ v = ray_y d y k

structure Painted (b' b : Board) (me : color_t) (at_place : Int → Int → Prop) : Prop where
  on : ∀ u v, at_place u v → b' u v = me
  off : ∀ u v, ¬ at_place u v → b' u v = b u v

theorem Painted.eq {P : Int → Int → Prop} {b₁ b₂ : Board} (h₁ : Painted b₁ b me P) (h₂ : Painted b₂ b me P) : b₁ = b₂ := by
  funext u v
  by_cases h : P u v
  · rw [h₁.on u v h, h₂.on u v h]
  · rw [h₁.off u v h, h₂.off u v h]

variable {P Q : Int → Int → Prop}

theorem Painted.congr (h : Painted b' b me P) (hpq : ∀ u v, P u v ↔ Q u v) : Painted b' b me Q :=
  ⟨fun u v hq => h.on u v ((hpq u v).mpr hq), fun u v hq => h.off u v (fun hp => hq ((hpq u v).mp hp))⟩

theorem Painted.refl : Painted b b me (fun _ _ => False) := ⟨fun _ _ h => h.elim, fun _ _ _ => rfl⟩

theorem Painted.trans {b'' : Board} (h : Painted b' b me P) (h' : Painted b'' b' me Q) :
    Painted b'' b me (fun u v => P u v ∨ Q u v) := by
  constructor
  · intro u v hpq
    by_cases hq : Q u v
    · exact h'.on u v hq
    · rw [h'.off u v hq, h.on u v (hpq.resolve_right hq)]
  · intro u v hpq
    rw [h'.off u v (fun hq => hpq (.inr hq)), h.off u v (fun hp => hpq (.inl hp))]

theorem set_painted : Painted (Board.set b x y me) b me (fun u v => u = x ∧ v = y) :=
  ⟨fun _ _ h => if_pos h, fun _ _ h => if_neg h⟩

theorem Painted.run_iff {P : Int → Int → Prop} (h : Painted b' b me P)
    (hoff : ∀ k, 0 < k → ¬ P (ray_x d x k) (ray_y d y k)) (n : Nat) : Run b' me d x y n ↔ Run b me d x y n := by
  have hcell : ∀ k, 0 < k → b' (ray_x d x k) (ray_y d y k) = b (ray_x d x k) (ray_y d y k) :=
    fun k hk => h.off _ _ (hoff k hk)
  constructor
  · intro hr
    refine ⟨fun k h0 hk => ?_, hr.within, ?_⟩
    · rw [← hcell k h0]
      exact hr.between k h0 hk
    · rw [← hcell (n + 1) (by omega)]
      exact hr.own
  · intro hr
    refine ⟨fun k h0 hk => ?_, hr.within, ?_⟩
    · rw [hcell k h0]
      exact hr.between k h0 hk
    · rw [hcell (n + 1) (by omega)]
      exact hr.own

end WWindowSystem.Reversi

namespace WWindowSystem.Reversi

variable {b b' : Board} {me : color_t} {d d' : Int × Int} {x y u v : Int} {n m k : Nat}

def beam (d : Int × Int) (x y : Int) (n : Nat) (u v : Int) : Prop :=
  ∃ k, 0 < k ∧ k ≤ n ∧ u = ray_x d x k ∧ v = ray_y d y k

def Closes (b : Board) (me : color_t) (d : Int × Int) (x y : Int) : Prop := ∃ n, 0 < n ∧ Run b me d x y n

theorem beam_past (hd : IsDir d) (hk : n < k) : ¬ beam d x y n (ray_x d x k) (ray_y d y k) := by
  rintro ⟨j, h0, hj, hx, hy⟩
  have h := (ray_inj hd hd (by omega) h0 hx hy).2
  omega

theorem beam_succ : beam d x y n u v ∨ (u = ray_x d x (n + 1) ∧ v = ray_y d y (n + 1)) ↔ beam d x y (n + 1) u v := by
  constructor
  · rintro (⟨k, h0, hk, hu, hv⟩ | ⟨hu, hv⟩)
    · exact ⟨k, h0, by omega, hu, hv⟩
    · exact ⟨n + 1, by omega, le_refl _, hu, hv⟩
  · rintro ⟨k, h0, hk, hu, hv⟩
    rcases Nat.lt_or_ge n k with hlt | hge
    · obtain rfl : k = n + 1 := by omega
      exact .inr ⟨hu, hv⟩
    · exact .inl ⟨k, h0, hge, hu, hv⟩

theorem turned_iff (hme : me ≠ .EMPTY) (h : Run b me d x y n) : Turned b me d x y u v ↔ beam d x y n u v := by
  constructor
  · rintro ⟨m, hm, k, hk⟩
    rw [← hm.unique hme h]
    exact ⟨k, hk⟩
  · rintro ⟨k, hk⟩
    exact ⟨n, h, k, hk⟩

theorem turned_closes (h : Turned b me d x y u v) : Closes b me d x y := by
  obtain ⟨n, hn, k, h0, hk, -⟩ := h
  exact ⟨n, by omega, hn⟩

def ScanOk (b : Board) (me : color_t) (d : Int × Int) (x y : Int) : Option (Int × Int × Nat) → Prop
  | none => ∀ n, ¬ Run b me d x y n
  | some (u, v, n) => Run b me d x y n ∧ u = ray_x d x (n + 1) ∧ v = ray_y d y (n + 1)

def ScanAt (b : Board) (me : color_t) (d : Int × Int) (x y : Int) (s : Int × Int × Nat) : Prop :=
  s.1 = ray_x d x s.2.2 ∧ s.2.1 = ray_y d y s.2.2 ∧ Held b (OPPONENT me) d x y s.2.2

theorem scan_next (hme : me ≠ .EMPTY) (hd : IsDir d) (s s' : Int × Int × Nat) (h : ScanAt b me d x y s)
    (hb : scan_turn b me d s = .inl s') : ScanAt b me d x y s' ∧ 9 - s'.2.2 < 9 - s.2.2 := by
  obtain ⟨u, v, k⟩ := s
  obtain ⟨hu, hv, hheld⟩ := h
  dsimp only at hu hv hheld
  subst hu hv
  simp only [scan_turn, ray_x_succ, ray_y_succ] at hb
  by_cases hin : inside (ray_x d x (k + 1)) (ray_y d y (k + 1))
  · rw [if_neg (not_not.mpr hin)] at hb
    rcases opponent_cases hme (b (ray_x d x (k + 1)) (ray_y d y (k + 1))) with hc | hc | hc
    · rw [if_pos hc] at hb
      cases hb
    · rw [if_neg (by rw [hc]; exact hme), if_pos hc] at hb
      cases hb
    · rw [if_neg (by rw [hc]; exact opponent_stone hme), if_neg (by rw [hc]; exact opponent_ne hme)] at hb
      cases hb
      have hnext := hheld.succ hin hc
      have hlen := hnext.length_le hd
      exact ⟨⟨rfl, rfl, hnext⟩, by dsimp only; omega⟩
  · rw [if_pos hin] at hb
    cases hb

theorem scan_end (hme : me ≠ .EMPTY) (s : Int × Int × Nat) (r : Option (Int × Int × Nat)) (h : ScanAt b me d x y s)
    (hb : scan_turn b me d s = .inr r) : ScanOk b me d x y r := by
  obtain ⟨u, v, k⟩ := s
  obtain ⟨hu, hv, hheld⟩ := h
  dsimp only at hu hv hheld
  subst hu hv
  simp only [scan_turn, ray_x_succ, ray_y_succ] at hb
  by_cases hin : inside (ray_x d x (k + 1)) (ray_y d y (k + 1))
  · rw [if_neg (not_not.mpr hin)] at hb
    rcases opponent_cases hme (b (ray_x d x (k + 1)) (ray_y d y (k + 1))) with hc | hc | hc
    · rw [if_pos hc] at hb
      cases hb
      exact no_run hme hheld (.inr hc)
    · rw [if_neg (by rw [hc]; exact hme), if_pos hc] at hb
      cases hb
      exact ⟨⟨hheld, hin, hc⟩, rfl, rfl⟩
    · rw [if_neg (by rw [hc]; exact opponent_stone hme), if_neg (by rw [hc]; exact opponent_ne hme)] at hb
      cases hb
  · rw [if_pos hin] at hb
    cases hb
    exact no_run hme hheld (.inl hin)

theorem scan_ok (hme : me ≠ .EMPTY) (hd : IsDir d) : ScanOk b me d x y (scan b me d x y) := by
  have hstart : ScanAt b me d x y (x, y, 0) := ⟨by simp, by simp, .zero⟩
  obtain ⟨r, hr, hok⟩ := runLoop_spec (ScanAt b me d x y) (fun s => 9 - s.2.2) (ScanOk b me d x y) (scan_next hme hd) (scan_end hme)
    (n := 10) hstart (by dsimp only; omega)
  rw [scan, hr]
  exact hok

theorem flip_back_painted (n : Nat) (b : Board) :
    Painted (flip_back me d (ray_x d x (n + 1)) (ray_y d y (n + 1)) n b) b me (beam d x y n) := by
  induction n generalizing b with
  | zero => exact Painted.refl.congr fun u v => ⟨False.elim, fun ⟨k, h0, hk, _⟩ => by omega⟩
  | succ n ih =>
    rw [flip_back, ← ray_x_succ, ← ray_y_succ, Int.add_sub_cancel, Int.add_sub_cancel]
    apply (set_painted.trans (ih _)).congr
    intro u v
    rw [or_comm]
    exact beam_succ

def FlippedTo (flip : Bool) (b' b : Board) (me : color_t) (d : Int × Int) (x y : Int) (n : Nat) : Prop :=
  if flip then Painted b' b me (beam d x y n) else b' = b

variable {flip : Bool}

theorem FlippedTo.zero : FlippedTo flip b b me d x y 0 := by
  unfold FlippedTo
  split
  · exact Painted.refl.congr fun u v => ⟨False.elim, fun ⟨k, h0, hk, _⟩ => by omega⟩
  · rfl

theorem FlippedTo.next (hd : IsDir d) (h : FlippedTo flip b' b me d x y n) :
    b' (ray_x d x (n + 1)) (ray_y d y (n + 1)) = b (ray_x d x (n + 1)) (ray_y d y (n + 1)) := by
  unfold FlippedTo at h
  split at h
  · exact h.off _ _ (beam_past hd (by omega))
  · rw [h]

theorem FlippedTo.succ (h : FlippedTo flip b' b me d x y n) :
    FlippedTo flip (if flip then Board.set b' (ray_x d x (n + 1)) (ray_y d y (n + 1)) me else b') b me d x y (n + 1) := by
  cases flip with
  | false => exact h
  | true => exact (Painted.trans h set_painted).congr fun u v => beam_succ

def FlipperOk (b : Board) (me : color_t) (d : Int × Int) (x y : Int) (flip : Bool) (r : Nat × Board) : Prop :=
  (r.1 = 0 ∧ ¬ Closes b me d x y) ∨ (0 < r.1 ∧ Run b me d x y r.1 ∧ FlippedTo flip r.2 b me d x y r.1)

def FlipperAt (b : Board) (me : color_t) (d : Int × Int) (x y : Int) (flip : Bool) (s : Int × Int × Nat × Board) : Prop :=
  s.1 = ray_x d x s.2.2.1 ∧ s.2.1 = ray_y d y s.2.2.1 ∧ Held b (OPPONENT me) d x y s.2.2.1 ∧ FlippedTo flip s.2.2.2 b me d x y s.2.2.1

theorem flipper_next (hd : IsDir d) (s s' : Int × Int × Nat × Board) (h : FlipperAt b me d x y flip s)
    (hb : flipper_turn me (OPPONENT me) d flip s = .inl s') : FlipperAt b me d x y flip s' ∧ 9 - s'.2.2.1 < 9 - s.2.2.1 := by
  obtain ⟨u, v, k, bb⟩ := s
  obtain ⟨hu, hv, hheld, hbb⟩ := h
  dsimp only at hu hv hheld hbb
  subst hu hv
  simp only [flipper_turn, ray_x_succ, ray_y_succ, hbb.next hd] at hb
  by_cases hin : inside (ray_x d x (k + 1)) (ray_y d y (k + 1))
  · rw [if_neg (not_not.mpr hin)] at hb
    by_cases hc : b (ray_x d x (k + 1)) (ray_y d y (k + 1)) = OPPONENT me
    · rw [if_pos hc] at hb
      cases hb
      have hnext := hheld.succ hin hc
      have hlen := hnext.length_le hd
      exact ⟨⟨rfl, rfl, hnext, hbb.succ⟩, by dsimp only; omega⟩
    · rw [if_neg hc] at hb
      split at hb <;> cases hb
  · rw [if_pos hin] at hb
    cases hb

theorem flipper_end (hme : me ≠ .EMPTY) (hd : IsDir d) (s : Int × Int × Nat × Board) (r : Nat × Board)
    (h : FlipperAt b me d x y flip s) (hb : flipper_turn me (OPPONENT me) d flip s = .inr r) : FlipperOk b me d x y flip r := by
  obtain ⟨u, v, k, bb⟩ := s
  obtain ⟨hu, hv, hheld, hbb⟩ := h
  dsimp only at hu hv hheld hbb
  subst hu hv
  simp only [flipper_turn, ray_x_succ, ray_y_succ, hbb.next hd] at hb
  by_cases hin : inside (ray_x d x (k + 1)) (ray_y d y (k + 1))
  · rw [if_neg (not_not.mpr hin)] at hb
    rcases opponent_cases hme (b (ray_x d x (k + 1)) (ray_y d y (k + 1))) with hc | hc | hc
    · rw [if_neg (by rw [hc]; exact (opponent_stone hme).symm), if_neg (by rw [hc]; exact fun h => hme h.2.symm)] at hb
      cases hb
      exact .inl ⟨rfl, fun ⟨m, _, hm⟩ => no_run hme hheld (.inr hc) m hm⟩
    · rw [if_neg (by rw [hc]; exact (opponent_ne hme).symm)] at hb
      have hrun : Run b me d x y k := ⟨hheld, hin, hc⟩
      by_cases h0 : k = 0
      · rw [if_neg (fun h => h.1 h0)] at hb
        cases hb
        refine .inl ⟨rfl, fun ⟨m, hm0, hm⟩ => ?_⟩
        have hkm := hm.unique hme hrun
        omega
      · rw [if_pos ⟨h0, hc⟩] at hb
        cases hb
        exact .inr ⟨by dsimp only; omega, hrun, hbb⟩
    · rw [if_pos hc] at hb
      cases hb
  · rw [if_pos hin] at hb
    cases hb
    exact .inl ⟨rfl, fun ⟨m, _, hm⟩ => no_run hme hheld (.inl hin) m hm⟩

theorem flipper_ok (hme : me ≠ .EMPTY) (hd : IsDir d) (flip : Bool) :
    FlipperOk b me d x y flip (flipper x y me (OPPONENT me) d flip b) := by
  have hstart : FlipperAt b me d x y flip (x, y, 0, b) := ⟨by simp, by simp, .zero, .zero⟩
  obtain ⟨r, hr, hok⟩ := runLoop_spec (FlipperAt b me d x y flip) (fun s => 9 - s.2.2.1) (FlipperOk b me d x y flip)
    (flipper_next hd) (flipper_end hme hd) (n := 10) hstart (by dsimp only; omega)
  rw [flipper, hr]
  exact hok

end WWindowSystem.Reversi
