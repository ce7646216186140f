import Mathlib.Logic.Basic
import Mathlib.Tactic.Ring
import Mathlib.Tactic.Tauto

namespace WWindowSystem.Chess

abbrev char := BitVec 8

def EMPTY : char := 0

def ROOK : char := 1

def KNIGHT : char := 2

def BISHOP : char := 4

def QUEEN : char := 8

def KING : char := 16

def PAWN : char := 32

def PIECES : char := 63

def BLACK : char := 0

def WHITE : char := 64

def MOVED : char := 128

def COLOR (c : char) : char := c &&& WHITE

def PIECE (c : char) : char := c &&& PIECES

structure Player where
  kx : Int
  ky : Int
  color : char
  deriving DecidableEq

structure Engine where
  MoveFrom : Bool
  PassX : Int
  PassY : Int
  FromX : Int
  FromY : Int
  Board : Int → Int → char
  Backup : Int → Int → char
  Mine : Player
  Your : Player

def put (b : Int → Int → char) (x y : Int) (c : char) : Int → Int → char := fun u v => if u = x ∧ v = y then c else b u v

def double_step (x y : Int) (s : Engine) : Prop :=
  PIECE (s.Board s.FromX s.FromY) = PAWN ∧ s.FromX = x ∧ (s.FromY - y).natAbs = 2 ∧ s.Board s.FromX s.FromY &&& MOVED = 0

instance (x y : Int) (s : Engine) : Decidable (double_step x y s) := inferInstanceAs (Decidable (_ ∧ _))

def make_move (x y : Int) (s : Engine) : Engine :=
  let pass := if double_step x y s then (x, y) else (-1, -1)
  let board := put (put s.Board x y (s.Board s.FromX s.FromY ||| MOVED)) s.FromX s.FromY EMPTY
  let s := { s with MoveFrom := false, Backup := s.Board, PassX := pass.1, PassY := pass.2, Board := board }
  if PIECE (board x y) = KING then
    if COLOR (board x y) = s.Mine.color then { s with Mine := { s.Mine with kx := x, ky := y } }
    else { s with Your := { s.Your with kx := x, ky := y } }
  else s

def do_undo (s : Engine) : Engine := { s with Board := s.Backup }

def fortificate (x y : Int) (rook : char) (s : Engine) : Engine :=
  let s := make_move x y s
  let dir := (x - s.FromX).sign
  let tx : Int := if 0 < dir then 7 else 0
  { s with Board := put (put s.Board tx y EMPTY) (x - dir) y rook }

def promotion (x y : Int) (piece : char) (s : Engine) : Engine :=
  { s with Board := put s.Board x y (piece ||| (s.Board x y &&& ~~~PIECES)) }

def move_from (x y : Int) (s : Engine) : Engine :=
  if s.MoveFrom then { s with MoveFrom := false } else { s with MoveFrom := true, FromX := x, FromY := y }

inductive Message
  | PIECE_SELECT
  | PIECE_MOVE
  | PIECE_PROMOTE
  | EN_PASSANT
  | HIDE_KING
  | RETURN_SELECT
  | RETURN_MOVE
  | RETURN_PROMOTE
  | RETURN_PASSANT
  | RETURN_KING
  deriving DecidableEq

def messages (type : Message) (x y : Int) (s : Engine) : Engine :=
  match type with
  | .PIECE_SELECT => move_from x (7 - y) s
  | .RETURN_SELECT => move_from x y s
  | .PIECE_MOVE => make_move x (7 - y) s
  | .RETURN_MOVE => make_move x y s
  | .PIECE_PROMOTE => promotion x 7 (BitVec.ofInt 8 y) s
  | .RETURN_PROMOTE => promotion x 0 (BitVec.ofInt 8 y) s
  | .EN_PASSANT =>
    let s := make_move x (7 - y) s
    { s with Board := put s.Board x (6 - y) EMPTY }
  | .RETURN_PASSANT =>
    let s := make_move x y s
    { s with Board := put s.Board x (y - 1) EMPTY }
  | .HIDE_KING => fortificate x (7 - y) (ROOK ||| MOVED ||| s.Your.color) s
  | .RETURN_KING => fortificate x y (ROOK ||| MOVED ||| s.Mine.color) s

def OPPONENT (c : char) : char := c ^^^ WHITE

def COLORPIECE (c : char) : char := c &&& (PIECES ||| WHITE)

def OnBoard (x y : Int) : Prop := 0 ≤ x ∧ x < 8 ∧ 0 ≤ y ∧ y < 8

instance (x y : Int) : Decidable (OnBoard x y) := inferInstanceAs (Decidable (_ ∧ _))

def square (s : Engine) (x y : Int) : Option char := if OnBoard x y then some (s.Board x y) else none

def found (s : Engine) (x y : Int) (o_piece : char) : Option Bool :=
  (square s x y).map fun c => decide (COLORPIECE c = o_piece)

def guarded (p : Prop) [Decidable p] (a : Option Bool) : Option Bool := if p then a else some false

def either (a b : Option Bool) : Option Bool := a.bind fun r => if r then some true else b

def returns (a : Option Bool) (piece : String) (rest : Option (Option String)) : Option (Option String) :=
  a.bind fun r => if r then some (some piece) else rest

def slide (more : Int → Int → Bool) (dx dy : Int) (s : Engine) : Nat → Int → Int → Option (Int × Int)
  | 0, _, _ => none
  | fuel + 1, x, y =>
    if more x y then
      (square s (x + dx) (y + dy)).bind fun c =>
        if c = EMPTY then slide more dx dy s fuel (x + dx) (y + dy) else some (x + dx, y + dy)
    else some (x, y)

def scan (more : Int → Int → Bool) (dx dy : Int) (kx ky : Int) (o_piece o_piece2 : char) (piece2 : String) (s : Engine)
    (rest : Option (Option String)) : Option (Option String) :=
  (slide more dx dy s 8 kx ky).bind fun p =>
    returns (found s p.1 p.2 o_piece) "queen" (returns (found s p.1 p.2 o_piece2) piece2 rest)

def checked_knight (kx ky : Int) (o_piece : char) (s : Engine) : Option Bool :=
  either
    (guarded (ky > 0) (either (guarded (kx > 1) (found s (kx - 2) (ky - 1) o_piece))
      (either (guarded (kx < 6) (found s (kx + 2) (ky - 1) o_piece))
        (guarded (ky > 1) (either (guarded (kx > 0) (found s (kx - 1) (ky - 2) o_piece))
          (guarded (kx < 7) (found s (kx + 1) (ky - 2) o_piece)))))))
    (guarded (ky < 7) (either (guarded (kx > 1) (found s (kx - 2) (ky + 1) o_piece))
      (either (guarded (kx < 6) (found s (kx + 2) (ky + 1) o_piece))
        (guarded (ky < 6) (either (guarded (kx > 0) (found s (kx - 1) (ky + 2) o_piece))
          (guarded (kx < 7) (found s (kx + 1) (ky + 2) o_piece)))))))

def checked_pawn (kx ky : Int) (color : char) (o_piece : char) (s : Engine) : Option Bool :=
  if color = s.Mine.color then
    guarded (ky > 0) (either (guarded (kx > 0) (found s (kx - 1) (ky - 1) o_piece))
      (guarded (kx < 7) (found s (kx + 1) (ky - 1) o_piece)))
  else
    guarded (ky < 7) (either (guarded (kx > 0) (found s (kx - 1) (ky + 1) o_piece))
      (guarded (kx < 7) (found s (kx + 1) (ky + 1) o_piece)))

def checked_king (kx ky : Int) (o_piece : char) (s : Engine) : Option Bool :=
  either (guarded (kx > 0) (found s (kx - 1) ky o_piece))
    (either (guarded (kx < 7) (found s (kx + 1) ky o_piece))
      (either
        (guarded (ky > 0) (either (found s kx (ky - 1) o_piece)
          (either (guarded (kx > 0) (found s (kx - 1) (ky - 1) o_piece))
            (guarded (kx < 7) (found s (kx + 1) (ky - 1) o_piece)))))
        (guarded (ky < 7) (either (found s kx (ky + 1) o_piece)
          (either (guarded (kx > 0) (found s (kx - 1) (ky + 1) o_piece))
            (guarded (kx < 7) (found s (kx + 1) (ky + 1) o_piece)))))))

def king_checked (kx ky : Int) (color : char) (s : Engine) : Option (Option String) :=
  let o_color := OPPONENT color
  let queen := QUEEN ||| o_color
  let rook := ROOK ||| o_color
  let bishop := BISHOP ||| o_color
  returns (checked_knight kx ky (KNIGHT ||| o_color) s) "knight" <|
  scan (fun x _ => x > 0) (-1) 0 kx ky queen rook "rook" s <|
  scan (fun x _ => x < 7) 1 0 kx ky queen rook "rook" s <|
  scan (fun _ y => y > 0) 0 (-1) kx ky queen rook "rook" s <|
  scan (fun _ y => y < 7) 0 1 kx ky queen rook "rook" s <|
  scan (fun x y => x > 0 && y > 0) (-1) (-1) kx ky queen bishop "bishop" s <|
  scan (fun x y => x < 7 && y < 7) 1 1 kx ky queen bishop "bishop" s <|
  scan (fun x y => x > 0 && y < 7) (-1) 1 kx ky queen bishop "bishop" s <|
  scan (fun x y => x < 7 && y > 0) 1 (-1) kx ky queen bishop "bishop" s <|
  returns (checked_pawn kx ky color (PAWN ||| o_color) s) "pawn" <|
  returns (checked_king kx ky (KING ||| o_color) s) "king" <|
  some none

def Holds (b : Int → Int → char) (x y : Int) (piece color : char) : Prop :=
  PIECE (b x y) = piece ∧ COLOR (b x y) = color

def Sees (b : Int → Int → char) (kx ky dx dy x y : Int) : Prop :=
  ∃ n : Nat, 1 ≤ n ∧ x = kx + n * dx ∧ y = ky + n * dy ∧
    ∀ m : Nat, 1 ≤ m → m < n → b (kx + m * dx) (ky + m * dy) = EMPTY

inductive Attacks (b : Int → Int → char) (color : char) (dir : Int) (x y kx ky : Int) : Prop
  | knight (hp : Holds b x y KNIGHT color)
    (hd : (x - kx).natAbs = 1 ∧ (y - ky).natAbs = 2 ∨ (x - kx).natAbs = 2 ∧ (y - ky).natAbs = 1)
  | rook (hp : Holds b x y ROOK color) (dx dy : Int) (hd : dx.natAbs + dy.natAbs = 1) (hs : Sees b kx ky dx dy x y)
  | bishop (hp : Holds b x y BISHOP color) (dx dy : Int) (hd : dx.natAbs = 1 ∧ dy.natAbs = 1)
    (hs : Sees b kx ky dx dy x y)
  | queen (hp : Holds b x y QUEEN color) (dx dy : Int) (hd : max dx.natAbs dy.natAbs = 1) (hs : Sees b kx ky dx dy x y)
  | pawn (hp : Holds b x y PAWN color) (hd : (x - kx).natAbs = 1 ∧ ky = y + dir)
  | king (hp : Holds b x y KING color) (hd : max (x - kx).natAbs (y - ky).natAbs = 1)

def pawnDirection (s : Engine) (color : char) : Int := if OPPONENT color = s.Mine.color then 1 else -1

def Says (a : Option Bool) (P : Prop) : Prop := ∃ r, a = some r ∧ (r = true ↔ P)

/-- The answer is reached without a look outside of the board, and is a piece just if `P`. -/
def Answers (a : Option (Option String)) (P : Prop) : Prop := ∃ r, a = some r ∧ (r.isSome ↔ P)

variable {P Q : Prop}

theorem Says.either {a b : Option Bool} (ha : Says a P) (hb : Says b Q) : Says (either a b) (P ∨ Q) := by
  obtain ⟨r, rfl, hr⟩ := ha
  cases r with
  | true => exact ⟨true, rfl, by simp [← hr]⟩
  | false =>
    obtain ⟨q, rfl, hq⟩ := hb
    exact ⟨q, rfl, by simp [← hr, hq]⟩

variable {a : Option Bool}

theorem Says.guarded {p P : Prop} [Decidable p] (ha : p → Says a P) : Says (guarded p a) (p ∧ P) := by
  by_cases hp : p
  · obtain ⟨r, rfl, hr⟩ := ha hp
    exact ⟨r, by rw [Chess.guarded, if_pos hp], by simp [hp, hr]⟩
  · exact ⟨false, by rw [Chess.guarded, if_neg hp], by simp [hp]⟩

theorem Says.congr (h : Says a P) (he : P ↔ Q) : Says a Q := by
  obtain ⟨r, hr, hp⟩ := h
  exact ⟨r, hr, hp.trans he⟩

variable {s : Engine}

theorem Says.found {x y : Int} {q : char} (h : OnBoard x y) :
    Says (found s x y q) (COLORPIECE (s.Board x y) = q) :=
  ⟨_, by rw [Chess.found, square, if_pos h]; rfl, decide_eq_true_iff⟩

theorem Answers.none : Answers (some Option.none) False := ⟨_, rfl, by simp⟩

variable {name : String} {rest : Option (Option String)}

theorem Answers.returns (ha : Says a P)
    (hr : Answers rest Q) : Answers (returns a name rest) (P ∨ Q) := by
  obtain ⟨r, rfl, h⟩ := ha
  cases r with
  | true => exact ⟨some name, rfl, by simp [← h]⟩
  | false =>
    obtain ⟨v, rfl, hv⟩ := hr
    exact ⟨v, rfl, by simp [← h, hv]⟩

theorem Answers.congr {a : Option (Option String)} (h : Answers a P) (he : P ↔ Q) : Answers a Q := by
  obtain ⟨r, hr, hp⟩ := h
  exact ⟨r, hr, hp.trans he⟩

def Direction (dx dy : Int) : Prop := dx.natAbs ≤ 1 ∧ dy.natAbs ≤ 1 ∧ (dx ≠ 0 ∨ dy ≠ 0)

theorem OnBoard.between {kx ky dx dy : Int} (hd : Direction dx dy) {m n : Nat} (hk : OnBoard kx ky)
    (hn : OnBoard (kx + n * dx) (ky + n * dy)) (hm : m ≤ n) : OnBoard (kx + m * dx) (ky + m * dy) := by
  obtain ⟨h1, h2, -⟩ := hd
  have hx : dx = -1 ∨ dx = 0 ∨ dx = 1 := by omega
  have hy : dy = -1 ∨ dy = 0 ∨ dy = 1 := by omega
  unfold OnBoard at *
  obtain rfl | rfl | rfl := hx <;> obtain rfl | rfl | rfl := hy <;> omega

theorem OnBoard.lt_eight {kx ky dx dy : Int} (hd : Direction dx dy) {n : Nat} (hk : OnBoard kx ky)
    (hn : OnBoard (kx + n * dx) (ky + n * dy)) : n < 8 := by
  obtain ⟨h1, h2, h3⟩ := hd
  have hx : dx = -1 ∨ dx = 0 ∨ dx = 1 := by omega
  have hy : dy = -1 ∨ dy = 0 ∨ dy = 1 := by omega
  unfold OnBoard at *
  obtain rfl | rfl | rfl := hx <;> obtain rfl | rfl | rfl := hy <;> omega

def Guards (more : Int → Int → Bool) (dx dy : Int) : Prop :=
  ∀ x y, OnBoard x y → (more x y = true ↔ OnBoard (x + dx) (y + dy))

variable {more : Int → Int → Bool}

theorem slide_spec {dx dy kx ky : Int} (hd : Direction dx dy)
    (hg : Guards more dx dy) (hk : OnBoard kx ky) (fuel k : Nat) (hf : 8 ≤ k + fuel)
    (hx : OnBoard (kx + k * dx) (ky + k * dy)) :
    ∃ n : Nat, k ≤ n ∧ slide more dx dy s fuel (kx + k * dx) (ky + k * dy) = some (kx + n * dx, ky + n * dy) ∧
      OnBoard (kx + n * dx) (ky + n * dy) ∧ (∀ m : Nat, k < m → m < n → s.Board (kx + m * dx) (ky + m * dy) = EMPTY) ∧
      (k < n ∧ s.Board (kx + n * dx) (ky + n * dy) ≠ EMPTY ∨
        ¬ OnBoard (kx + (n + 1 : Nat) * dx) (ky + (n + 1 : Nat) * dy)) := by
  induction fuel generalizing k with
  | zero =>
    have := OnBoard.lt_eight hd hk hx
    omega
  | succ fuel ih =>
    have hsx : kx + k * dx + dx = kx + (k + 1 : Nat) * dx := by push_cast; ring
    have hsy : ky + k * dy + dy = ky + (k + 1 : Nat) * dy := by push_cast; ring
    have hmore := hg _ _ hx
    rw [hsx, hsy] at hmore
    rw [slide, hsx, hsy]
    by_cases hm : more (kx + k * dx) (ky + k * dy) = true
    · have hon := hmore.1 hm
      rw [if_pos hm, square, if_pos hon, Option.bind_some]
      by_cases he : s.Board (kx + (k + 1 : Nat) * dx) (ky + (k + 1 : Nat) * dy) = EMPTY
      · rw [if_pos he]
        obtain ⟨n, hn, h1, h2, h3, h4⟩ := ih (k + 1) (by omega) hon
        refine ⟨n, by omega, h1, h2, fun m hkm hmn => ?_, h4.imp_left fun h => ⟨by omega, h.2⟩⟩
        rcases Nat.eq_or_lt_of_le hkm with rfl | hkm
        · exact he
        · exact h3 m hkm hmn
      · rw [if_neg he]
        exact ⟨k + 1, by omega, rfl, hon, fun m h1 h2 => by omega, .inl ⟨by omega, he⟩⟩
    · rw [if_neg hm]
      exact ⟨k, le_refl k, rfl, hx, fun m h1 h2 => by omega, .inr fun h => hm (hmore.2 h)⟩

def Next (s : Engine) (kx ky dx dy : Int) (q : char) : Prop :=
  ∃ x y, OnBoard x y ∧ COLORPIECE (s.Board x y) = q ∧ Sees s.Board kx ky dx dy x y

theorem scan_answers {dx dy kx ky : Int} (hd : Direction dx dy)
    (hg : Guards more dx dy) (hk : OnBoard kx ky) {q q2 : char} {Q : Prop}
    (hq : q ≠ EMPTY ∧ COLORPIECE (s.Board kx ky) ≠ q) (hq2 : q2 ≠ EMPTY ∧ COLORPIECE (s.Board kx ky) ≠ q2)
    (hr : Answers rest Q) :
    Answers (scan more dx dy kx ky q q2 name s rest) (Next s kx ky dx dy q ∨ Next s kx ky dx dy q2 ∨ Q) := by
  obtain ⟨n, -, hs, hon, hclear, hend⟩ := slide_spec (s := s) hd hg hk 8 0 (by omega) (by simpa using hk)
  simp only [Int.natCast_zero, Int.zero_mul, Int.add_zero] at hs
  have end_iff : ∀ q : char, q ≠ EMPTY ∧ COLORPIECE (s.Board kx ky) ≠ q →
      (COLORPIECE (s.Board (kx + n * dx) (ky + n * dy)) = q ↔ Next s kx ky dx dy q) := by
    intro q hq
    constructor
    · intro he
      have hn : 1 ≤ n := by
        rcases Nat.eq_zero_or_pos n with rfl | hn
        · exact absurd (by simpa using he) hq.2
        · exact hn
      exact ⟨_, _, hon, he, n, hn, rfl, rfl, fun m h1 h2 => hclear m h1 h2⟩
    · rintro ⟨x, y, hxy, he, n', hn', rfl, rfl, hclear'⟩
      have hsome : s.Board (kx + n' * dx) (ky + n' * dy) ≠ EMPTY := by
        intro hempty
        rw [hempty] at he
        exact hq.1 he.symm
      rcases Nat.lt_trichotomy n' n with h | rfl | h
      · exact absurd (hclear n' hn' h) hsome
      · exact he
      · obtain ⟨h0, hne⟩ | hoff := hend
        · exact absurd (hclear' n h0 h) hne
        · exact absurd (OnBoard.between hd hk hxy h) hoff
  rw [scan, hs, Option.bind_some]
  refine (Answers.returns (Says.found hon) (Answers.returns (Says.found hon) hr)).congr ?_
  rw [end_iff q hq, end_iff q2 hq2]

theorem colorpiece_iff {piece o : char} (h : (piece ||| o) &&& PIECES = piece ∧ (piece ||| o) &&& WHITE = o)
    (s : Engine) (x y : Int) : COLORPIECE (s.Board x y) = piece ||| o ↔ Holds s.Board x y piece o := by
  have hp : PIECE (s.Board x y) = COLORPIECE (s.Board x y) &&& PIECES := by
    rw [PIECE, COLORPIECE, BitVec.and_assoc]
    rfl
  have hc : COLOR (s.Board x y) = COLORPIECE (s.Board x y) &&& WHITE := by
    rw [COLOR, COLORPIECE, BitVec.and_assoc]
    rfl
  constructor
  · intro he
    exact ⟨by rw [hp, he, h.1], by rw [hc, he, h.2]⟩
  · rintro ⟨h1, h2⟩
    rw [← h1, ← h2, PIECE, COLOR, COLORPIECE, BitVec.and_or_distrib_left]

variable {kx ky : Int}

theorem knight_found (q : char) (hk : OnBoard kx ky) :
    Says (checked_knight kx ky q s) (∃ x y, OnBoard x y ∧ COLORPIECE (s.Board x y) = q ∧
      ((x - kx).natAbs = 1 ∧ (y - ky).natAbs = 2 ∨ (x - kx).natAbs = 2 ∧ (y - ky).natAbs = 1)) := by
  unfold OnBoard at hk
  refine (Says.either
    (.guarded fun hy => .either (.guarded fun hx => .found ?_) (.either (.guarded fun hx => .found ?_)
      (.guarded fun hy' => .either (.guarded fun hx => .found ?_) (.guarded fun hx => .found ?_))))
    (.guarded fun hy => .either (.guarded fun hx => .found ?_) (.either (.guarded fun hx => .found ?_)
      (.guarded fun hy' => .either (.guarded fun hx => .found ?_) (.guarded fun hx => .found ?_))))).congr ⟨fun h => ?_, ?_⟩
  any_goals (unfold OnBoard; omega)
  · obtain ⟨_, ⟨_, h⟩ | ⟨_, h⟩ | ⟨_, ⟨_, h⟩ | ⟨_, h⟩⟩⟩ | ⟨_, ⟨_, h⟩ | ⟨_, h⟩ | ⟨_, ⟨_, h⟩ | ⟨_, h⟩⟩⟩ := h <;>
      exact ⟨_, _, by unfold OnBoard; omega, h, by omega⟩
  · rintro ⟨x, y, hxy, h, hd⟩
    unfold OnBoard at hxy
    have hcases : (x = kx - 2 ∨ x = kx + 2) ∧ (y = ky - 1 ∨ y = ky + 1) ∨
        (x = kx - 1 ∨ x = kx + 1) ∧ (y = ky - 2 ∨ y = ky + 2) := by omega
    obtain ⟨rfl | rfl, rfl | rfl⟩ | ⟨rfl | rfl, rfl | rfl⟩ := hcases <;> simp only [h, and_true] <;> omega

theorem pawn_found (color q : char) (hk : OnBoard kx ky) :
    Says (checked_pawn kx ky color q s) (∃ x y, OnBoard x y ∧ COLORPIECE (s.Board x y) = q ∧
      (x - kx).natAbs = 1 ∧ ky = y + if color = s.Mine.color then 1 else -1) := by
  unfold OnBoard at hk
  rw [checked_pawn]
  split_ifs with hm
  · refine (Says.guarded fun hy => .either (.guarded fun hx => .found ?_) (.guarded fun hx => .found ?_)).congr
      ⟨fun h => ?_, ?_⟩
    any_goals (unfold OnBoard; omega)
    · obtain ⟨_, ⟨_, h⟩ | ⟨_, h⟩⟩ := h <;> exact ⟨_, _, by unfold OnBoard; omega, h, by omega, by omega⟩
    · rintro ⟨x, y, hxy, h, hx, rfl⟩
      unfold OnBoard at hxy
      have hcases : x = kx - 1 ∨ x = kx + 1 := by omega
      obtain rfl | rfl := hcases <;> simp only [Int.add_sub_cancel, h, and_true] <;> omega
  · refine (Says.guarded fun hy => .either (.guarded fun hx => .found ?_) (.guarded fun hx => .found ?_)).congr
      ⟨fun h => ?_, ?_⟩
    any_goals (unfold OnBoard; omega)
    · obtain ⟨_, ⟨_, h⟩ | ⟨_, h⟩⟩ := h <;> exact ⟨_, _, by unfold OnBoard; omega, h, by omega, by omega⟩
    · rintro ⟨x, y, hxy, h, hx, rfl⟩
      unfold OnBoard at hxy
      have hcases : x = kx - 1 ∨ x = kx + 1 := by omega
      have hy : y + -1 + 1 = y := by omega
      obtain rfl | rfl := hcases <;> simp only [hy, h, and_true] <;> omega

theorem king_found (q : char) (hk : OnBoard kx ky) :
    Says (checked_king kx ky q s) (∃ x y, OnBoard x y ∧ COLORPIECE (s.Board x y) = q ∧
      max (x - kx).natAbs (y - ky).natAbs = 1) := by
  unfold OnBoard at hk
  refine (Says.either (.guarded fun hx => .found ?_) (.either (.guarded fun hx => .found ?_) (.either
    (.guarded fun hy => .either (.found ?_) (.either (.guarded fun hx => .found ?_) (.guarded fun hx => .found ?_)))
    (.guarded fun hy => .either (.found ?_) (.either (.guarded fun hx => .found ?_)
      (.guarded fun hx => .found ?_)))))).congr ⟨fun h => ?_, ?_⟩
  any_goals (unfold OnBoard; omega)
  · obtain ⟨_, h⟩ | ⟨_, h⟩ | ⟨_, h | ⟨_, h⟩ | ⟨_, h⟩⟩ | ⟨_, h | ⟨_, h⟩ | ⟨_, h⟩⟩ := h <;>
      exact ⟨_, _, by unfold OnBoard; omega, h, by omega⟩
  · rintro ⟨x, y, hxy, h, hd⟩
    unfold OnBoard at hxy
    have hcases : (x = kx - 1 ∨ x = kx + 1) ∧ (y = ky - 1 ∨ y = ky ∨ y = ky + 1) ∨
        x = kx ∧ (y = ky - 1 ∨ y = ky + 1) := by omega
    obtain ⟨rfl | rfl, rfl | rfl | rfl⟩ | ⟨rfl, rfl | rfl⟩ := hcases <;> simp only [h, and_true, true_or] <;> omega

theorem checked_answers (s : Engine) {color : char} (hc : color = BLACK ∨ color = WHITE)
    (hk : OnBoard kx ky) (hown : s.Board kx ky = EMPTY ∨ COLOR (s.Board kx ky) = color) :
    ∃ r, king_checked kx ky color s = some r ∧ (r.isSome ↔ ∃ x y, OnBoard x y ∧
      Attacks s.Board (OPPONENT color) (pawnDirection s (OPPONENT color)) x y kx ky) := by
  have masks : ∀ piece ∈ [KNIGHT, QUEEN, ROOK, BISHOP, PAWN, KING], (piece ||| OPPONENT color) &&& PIECES = piece ∧
      (piece ||| OPPONENT color) &&& WHITE = OPPONENT color := by
    obtain rfl | rfl := hc <;> decide
  have other : OPPONENT (OPPONENT color) = color ∧ color ≠ OPPONENT color := by
    obtain rfl | rfl := hc <;> decide
  have hdir : pawnDirection s (OPPONENT color) = if color = s.Mine.color then 1 else -1 := by
    rw [pawnDirection, other.1]
  have hnot : ∀ piece ∈ [KNIGHT, QUEEN, ROOK, BISHOP, PAWN, KING], piece ||| OPPONENT color ≠ EMPTY ∧
      COLORPIECE (s.Board kx ky) ≠ piece ||| OPPONENT color := by
    intro piece hp
    have hne : piece ||| OPPONENT color ≠ EMPTY := by
      obtain rfl | rfl := hc <;> revert piece <;> decide
    refine ⟨hne, fun he => ?_⟩
    have hh := (colorpiece_iff (masks piece hp) s kx ky).1 he
    obtain hempty | hcol := hown
    · rw [hempty] at he
      exact hne he.symm
    · exact other.2 (hcol.symm.trans hh.2)
  rw [king_checked]
  refine (Answers.returns (knight_found _ hk)
    (scan_answers ⟨by decide, by decide, by decide⟩ ?_ hk (hnot QUEEN (by decide)) (hnot ROOK (by decide))
    (scan_answers ⟨by decide, by decide, by decide⟩ ?_ hk (hnot QUEEN (by decide)) (hnot ROOK (by decide))
    (scan_answers ⟨by decide, by decide, by decide⟩ ?_ hk (hnot QUEEN (by decide)) (hnot ROOK (by decide))
    (scan_answers ⟨by decide, by decide, by decide⟩ ?_ hk (hnot QUEEN (by decide)) (hnot ROOK (by decide))
    (scan_answers ⟨by decide, by decide, by decide⟩ ?_ hk (hnot QUEEN (by decide)) (hnot BISHOP (by decide))
    (scan_answers ⟨by decide, by decide, by decide⟩ ?_ hk (hnot QUEEN (by decide)) (hnot BISHOP (by decide))
    (scan_answers ⟨by decide, by decide, by decide⟩ ?_ hk (hnot QUEEN (by decide)) (hnot BISHOP (by decide))
    (scan_answers ⟨by decide, by decide, by decide⟩ ?_ hk (hnot QUEEN (by decide)) (hnot BISHOP (by decide))
    (Answers.returns (pawn_found color _ hk) (Answers.returns (king_found _ hk) Answers.none))))))))))).congr ?_
  any_goals
    intro x y hxy
    unfold OnBoard at *
    simp only [decide_eq_true_iff, Bool.and_eq_true]
    omega
  simp only [Next, colorpiece_iff (masks KNIGHT (by decide)), colorpiece_iff (masks QUEEN (by decide)),
    colorpiece_iff (masks ROOK (by decide)), colorpiece_iff (masks BISHOP (by decide)),
    colorpiece_iff (masks PAWN (by decide)), colorpiece_iff (masks KING (by decide)), hdir]
  constructor
  · rintro (⟨x, y, hon, hp, hd⟩ | hl | hl | hl | hl | hl | hl | hl | hl | hl | hl | hl | hl | hl | hl | hl | hl |
      ⟨x, y, hon, hp, hd⟩ | ⟨x, y, hon, hp, hd⟩ | hf)
    · exact ⟨x, y, hon, .knight hp hd⟩
    any_goals
      obtain ⟨x, y, hon, hp, hs⟩ := hl
      first
        | exact ⟨x, y, hon, .queen hp _ _ (by decide) hs⟩
        | exact ⟨x, y, hon, .rook hp _ _ (by decide) hs⟩
        | exact ⟨x, y, hon, .bishop hp _ _ (by decide) hs⟩
    · exact ⟨x, y, hon, .pawn hp hd⟩
    · exact ⟨x, y, hon, .king hp hd⟩
    · exact hf.elim
  · rintro ⟨x, y, hon, ha⟩
    cases ha with
    | knight hp hd => exact .inl ⟨x, y, hon, hp, hd⟩
    | rook hp dx dy hd hs =>
      have hl : ∃ x y, OnBoard x y ∧ Holds s.Board x y ROOK (OPPONENT color) ∧ Sees s.Board kx ky dx dy x y :=
        ⟨x, y, hon, hp, hs⟩
      have hcases : (dx = -1 ∨ dx = 1) ∧ dy = 0 ∨ dx = 0 ∧ (dy = -1 ∨ dy = 1) := by omega
      obtain ⟨rfl | rfl, rfl⟩ | ⟨rfl, rfl | rfl⟩ := hcases <;> simp only [hl, true_or, or_true]
    | bishop hp dx dy hd hs =>
      have hl : ∃ x y, OnBoard x y ∧ Holds s.Board x y BISHOP (OPPONENT color) ∧ Sees s.Board kx ky dx dy x y :=
        ⟨x, y, hon, hp, hs⟩
      have hcases : (dx = -1 ∨ dx = 1) ∧ (dy = -1 ∨ dy = 1) := by omega
      obtain ⟨rfl | rfl, rfl | rfl⟩ := hcases <;> simp only [hl, true_or, or_true]
    | queen hp dx dy hd hs =>
      have hl : ∃ x y, OnBoard x y ∧ Holds s.Board x y QUEEN (OPPONENT color) ∧ Sees s.Board kx ky dx dy x y :=
        ⟨x, y, hon, hp, hs⟩
      have hcases : (dx = -1 ∨ dx = 1) ∧ (dy = -1 ∨ dy = 0 ∨ dy = 1) ∨ dx = 0 ∧ (dy = -1 ∨ dy = 1) := by omega
      obtain ⟨rfl | rfl, rfl | rfl | rfl⟩ | ⟨rfl, rfl | rfl⟩ := hcases <;> simp only [hl, true_or, or_true]
    | pawn hp hd =>
      have hl : ∃ x y, OnBoard x y ∧ Holds s.Board x y PAWN (OPPONENT color) ∧ (x - kx).natAbs = 1 ∧
          ky = y + if color = s.Mine.color then 1 else -1 := ⟨x, y, hon, hp, hd⟩
      simp only [hl, true_or, or_true]
    | king hp hd =>
      have hl : ∃ x y, OnBoard x y ∧ Holds s.Board x y KING (OPPONENT color) ∧ max (x - kx).natAbs (y - ky).natAbs = 1 :=
        ⟨x, y, hon, hp, hd⟩
      simp only [hl, true_or, or_true]

/-- A square with nothing of the opponent on it is checked just if a piece of the opponent attacks it, and no look
goes outside of the board. -/
theorem king_checked_answers (s : Engine) {kx ky : Int} {color : char} (hc : color = BLACK ∨ color = WHITE)
    (hk : OnBoard kx ky) (hown : s.Board kx ky = EMPTY ∨ COLOR (s.Board kx ky) = color) :
    ∃ r, king_checked kx ky color s = some r ∧ (r.isSome ↔ ∃ x y, OnBoard x y ∧
      Attacks s.Board (OPPONENT color) (pawnDirection s (OPPONENT color)) x y kx ky) :=
  checked_answers s hc hk hown

def lone : Engine where
  MoveFrom := false
  PassX := -1
  PassY := -1
  FromX := 0
  FromY := 0
  Board := put (put (fun _ _ => EMPTY) 4 0 (ROOK ||| BLACK ||| MOVED)) 4 7 (KING ||| WHITE)
  Backup := fun _ _ => EMPTY
  Mine := ⟨4, 7, WHITE⟩
  Your := ⟨0, 0, BLACK⟩

theorem king_checked_lone : ∃ r, king_checked 4 7 WHITE lone = some r ∧ (r.isSome ↔ ∃ x y, OnBoard x y ∧
    Attacks lone.Board (OPPONENT WHITE) (pawnDirection lone (OPPONENT WHITE)) x y 4 7) :=
  king_checked_answers lone (.inr rfl) (by decide) (by decide)

example : king_checked 4 7 WHITE lone = some (some "rook") := by decide

end WWindowSystem.Chess
