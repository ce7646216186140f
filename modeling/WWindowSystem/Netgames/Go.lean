import WWindowSystem.Library.Loops

namespace WWindowSystem.Go

abbrev char := BitVec 8

def EMPTY : char := 0

def BLACK : char := 1

def WHITE : char := 2

def CHECKED : char := 64

def BOARD_SIZE : Int := 19

def STACK : Nat := 120

structure Player where
  captures : Nat
  color : char
  deriving DecidableEq

structure Engine where
  Passed : Bool
  Scoring : Bool
  LastX : Int
  LastY : Int
  Board : Int → Int → char
  Backup : Int → Int → char
  Mine : Player
  Your : Player
  playing : Bool

def put (b : Int → Int → char) (x y : Int) (c : char) : Int → Int → char := fun u v => if u = x ∧ v = y then c else b u v

def inside (x y : Int) : Prop := 0 ≤ x ∧ 0 ≤ y ∧ x < BOARD_SIZE ∧ y < BOARD_SIZE

instance (x y : Int) : Decidable (inside x y) := inferInstanceAs (Decidable (_ ∧ _))

def push (x y : Int) (stack : List (Int × Int)) : List (Int × Int) :=
  if 2 * stack.length + 2 ≤ STACK then (x, y) :: stack else stack

def left_edge (same : Int → Bool) (x : Int) : Int :=
  (runLoop (fun x => if decide (0 ≤ x - 1) && same (x - 1) then .inl (x - 1) else .inr (x - 1)) 20 x).getD x

structure Walk where
  x : Int
  board : Int → Int → char
  stack : List (Int × Int)
  above : Bool
  below : Bool
  pieces : Nat

def seed (found : Bool) (x y : Int) (first : Bool) (stack : List (Int × Int)) : Bool × List (Int × Int) :=
  if found then (if first then (false, push x y stack) else (first, stack)) else (true, stack)

def capture_turn (y : Int) (piece : char) (w : Walk) : Walk ⊕ Walk :=
  let x := w.x + 1
  if x < BOARD_SIZE ∧ w.board x y = piece then
    let (above, stack) := if 0 < y then seed (w.board x (y - 1) = piece) x (y - 1) w.above w.stack else (w.above, w.stack)
    let (below, stack) := if y < BOARD_SIZE - 1 then seed (w.board x (y + 1) = piece) x (y + 1) w.below stack else (w.below, stack)
    .inl { x := x, board := put w.board x y EMPTY, stack := stack, above := above, below := below, pieces := w.pieces + 1 }
  else .inr { w with x := x }

def capture_row (y : Int) (piece : char) (w : Walk) : Walk := (runLoop (capture_turn y piece) 20 w).getD w

def capture_rows (piece : char) : Nat → Int → Int → List (Int × Int) → (Int → Int → char) × Nat → Option ((Int → Int → char) × Nat)
  | 0, _, _, _, _ => none
  | fuel + 1, x, y, stack, (b, captures) =>
    let w := capture_row y piece
      { x := left_edge (fun x => b x y == piece) x, board := b, stack := stack, above := true, below := true, pieces := captures }
    match w.stack with
    | [] => some (w.board, w.pieces)
    | (x, y) :: stack => capture_rows piece fuel x y stack (w.board, w.pieces)

def capture_pieces (fuel : Nat) (x y : Int) (piece : char) (b : Int → Int → char) : Option ((Int → Int → char) × Nat) :=
  capture_rows piece fuel x y [] (b, 0)

/-- `none` is the return for a group that is not surrounded; what has been marked so far stays marked. -/
def surrounded_turn (y : Int) (piece bord : char) (w : Walk) : Walk ⊕ Walk × Bool :=
  let x := w.x + 1
  let free (c : char) : Bool := c != piece && c != bord && c != piece ^^^ CHECKED
  if x < BOARD_SIZE ∧ w.board x y ||| CHECKED = piece ||| CHECKED then
    if 0 < y ∧ free (w.board x (y - 1)) then .inr (w, false)
    else
      let (above, stack) := if 0 < y then seed (w.board x (y - 1) = piece) x (y - 1) w.above w.stack else (w.above, w.stack)
      if y < BOARD_SIZE - 1 ∧ free (w.board x (y + 1)) then .inr ({ w with above := above, stack := stack }, false)
      else
        let (below, stack) := if y < BOARD_SIZE - 1 then seed (w.board x (y + 1) = piece) x (y + 1) w.below stack else (w.below, stack)
        .inl
          { x := x, board := put w.board x y (w.board x y ^^^ CHECKED), stack := stack, above := above, below := below,
            pieces := w.pieces + 1 }
  else .inr ({ w with x := x }, decide (BOARD_SIZE ≤ x) || w.board x y == bord)

def surrounded_row (y : Int) (piece bord : char) (w : Walk) : Walk × Bool :=
  (runLoop (surrounded_turn y piece bord) 20 w).getD (w, false)

def surrounded_rows (piece bord : char) : Nat → Int → Int → List (Int × Int) → (Int → Int → char) × Nat →
    Option ((Int → Int → char) × Nat)
  | 0, _, _, _, _ => none
  | fuel + 1, x, y, stack, (b, pieces) =>
    let x := left_edge (fun x => b x y ||| CHECKED == piece ||| CHECKED) x
    if 0 ≤ x ∧ b x y ≠ bord then some (b, 0)
    else
      let (w, closed) := surrounded_row y piece bord { x := x, board := b, stack := stack, above := true, below := true, pieces := pieces }
      if closed then
        match w.stack with
        | [] => some (w.board, w.pieces)
        | (x, y) :: stack => surrounded_rows piece bord fuel x y stack (w.board, w.pieces)
      else some (w.board, 0)

def surrounded (fuel : Nat) (x y : Int) (bord : char) (b : Int → Int → char) : Option ((Int → Int → char) × Nat) :=
  surrounded_rows (b x y) bord fuel x y [] (b, 0)

def neighbours (x y : Int) : List (Int × Int) := [(x - 1, y), (x + 1, y), (x, y - 1), (x, y + 1)]

def captures_loop (fuel : Nat) (color other : char) : List (Int × Int) → (Int → Int → char) × Nat → Option ((Int → Int → char) × Nat)
  | [], s => some s
  | (x, y) :: places, (b, captures) =>
    if inside x y ∧ b x y = other then
      (surrounded fuel x y color b).bind fun (b, dead) =>
        if dead ≠ 0 then
          (capture_pieces fuel x y (other ||| CHECKED) b).bind fun (b, taken) =>
            captures_loop fuel color other places (b, captures + taken)
        else (surrounded fuel x y color b).bind fun (b, _) => captures_loop fuel color other places (b, captures)
    else captures_loop fuel color other places (b, captures)

def do_captures (fuel : Nat) (x y : Int) (color other : char) (s : Engine) : Option Engine :=
  if color = s.Mine.color then
    (captures_loop fuel color other (neighbours x y) (s.Board, s.Mine.captures)).map fun (b, captures) =>
      { s with Board := b, Mine := { s.Mine with captures := captures } }
  else
    (captures_loop fuel color other (neighbours x y) (s.Board, s.Your.captures)).map fun (b, captures) =>
      { s with Board := b, Your := { s.Your with captures := captures } }

def make_move (fuel : Nat) (own : Bool) (x y : Int) (s : Engine) : Option Engine :=
  let one := if own then s.Mine else s.Your
  let two := if own then s.Your else s.Mine
  let s := { s with Backup := s.Board, Board := put s.Board x y one.color }
  if s.playing then
    (do_captures fuel x y one.color two.color { s with LastX := x, LastY := y }).map fun s => { s with Passed := false }
  else some s

def do_undo (s : Engine) : Option Engine :=
  if s.LastX < 0 ∨ s.LastY < 0 then none
  else some { s with Board := s.Backup, LastX := -1, LastY := -1, Passed := false }

def check_loop (fuel : Nat) (LastX LastY : Int) (color other : char) :
    List (Int × Int) → (Int → Int → char) × Nat → Option ((Int → Int → char) × Nat)
  | [], s => some s
  | (x, y) :: places, (b, captures) =>
    if inside x y ∧ b x y = other then
      (surrounded fuel x y color b).bind fun (b, dead) =>
        let captures := if dead ≠ 0 ∧ ¬ (dead = 1 ∧ x = LastX ∧ y = LastY) then captures + dead else captures
        (surrounded fuel x y color b).bind fun (b, _) => check_loop fuel LastX LastY color other places (b, captures)
    else check_loop fuel LastX LastY color other places (b, captures)

def check4capture (fuel : Nat) (x y : Int) (color other : char) (s : Engine) : Option (Engine × Bool) :=
  (check_loop fuel s.LastX s.LastY color other (neighbours x y) (s.Board, 0)).map fun (b, captures) =>
    ({ s with Board := b }, captures != 0)

def my_move (fuel : Nat) (x y : Int) (s : Engine) : Option (Engine × Bool) :=
  if inside x y ∧ s.Board x y = EMPTY then
    (surrounded fuel x y s.Your.color (put s.Board x y s.Mine.color)).bind fun (b, suicide) =>
      (surrounded fuel x y s.Your.color b).bind fun (b, _) =>
        let tested : Option (Engine × Bool) :=
          if suicide = 0 then some ({ s with Board := b }, true)
          else check4capture fuel x y s.Mine.color s.Your.color { s with Board := b }
        tested.map fun (s, sent) => ({ s with Board := put s.Board x y EMPTY }, sent)
  else some (s, false)

end WWindowSystem.Go
