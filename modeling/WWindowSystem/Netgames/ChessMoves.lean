import WWindowSystem.Library.Loops
import WWindowSystem.Netgames.Chess

namespace WWindowSystem.Chess

open List

def clearTurn (b : Int → Int → char) (xoff yoff x2 y2 : Int) : Int × Int → (Int × Int) ⊕ Bool
  | (x1, y1) =>
    let x1 := x1 + xoff
    let y1 := y1 + yoff
    if xoff ≠ 0 ∧ x1 = x2 ∨ yoff ≠ 0 ∧ y1 = y2 then .inr true
    else if b x1 y1 ≠ EMPTY then .inr false
    else .inl (x1, y1)

def clear2move (x1 y1 x2 y2 : Int) (s : Engine) : Option Bool :=
  runLoop (clearTurn s.Board (x2 - x1).sign (y2 - y1).sign x2 y2) 8 (x1, y1)

def king_ok (tox toy : Int) (s : Engine) : Option (Bool × Engine) :=
  let new := s.Board tox toy
  let old := s.Board s.FromX s.FromY
  let color := COLOR old
  let k := if PIECE old = KING then (tox, toy)
    else if color = s.Mine.color then (s.Mine.kx, s.Mine.ky) else (s.Your.kx, s.Your.ky)
  let b := put (put s.Board tox toy old) s.FromX s.FromY EMPTY
  (king_checked k.1 k.2 color { s with Board := b }).map fun check =>
    (check.isNone, { s with Board := put (put b s.FromX s.FromY old) tox toy new })

def fortify (tox toy : Int) (color : char) (s : Engine) : Option (Bool × Engine) :=
  let dir := (tox - s.FromX).sign
  let tx : Int := if 0 < dir then 7 else 0
  if s.Board tx toy ≠ ROOK ||| color then some (false, s)
  else
    (clear2move s.FromX toy tx toy s).bind fun clear =>
      if clear then
        (king_checked s.FromX toy color s).bind fun check =>
          if check.isSome then some (false, s)
          else
            let b := put (put (put s.Board tx toy EMPTY) s.FromX toy EMPTY) (s.FromX + dir) toy (KING ||| color)
            let back (b : Int → Int → char) : Engine :=
              { s with Board := put (put (put b (s.FromX + dir) toy EMPTY) s.FromX toy (KING ||| color)) tx toy (ROOK ||| color) }
            (king_checked s.FromX toy color { s with Board := b }).bind fun check =>
              if check.isSome then some (false, back b)
              else
                let b := put (put b (s.FromX + dir) toy (ROOK ||| color)) (s.FromX + 2 * dir) toy (KING ||| color)
                (king_checked s.FromX toy color { s with Board := b }).map fun check =>
                  (check.isNone, back (put b (s.FromX + 2 * dir) toy EMPTY))
      else some (false, s)

def test_move (tox toy : Int) (s : Engine) : Option (Option Message × Engine) :=
  (king_ok tox toy s).map fun (ok, s) => (if ok then some .PIECE_MOVE else none, s)

def test_passant (tox toy : Int) (s : Engine) : Option (Option Message × Engine) :=
  let piece := s.Board s.PassX s.PassY
  (king_ok tox toy { s with Board := put s.Board s.PassX s.PassY EMPTY }).map fun (ok, t) =>
    (if ok then some .EN_PASSANT else none, { t with Board := put t.Board s.PassX s.PassY piece })

def check_move (tox toy : Int) (s : Engine) : Option (Option Message × Engine) :=
  if tox < 0 ∨ toy < 0 ∨ tox ≥ 8 ∨ toy ≥ 8 then some (none, s)
  else
    let new := s.Board tox toy
    let old := s.Board s.FromX s.FromY
    let color := COLOR old
    if new ≠ EMPTY ∧ color = COLOR new then some (none, s)
    else
      let w := (tox - s.FromX).natAbs
      let h := (toy - s.FromY).natAbs
      let clear := clear2move s.FromX s.FromY tox toy s
      let go (a : Option Bool) : Option (Option Message × Engine) :=
        a.bind fun ok => if ok then test_move tox toy s else some (none, s)
      if PIECE old = KING then
        if w < 2 ∧ h < 2 then test_move tox toy s
        else if h = 0 ∧ w = 2 ∧ old &&& MOVED = 0 then
          (fortify tox toy color s).map fun (ok, s) => (if ok then some .HIDE_KING else none, s)
        else some (none, s)
      else if PIECE old = ROOK then go (guarded (¬ (w ≠ 0 ∧ h ≠ 0)) clear)
      else if PIECE old = BISHOP then go (if w = h then some true else clear)
      else if PIECE old = QUEEN then go (either (guarded (¬ (w ≠ 0 ∧ h ≠ 0)) clear) (guarded (w = h) clear))
      else if PIECE old = KNIGHT then go (some (decide (w ≠ 0 ∧ h ≠ 0 ∧ w + h = 3)))
      else if PIECE old = PAWN then
        if color = s.Mine.color ∧ s.FromY ≤ toy ∨ color = s.Your.color ∧ s.FromY ≥ toy then some (none, s)
        else if w = 1 ∧ h = 1 then
          if new = EMPTY then
            if tox = s.PassX ∧ s.FromY = s.PassY then test_passant tox toy s else some (none, s)
          else test_move tox toy s
        else if new = EMPTY ∧ w = 0 ∧ (h = 1 ∨ h = 2 ∧ s.Board tox (toy + (s.FromY - toy).sign) = EMPTY ∧ old &&& MOVED = 0) then
          test_move tox toy s
        else some (none, s)
      else test_move tox toy s

def line (x y dx dy : Int) : List (Int × Int) :=
  ((List.range 8).map fun n : Nat => (x + (n + 1) * dx, y + (n + 1) * dy)).takeWhile fun p => OnBoard p.1 p.2

def tries (piece : char) (mine : Bool) (x y : Int) : List (Int × Int) :=
  let straight := line x y (-1) 0 ++ line x y 1 0 ++ line x y 0 (-1) ++ line x y 0 1
  let diagonal := line x y 1 1 ++ line x y (-1) (-1) ++ line x y 1 (-1) ++ line x y (-1) 1
  if piece = QUEEN then straight ++ diagonal
  else if piece = ROOK then straight
  else if piece = BISHOP then diagonal
  else if piece = KNIGHT then
    [(x - 2, y - 1), (x - 2, y + 1), (x - 1, y - 2), (x - 1, y + 2), (x + 1, y - 2), (x + 1, y + 2), (x + 2, y - 1), (x + 2, y + 1)]
  else if piece = KING then
    [(x - 1, y - 1), (x - 1, y), (x - 1, y + 1), (x + 1, y - 1), (x + 1, y), (x + 1, y + 1), (x, y - 1), (x, y + 1)]
  else if piece = PAWN then
    if mine then [(x - 1, y - 1), (x + 1, y - 1), (x, y - 1), (x, y - 2)]
    else [(x - 1, y + 1), (x + 1, y + 1), (x, y + 1), (x, y + 2)]
  else []

def try_moves : List (Int × Int) → Engine → Option (Bool × Engine)
  | [], s => some (false, s)
  | (a, b) :: l, s => (check_move a b s).bind fun (msg, s) => if msg.isSome then some (true, s) else try_moves l s

def try_pieces (color : char) : List (Int × Int) → Engine → Option (Bool × Engine)
  | [], s => some (true, s)
  | (x, y) :: l, s =>
    if s.Board x y ≠ EMPTY ∧ COLOR (s.Board x y) = color then
      (try_moves (tries (PIECE (s.Board x y)) (color = s.Mine.color) x y) { s with FromX := x, FromY := y }).bind fun (found, s) =>
        if found then some (false, s) else try_pieces color l s
    else try_pieces color l s

def squares : List (Int × Int) := (List.range 8).flatMap fun y : Nat => (List.range 8).map fun x : Nat => ((x : Int), (y : Int))

def chessmate (color : char) (s : Engine) : Option (Bool × Engine) := try_pieces color squares s

/-! The rules. -/

def steps (x1 y1 x2 y2 : Int) : Nat :=
  if x1 = x2 then (y2 - y1).natAbs else if y1 = y2 then (x2 - x1).natAbs else min (x2 - x1).natAbs (y2 - y1).natAbs

def Clear (b : Int → Int → char) (x1 y1 x2 y2 : Int) : Prop :=
  ∀ m : Nat, 1 ≤ m → m < steps x1 y1 x2 y2 → b (x1 + m * (x2 - x1).sign) (y1 + m * (y2 - y1).sign) = EMPTY

def Safe (b : Int → Int → char) (dir : Int) (color : char) : Prop :=
  ∀ kx ky, OnBoard kx ky → Holds b kx ky KING color → ¬ ∃ x y, OnBoard x y ∧ Attacks b (OPPONENT color) dir x y kx ky

def moved (b : Int → Int → char) (x y tox toy : Int) : Int → Int → char := put (put b tox toy (b x y)) x y EMPTY

inductive Goes (b : Int → Int → char) (color : char) (dir x y tox toy : Int) : Prop
  | piece (hp : PIECE (b x y) ≠ PAWN) (ha : Attacks b color dir x y tox toy)
  | eats (hp : PIECE (b x y) = PAWN) (ha : Attacks b color dir x y tox toy) (hn : b tox toy ≠ EMPTY)
  | one (hp : PIECE (b x y) = PAWN) (hx : tox = x) (hy : toy = y + dir) (he : b tox toy = EMPTY)
  | two (hp : PIECE (b x y) = PAWN) (hm : b x y &&& MOVED = 0) (hx : tox = x) (hy : toy = y + 2 * dir)
    (he : b x (y + dir) = EMPTY ∧ b tox toy = EMPTY)

def rookColumn (d : Int) : Int := if 0 < d then 7 else 0

def castled (b : Int → Int → char) (x y d : Int) : Int → Int → char :=
  put (put (moved b x y (x + 2 * d) y) (rookColumn d) y EMPTY) (x + d) y (b (rookColumn d) y)

structure MayCastle (s : Engine) (color : char) (x y d tox toy : Int) : Prop where
  king : s.Board x y = KING ||| color
  dir : d = 1 ∨ d = -1
  place : tox = x + 2 * d ∧ toy = y
  rook : s.Board (rookColumn d) y = ROOK ||| color
  clear : Clear s.Board x y (rookColumn d) y
  free : s.Board tox toy = EMPTY
  safe : Safe s.Board (pawnDirection s (OPPONENT color)) color

def NotOwn (s : Engine) (color : char) (x y : Int) : Prop := s.Board x y = EMPTY ∨ COLOR (s.Board x y) ≠ color

inductive Legal (s : Engine) (color : char) (x y tox toy : Int) : Message → Prop
  | move (hn : NotOwn s color tox toy) (hg : Goes s.Board color (pawnDirection s color) x y tox toy)
    (hs : Safe (moved s.Board x y tox toy) (pawnDirection s (OPPONENT color)) color) : Legal s color x y tox toy .PIECE_MOVE
  | passant (hp : PIECE (s.Board x y) = PAWN) (ha : Attacks s.Board color (pawnDirection s color) x y tox toy)
    (hn : s.Board tox toy = EMPTY) (hpass : tox = s.PassX ∧ y = s.PassY)
    (hs : Safe (moved (put s.Board s.PassX s.PassY EMPTY) x y tox toy) (pawnDirection s (OPPONENT color)) color) :
    Legal s color x y tox toy .EN_PASSANT
  | castle (d : Int) (hm : MayCastle s color x y d tox toy)
    (hs : Safe (moved s.Board x y (x + d) y) (pawnDirection s (OPPONENT color)) color ∧
      Safe (castled s.Board x y d) (pawnDirection s (OPPONENT color)) color) : Legal s color x y tox toy .HIDE_KING

theorem clear2move_says {x1 y1 x2 y2 : Int} (s : Engine) (h1 : OnBoard x1 y1) (h2 : OnBoard x2 y2)
    (hne : ¬ (x1 = x2 ∧ y1 = y2)) : Says (clear2move x1 y1 x2 y2 s) (Clear s.Board x1 y1 x2 y2) := by
  have hend : ∀ k : Nat, k < steps x1 y1 x2 y2 → (((x2 - x1).sign ≠ 0 ∧ x1 + k * (x2 - x1).sign + (x2 - x1).sign = x2 ∨
      (y2 - y1).sign ≠ 0 ∧ y1 + k * (y2 - y1).sign + (y2 - y1).sign = y2) ↔ k + 1 = steps x1 y1 x2 y2) := by
    intro k hk
    unfold steps at hk ⊢
    have hx : x2 - x1 = 0 ∧ (x2 - x1).sign = 0 ∨ 0 < x2 - x1 ∧ (x2 - x1).sign = 1 ∨ x2 - x1 < 0 ∧ (x2 - x1).sign = -1 := by
      rcases lt_trichotomy (x2 - x1) 0 with h | h | h
      · exact .inr (.inr ⟨h, Int.sign_eq_neg_one_of_neg h⟩)
      · exact .inl ⟨h, by rw [h]; rfl⟩
      · exact .inr (.inl ⟨h, Int.sign_eq_one_of_pos h⟩)
    have hy : y2 - y1 = 0 ∧ (y2 - y1).sign = 0 ∨ 0 < y2 - y1 ∧ (y2 - y1).sign = 1 ∨ y2 - y1 < 0 ∧ (y2 - y1).sign = -1 := by
      rcases lt_trichotomy (y2 - y1) 0 with h | h | h
      · exact .inr (.inr ⟨h, Int.sign_eq_neg_one_of_neg h⟩)
      · exact .inl ⟨h, by rw [h]; rfl⟩
      · exact .inr (.inl ⟨h, Int.sign_eq_one_of_pos h⟩)
    rcases hx with ⟨hx, ex⟩ | ⟨hx, ex⟩ | ⟨hx, ex⟩ <;> rcases hy with ⟨hy, ey⟩ | ⟨hy, ey⟩ | ⟨hy, ey⟩ <;>
      simp only [ex, ey] at * <;> split_ifs at * <;> omega
  have hrun : ∀ n k : Nat, 8 ≤ k + n → k < steps x1 y1 x2 y2 →
      (∀ m : Nat, 1 ≤ m → m ≤ k → s.Board (x1 + m * (x2 - x1).sign) (y1 + m * (y2 - y1).sign) = EMPTY) →
      Says (runLoop (clearTurn s.Board (x2 - x1).sign (y2 - y1).sign x2 y2) n
        (x1 + k * (x2 - x1).sign, y1 + k * (y2 - y1).sign)) (Clear s.Board x1 y1 x2 y2) := by
    intro n
    induction n with
    | zero =>
      intro k hk hlt _
      have : steps x1 y1 x2 y2 < 8 := by
        unfold steps OnBoard at *
        split_ifs <;> omega
      omega
    | succ n ih =>
      intro k hk hlt hempty
      rw [runLoop, clearTurn]
      have hnext : x1 + k * (x2 - x1).sign + (x2 - x1).sign = x1 + (k + 1 : Nat) * (x2 - x1).sign ∧
          y1 + k * (y2 - y1).sign + (y2 - y1).sign = y1 + (k + 1 : Nat) * (y2 - y1).sign := by
        push_cast
        constructor <;> ring
      by_cases hstop : k + 1 = steps x1 y1 x2 y2
      · rw [if_pos ((hend k hlt).2 hstop)]
        exact ⟨true, rfl, iff_of_true rfl fun m h1 hm => hempty m h1 (by omega)⟩
      rw [if_neg (mt (hend k hlt).1 hstop), hnext.1, hnext.2]
      by_cases he : s.Board (x1 + (k + 1 : Nat) * (x2 - x1).sign) (y1 + (k + 1 : Nat) * (y2 - y1).sign) = EMPTY
      · rw [if_neg (not_not.2 he)]
        refine ih (k + 1) (by omega) (by omega) fun m h1 hm => ?_
        rcases Nat.lt_or_ge k m with hlt' | hge
        · obtain rfl : m = k + 1 := by omega
          exact he
        · exact hempty m h1 hge
      · rw [if_pos he]
        exact ⟨false, rfl, iff_of_false Bool.false_ne_true fun hc => he (hc (k + 1) (by omega) (by omega))⟩
  have hpos : 0 < steps x1 y1 x2 y2 := by
    unfold steps
    split_ifs <;> omega
  have := hrun 8 0 (by omega) hpos fun m h1 hm => absurd hm (by omega)
  rw [clear2move]
  simpa using this

def kingOf (s : Engine) (color : char) : Int × Int :=
  if color = s.Mine.color then (s.Mine.kx, s.Mine.ky) else (s.Your.kx, s.Your.ky)

def Alone (b : Int → Int → char) (color : char) (k : Int × Int) : Prop :=
  OnBoard k.1 k.2 ∧ ∀ x y, OnBoard x y → (Holds b x y KING color ↔ x = k.1 ∧ y = k.2)

theorem put_self (b : Int → Int → char) (x y : Int) (c : char) : put b x y c x y = c := if_pos ⟨rfl, rfl⟩

theorem put_other (b : Int → Int → char) {x y u v : Int} (c : char) (h : ¬ (u = x ∧ v = y)) : put b x y c u v = b u v :=
  if_neg h

variable {k : Int × Int}

theorem Alone.safe_iff {b : Int → Int → char} {color : char} (h : Alone b color k) (dir : Int) :
    Safe b dir color ↔ ¬ ∃ x y, OnBoard x y ∧ Attacks b (OPPONENT color) dir x y k.1 k.2 := by
  constructor
  · intro hs
    exact hs k.1 k.2 h.1 ((h.2 _ _ h.1).2 ⟨rfl, rfl⟩)
  · intro hn kx ky hon hk
    obtain ⟨rfl, rfl⟩ := (h.2 kx ky hon).1 hk
    exact hn

theorem checked_safe {s : Engine} {color : char} (hc : color = BLACK ∨ color = WHITE)
    (h : Alone s.Board color k) : ∃ r, king_checked k.1 k.2 color s = some r ∧
      (r.isNone = true ↔ Safe s.Board (pawnDirection s (OPPONENT color)) color) := by
  have hown := ((h.2 _ _ h.1).2 ⟨rfl, rfl⟩).2
  obtain ⟨r, hr, hiff⟩ := checked_answers s hc h.1 (.inr hown)
  refine ⟨r, hr, ?_⟩
  rw [h.safe_iff, ← hiff]
  cases r <;> simp

theorem moved_to {b : Int → Int → char} {x y tox toy : Int} (hne : ¬ (tox = x ∧ toy = y)) :
    moved b x y tox toy tox toy = b x y := by
  rw [moved, put_other _ _ hne, put_self]

theorem moved_from (b : Int → Int → char) (x y tox toy : Int) : moved b x y tox toy x y = EMPTY := put_self _ _ _ _

theorem moved_other (b : Int → Int → char) {x y tox toy u v : Int} (h : ¬ (u = x ∧ v = y)) (h' : ¬ (u = tox ∧ v = toy)) :
    moved b x y tox toy u v = b u v := by
  rw [moved, put_other _ _ h, put_other _ _ h']

theorem not_king_empty {b : Int → Int → char} {x y : Int} {piece color : char} (h : b x y = EMPTY) (hp : piece ≠ 0) :
    ¬ Holds b x y piece color := by
  rintro ⟨hk, -⟩
  rw [h] at hk
  exact hp (hk.symm.trans (by decide))

theorem moved_alone {b : Int → Int → char} {color : char} {x y tox toy : Int} (h : Alone b color k)
    (hfrom : OnBoard x y) (hto : OnBoard tox toy) (hc : COLOR (b x y) = color) (hne : ¬ (tox = x ∧ toy = y))
    (hn : ¬ Holds b tox toy KING color) :
    Alone (moved b x y tox toy) color (if PIECE (b x y) = KING then (tox, toy) else k) := by
  refine ⟨by split_ifs; exacts [hto, h.1], fun u v huv => ?_⟩
  by_cases hking : PIECE (b x y) = KING
  · have hxy := (h.2 x y hfrom).1 ⟨hking, hc⟩
    rw [if_pos hking]
    by_cases hu : u = tox ∧ v = toy
    · obtain ⟨rfl, rfl⟩ := hu
      rw [Holds, moved_to hne]
      exact iff_of_true ⟨hking, hc⟩ ⟨rfl, rfl⟩
    refine iff_of_false ?_ hu
    by_cases hf : u = x ∧ v = y
    · obtain ⟨rfl, rfl⟩ := hf
      exact not_king_empty (moved_from _ _ _ _ _) (by decide)
    · rw [Holds, moved_other b hf hu]
      intro hk
      have := (h.2 u v huv).1 hk
      exact hf ⟨this.1.trans hxy.1.symm, this.2.trans hxy.2.symm⟩
  · rw [if_neg hking, ← h.2 u v huv]
    by_cases hf : u = x ∧ v = y
    · obtain ⟨rfl, rfl⟩ := hf
      exact iff_of_false (not_king_empty (moved_from _ _ _ _ _) (by decide)) fun hk => hking hk.1
    by_cases hu : u = tox ∧ v = toy
    · obtain ⟨rfl, rfl⟩ := hu
      rw [Holds, moved_to hne]
      exact iff_of_false (fun hk => hking hk.1) hn
    · rw [Holds, moved_other b hf hu]
      rfl

theorem NotOwn.not_holds {s : Engine} {color piece : char} {x y : Int} (h : NotOwn s color x y) (hp : piece ≠ 0) :
    ¬ Holds s.Board x y piece color := by
  rcases h with he | hc
  · exact not_king_empty he hp
  · exact fun hk => hc hk.2

structure Own (s : Engine) (color : char) (x y : Int) : Prop where
  on : OnBoard x y
  piece : s.Board x y ≠ EMPTY
  color : COLOR (s.Board x y) = color

theorem NotOwn.ne {s : Engine} {color : char} {x y tox toy : Int} (h : NotOwn s color tox toy) (ho : Own s color x y) :
    ¬ (tox = x ∧ toy = y) := by
  rintro ⟨rfl, rfl⟩
  rcases h with he | hc
  · exact ho.piece he
  · exact hc ho.color

theorem restored (b : Int → Int → char) (x y tox toy : Int) :
    put (put (put (put b tox toy (b x y)) x y EMPTY) x y (b x y)) tox toy (b tox toy) = b := by
  funext u v
  unfold put
  split_ifs with h1 h2
  · rw [h1.1, h1.2]
  · rw [h2.1, h2.2]
  · rfl

theorem king_ok_says {s : Engine} {color : char} (hc : color = BLACK ∨ color = WHITE)
    (hk : Alone s.Board color (kingOf s color)) (ho : Own s color s.FromX s.FromY) {tox toy : Int} (hto : OnBoard tox toy)
    (hn : NotOwn s color tox toy) : ∃ r, king_ok tox toy s = some (r, s) ∧
      (r = true ↔ Safe (moved s.Board s.FromX s.FromY tox toy) (pawnDirection s (OPPONENT color)) color) := by
  have halone := moved_alone hk ho.on hto ho.color (hn.ne ho) (hn.not_holds (by decide))
  obtain ⟨r, hr, hiff⟩ := checked_safe (s := { s with Board := moved s.Board s.FromX s.FromY tox toy }) hc halone
  refine ⟨r.isNone, ?_, hiff⟩
  unfold king_ok
  dsimp only
  rw [ho.color]
  rw [kingOf] at hr
  have hback := restored s.Board s.FromX s.FromY tox toy
  change (king_checked _ _ color { s with Board := moved s.Board s.FromX s.FromY tox toy }).map _ = _
  rw [hr, Option.map_some]
  exact congrArg (fun b => some (r.isNone, { s with Board := b })) hback

theorem test_move_says {s : Engine} {color : char} (hc : color = BLACK ∨ color = WHITE)
    (hk : Alone s.Board color (kingOf s color)) (ho : Own s color s.FromX s.FromY) {tox toy : Int} (hto : OnBoard tox toy)
    (hn : NotOwn s color tox toy) : ∃ msg, test_move tox toy s = some (msg, s) ∧ ∀ m, msg = some m ↔
      m = .PIECE_MOVE ∧ Safe (moved s.Board s.FromX s.FromY tox toy) (pawnDirection s (OPPONENT color)) color := by
  obtain ⟨r, hr, hiff⟩ := king_ok_says hc hk ho hto hn
  refine ⟨if r then some .PIECE_MOVE else none, by rw [test_move, hr]; rfl, fun m => ?_⟩
  rw [← hiff]
  cases r <;> simp [eq_comm]

theorem Alone.put {b : Int → Int → char} {c v : char} (h : Alone b c k) {x y : Int}
    (hn : ¬ Holds b x y KING c) (hv : ¬ (PIECE v = KING ∧ COLOR v = c)) : Alone (Chess.put b x y v) c k := by
  refine ⟨h.1, fun i j hij => ?_⟩
  rw [← h.2 i j hij]
  by_cases hi : i = x ∧ j = y
  · obtain ⟨rfl, rfl⟩ := hi
    rw [Holds, put_self]
    exact iff_of_false hv hn
  · rw [Holds, put_other _ _ hi]
    rfl

theorem empty_no_king (c : char) : ¬ (PIECE EMPTY = KING ∧ COLOR EMPTY = c) := fun h => absurd h.1 (by decide)

theorem test_passant_says {s : Engine} {color : char} (hc : color = BLACK ∨ color = WHITE)
    (hk : Alone s.Board color (kingOf s color)) (ho : Own s color s.FromX s.FromY) {tox toy : Int} (hto : OnBoard tox toy)
    (he : s.Board tox toy = EMPTY) (hp : COLOR (s.Board s.PassX s.PassY) ≠ color) :
    ∃ msg, test_passant tox toy s = some (msg, s) ∧ ∀ m, msg = some m ↔ m = .EN_PASSANT ∧
      Safe (moved (put s.Board s.PassX s.PassY EMPTY) s.FromX s.FromY tox toy) (pawnDirection s (OPPONENT color)) color := by
  have hfrom : put s.Board s.PassX s.PassY EMPTY s.FromX s.FromY = s.Board s.FromX s.FromY := by
    refine put_other _ _ fun h => hp ?_
    rw [← h.1, ← h.2]
    exact ho.color
  have hto' : put s.Board s.PassX s.PassY EMPTY tox toy = EMPTY := by
    unfold put
    split_ifs
    · rfl
    · exact he
  have ho' : Own { s with Board := put s.Board s.PassX s.PassY EMPTY } color s.FromX s.FromY :=
    ⟨ho.on, by dsimp only; rw [hfrom]; exact ho.piece, by dsimp only; rw [hfrom]; exact ho.color⟩
  obtain ⟨r, hr, hiff⟩ := king_ok_says (s := { s with Board := put s.Board s.PassX s.PassY EMPTY }) hc
    (hk.put (fun h => hp h.2) (empty_no_king color)) ho' hto (.inl hto')
  refine ⟨if r then some .EN_PASSANT else none, ?_, fun m => ?_⟩
  · have hback : put (put s.Board s.PassX s.PassY EMPTY) s.PassX s.PassY (s.Board s.PassX s.PassY) = s.Board := by
      funext u v
      unfold put
      split_ifs with h
      · rw [h.1, h.2]
      · rfl
    rw [test_passant]
    dsimp only
    rw [hr, Option.map_some]
    dsimp only
    rw [hback]
  · have hiff' : r = true ↔ Safe (moved (put s.Board s.PassX s.PassY EMPTY) s.FromX s.FromY tox toy)
        (pawnDirection s (OPPONENT color)) color := hiff
    rw [← hiff']
    cases r <;> simp [eq_comm]

theorem opponent_ne {color : char} (hc : color = BLACK ∨ color = WHITE) : OPPONENT color ≠ color := by
  obtain rfl | rfl := hc <;> decide

theorem shielded {b b' : Int → Int → char} {color : char} {dir d x y : Int} (hc : color = BLACK ∨ color = WHITE)
    (hdir : dir ≠ 0) (hd : d = 1 ∨ d = -1) (hoff : ∀ u v, v ≠ y → b' u v = b u v)
    (hback : ∀ u, (u - x) * d < 0 → b' u y = b u y) (hown : COLOR (b' (x + d) y) = color ∧ b' (x + d) y ≠ EMPTY)
    {u v : Int} (ha : Attacks b' (OPPONENT color) dir u v x y) : Attacks b (OPPONENT color) dir u v x y := by
  have hfront : ∀ p, Holds b' u v p (OPPONENT color) → ¬ (u = x + d ∧ v = y) := by
    rintro p hp ⟨rfl, rfl⟩
    exact opponent_ne hc (hp.2.symm.trans hown.1)
  -- a line that is not shut at once does not go to the side of the shield
  have hsees : ∀ p dx dy, Holds b' u v p (OPPONENT color) → Direction dx dy → Sees b' x y dx dy u v →
      b' u v = b u v ∧ Sees b x y dx dy u v := by
    rintro p dx dy hp hdd ⟨n, hn, hu, hv, he⟩
    have hsame : ∀ m : Nat, 1 ≤ m → b' (x + m * dx) (y + m * dy) = b (x + m * dx) (y + m * dy) := by
      intro m hm
      by_cases hdy : dy = 0
      · have hdx : dx = d ∨ dx = -d := by
          obtain ⟨h1, -, h3⟩ := hdd
          omega
        subst hdy
        rcases hdx with rfl | rfl
        · exfalso
          rcases Nat.lt_or_ge 1 n with hlt | hge
          · have := he 1 (le_refl 1) hlt
            rw [Nat.cast_one, one_mul, one_mul, add_zero] at this
            exact hown.2 this
          · obtain rfl : n = 1 := by omega
            refine hfront p hp ⟨?_, ?_⟩
            · rw [hu, Nat.cast_one, one_mul]
            · rw [hv, mul_zero, add_zero]
        · rw [mul_zero, add_zero]
          refine hback _ ?_
          have hd2 : d * d = 1 := by obtain rfl | rfl := hd <;> rfl
          rw [add_sub_cancel_left, mul_assoc, neg_mul, hd2]
          omega
      · refine hoff _ _ fun h => ?_
        have hmul : (m : Int) * dy = 0 := by omega
        rcases mul_eq_zero.1 hmul with h0 | h0
        · omega
        · exact hdy h0
    refine ⟨?_, n, hn, hu, hv, fun m h1 hm => ?_⟩
    · rw [hu, hv]
      exact hsame n hn
    · rw [← hsame m h1]
      exact he m h1 hm
  have hholds : ∀ {p}, b' u v = b u v → Holds b' u v p (OPPONENT color) → Holds b u v p (OPPONENT color) := by
    intro p h hp
    rwa [Holds, h] at hp
  cases ha with
  | knight hp hdist => exact .knight (hholds (hoff u v (by omega)) hp) hdist
  | rook hp dx dy hdd hs =>
    obtain ⟨h1, h2⟩ := hsees _ dx dy hp ⟨by omega, by omega, by omega⟩ hs
    exact .rook (hholds h1 hp) dx dy hdd h2
  | bishop hp dx dy hdd hs =>
    obtain ⟨h1, h2⟩ := hsees _ dx dy hp ⟨by omega, by omega, by omega⟩ hs
    exact .bishop (hholds h1 hp) dx dy hdd h2
  | queen hp dx dy hdd hs =>
    obtain ⟨h1, h2⟩ := hsees _ dx dy hp ⟨by omega, by omega, by omega⟩ hs
    exact .queen (hholds h1 hp) dx dy hdd h2
  | pawn hp hdist => exact .pawn (hholds (hoff u v (by omega)) hp) hdist
  | king hp hdist =>
    by_cases hv : v = y
    · subst hv
      refine .king (hholds (hback u ?_) hp) hdist
      have hnot := hfront _ hp
      have hx : u = x + 1 ∨ u = x - 1 := by omega
      obtain rfl | rfl := hd <;> omega
    · exact .king (hholds (hoff u v hv) hp) hdist

theorem direction_ne (s : Engine) (color : char) : pawnDirection s color ≠ 0 := by
  unfold pawnDirection
  split_ifs <;> decide

theorem shielded_checked {s : Engine} (b' : Int → Int → char) {color : char} {d x y : Int}
    (hc : color = BLACK ∨ color = WHITE) (hd : d = 1 ∨ d = -1) (hk : Alone s.Board color (x, y))
    (hoff : ∀ u v, v ≠ y → b' u v = s.Board u v) (hback : ∀ u, (u - x) * d < 0 → b' u y = s.Board u y)
    (hown : COLOR (b' (x + d) y) = color ∧ b' (x + d) y ≠ EMPTY) (hempty : b' x y = EMPTY)
    (hsafe : Safe s.Board (pawnDirection s (OPPONENT color)) color) :
    king_checked x y color { s with Board := b' } = some none := by
  obtain ⟨r, hr, hiff⟩ := checked_answers { s with Board := b' } hc hk.1 (.inl hempty)
  rw [hr]
  cases r with
  | none => rfl
  | some name =>
    obtain ⟨u, v, huv, ha⟩ := hiff.1 rfl
    exact absurd ⟨u, v, huv, shielded hc (direction_ne s _) hd hoff hback hown ha⟩ ((hk.safe_iff _).1 hsafe)

theorem king_place {s : Engine} {color : char} (hk : Alone s.Board color (kingOf s color)) {x y : Int}
    (ho : Own s color x y) (hp : PIECE (s.Board x y) = KING) : kingOf s color = (x, y) := by
  obtain ⟨h1, h2⟩ := (hk.2 x y ho.on).1 ⟨hp, ho.color⟩
  exact Prod.ext h1.symm h2.symm

theorem castle_way {s : Engine} {color : char} {x y d tox toy : Int} (hon : OnBoard x y) (hto : OnBoard tox toy)
    (hd : d = 1 ∨ d = -1) (hplace : tox = x + 2 * d ∧ toy = y) (hn : NotOwn s color tox toy)
    (hrook : s.Board (rookColumn d) y = ROOK ||| color) (hc : color = BLACK ∨ color = WHITE)
    (hclear : Clear s.Board x y (rookColumn d) y) :
    s.Board (x + d) y = EMPTY ∧ s.Board (x + 2 * d) y = EMPTY ∧ ((rookColumn d - x) * d ≥ 3) := by
  have hne : rookColumn d ≠ x + 2 * d := by
    intro he
    rw [hplace.1, hplace.2, ← he] at hn
    rcases hn with h | h
    · rw [hrook] at h
      obtain rfl | rfl := hc <;> exact absurd h (by decide)
    · rw [hrook] at h
      obtain rfl | rfl := hc <;> exact h (by decide)
  unfold OnBoard at hon hto
  have hfar : (rookColumn d - x) * d ≥ 3 := by
    unfold rookColumn at hne ⊢
    obtain rfl | rfl := hd
    · rw [if_pos (by decide)] at hne ⊢
      omega
    · rw [if_neg (by decide)] at hne ⊢
      omega
  have hsign : (rookColumn d - x).sign = d := by
    obtain rfl | rfl := hd
    · exact Int.sign_eq_one_of_pos (by omega)
    · exact Int.sign_eq_neg_one_of_neg (by omega)
  have hsteps : 3 ≤ steps x y (rookColumn d) y := by
    unfold steps
    obtain rfl | rfl := hd <;> split_ifs <;> omega
  have h1 := hclear 1 (le_refl 1) (by omega)
  have h2 := hclear 2 (by omega) (by omega)
  rw [hsign, sub_self, Int.sign_zero, mul_zero, add_zero] at h1 h2
  rw [Nat.cast_one, one_mul] at h1
  exact ⟨h1, h2, hfar⟩

theorem fortify_says {s : Engine} {color : char} (hc : color = BLACK ∨ color = WHITE)
    (hk : Alone s.Board color (kingOf s color)) (ho : Own s color s.FromX s.FromY)
    (hking : s.Board s.FromX s.FromY = KING ||| color) {tox toy : Int} (hto : OnBoard tox toy) (hn : NotOwn s color tox toy)
    (hrow : toy = s.FromY) (hw : (tox - s.FromX).natAbs = 2) : ∃ r, fortify tox toy color s = some (r, s) ∧
      (r = true ↔ ∃ d, MayCastle s color s.FromX s.FromY d tox toy) := by
  subst hrow
  obtain ⟨d, hd, htox⟩ : ∃ d : Int, (d = 1 ∨ d = -1) ∧ tox = s.FromX + 2 * d := by
    rcases (by omega : tox = s.FromX + 2 * 1 ∨ tox = s.FromX + 2 * (-1)) with h | h
    · exact ⟨1, .inl rfl, h⟩
    · exact ⟨-1, .inr rfl, h⟩
  have hsign : (tox - s.FromX).sign = d := by
    obtain rfl | rfl := hd
    · exact Int.sign_eq_one_of_pos (by omega)
    · exact Int.sign_eq_neg_one_of_neg (by omega)
  have honly : ∀ e, MayCastle s color s.FromX s.FromY e tox s.FromY → e = d := by
    intro e he
    have := he.place.1
    omega
  have hcolumn : (if 0 < d then (7 : Int) else 0) = rookColumn d := rfl
  unfold fortify
  dsimp only
  rw [hsign, hcolumn]
  by_cases hrook : s.Board (rookColumn d) s.FromY = ROOK ||| color
  swap
  · rw [if_pos hrook]
    refine ⟨false, rfl, iff_of_false Bool.false_ne_true ?_⟩
    rintro ⟨e, he⟩
    obtain rfl := honly e he
    exact hrook he.rook
  rw [if_neg (not_not.2 hrook)]
  have hon := ho.on
  have hcol : OnBoard (rookColumn d) s.FromY := by
    unfold OnBoard rookColumn at *
    split_ifs <;> omega
  have hapart : ¬ (s.FromX = rookColumn d ∧ s.FromY = s.FromY) := by
    rintro ⟨he, -⟩
    rw [← he] at hrook
    rw [hking] at hrook
    obtain rfl | rfl := hc <;> exact absurd hrook (by decide)
  obtain ⟨clear, hclear, hciff⟩ := clear2move_says s hon hcol hapart
  rw [hclear, Option.bind_some]
  cases clear with
  | false =>
    rw [if_neg Bool.false_ne_true]
    refine ⟨false, rfl, iff_of_false Bool.false_ne_true ?_⟩
    rintro ⟨e, he⟩
    obtain rfl := honly e he
    exact Bool.false_ne_true (hciff.2 he.clear)
  | true =>
    rw [if_pos rfl]
    have hway := castle_way hon hto hd ⟨htox, rfl⟩ hn hrook hc (hciff.1 rfl)
    have hat := king_place hk ho (by rw [hking]; obtain rfl | rfl := hc <;> decide)
    rw [hat] at hk
    obtain ⟨r, hr, hsafe⟩ := checked_safe hc hk
    have hr : king_checked s.FromX s.FromY color s = some r := hr
    rw [hr, Option.bind_some]
    cases r with
    | some name =>
      rw [if_pos (show (some name).isSome = true from rfl)]
      refine ⟨false, rfl, iff_of_false Bool.false_ne_true ?_⟩
      rintro ⟨e, he⟩
      exact absurd (hsafe.2 he.safe) (by simp)
    | none =>
      rw [if_neg (by simp)]
      have hs := hsafe.1 rfl
      have hd2 : d * d = 1 := by obtain rfl | rfl := hd <;> rfl
      have hd0 : d ≠ 0 := by obtain rfl | rfl := hd <;> decide
      have hcolors : (COLOR (KING ||| color) = color ∧ KING ||| color ≠ EMPTY) ∧
          COLOR (ROOK ||| color) = color ∧ ROOK ||| color ≠ EMPTY := by
        obtain rfl | rfl := hc <;> decide
      -- both times the king's own square is looked at, with a piece of the side next to it
      have h1 := shielded_checked
        (put (put (put s.Board (rookColumn d) s.FromY EMPTY) s.FromX s.FromY EMPTY) (s.FromX + d) s.FromY (KING ||| color))
        hc hd hk (fun u v hv => by
          rw [put_other _ _ fun h => hv h.2, put_other _ _ fun h => hv h.2, put_other _ _ fun h => hv h.2])
        (fun u hu => by
          rw [put_other, put_other, put_other]
          · rintro ⟨rfl, -⟩
            omega
          · rintro ⟨rfl, -⟩
            rw [sub_self, zero_mul] at hu
            omega
          · rintro ⟨rfl, -⟩
            rw [add_sub_cancel_left, hd2] at hu
            omega)
        (by
          rw [put_self]
          exact hcolors.1)
        (by rw [put_other _ _ (by omega), put_self]) hs
      have h2 := shielded_checked
        (put (put (put (put (put s.Board (rookColumn d) s.FromY EMPTY) s.FromX s.FromY EMPTY) (s.FromX + d) s.FromY
          (KING ||| color)) (s.FromX + d) s.FromY (ROOK ||| color)) (s.FromX + 2 * d) s.FromY (KING ||| color))
        hc hd hk (fun u v hv => by
          rw [put_other _ _ fun h => hv h.2, put_other _ _ fun h => hv h.2, put_other _ _ fun h => hv h.2,
            put_other _ _ fun h => hv h.2, put_other _ _ fun h => hv h.2])
        (fun u hu => by
          rw [put_other, put_other, put_other, put_other, put_other]
          · rintro ⟨rfl, -⟩
            omega
          · rintro ⟨rfl, -⟩
            rw [sub_self, zero_mul] at hu
            omega
          · rintro ⟨rfl, -⟩
            rw [add_sub_cancel_left, hd2] at hu
            omega
          · rintro ⟨rfl, -⟩
            rw [add_sub_cancel_left, hd2] at hu
            omega
          · rintro ⟨rfl, -⟩
            rw [add_sub_cancel_left, mul_assoc, hd2] at hu
            omega)
        (by
          rw [put_other _ _ (by omega), put_self]
          exact hcolors.2)
        (by rw [put_other _ _ (by omega), put_other _ _ (by omega), put_other _ _ (by omega), put_self]) hs
      have hback : put (put (put (put (put (put (put (put (put s.Board (rookColumn d) s.FromY EMPTY) s.FromX s.FromY EMPTY)
          (s.FromX + d) s.FromY (KING ||| color)) (s.FromX + d) s.FromY (ROOK ||| color)) (s.FromX + 2 * d) s.FromY
          (KING ||| color)) (s.FromX + 2 * d) s.FromY EMPTY) (s.FromX + d) s.FromY EMPTY) s.FromX s.FromY (KING ||| color))
          (rookColumn d) s.FromY (ROOK ||| color) = s.Board := by
        funext u v
        by_cases hr : u = rookColumn d ∧ v = s.FromY
        · rw [hr.1, hr.2, put_self, hrook]
        by_cases hf : u = s.FromX ∧ v = s.FromY
        · rw [put_other _ _ hr, hf.1, hf.2, put_self, hking]
        by_cases h1 : u = s.FromX + d ∧ v = s.FromY
        · rw [put_other _ _ hr, put_other _ _ hf, h1.1, h1.2, put_self, hway.1]
        by_cases h2 : u = s.FromX + 2 * d ∧ v = s.FromY
        · rw [put_other _ _ hr, put_other _ _ hf, put_other _ _ h1, h2.1, h2.2, put_self, hway.2.1]
        rw [put_other _ _ hr, put_other _ _ hf, put_other _ _ h1, put_other _ _ h2, put_other _ _ h2, put_other _ _ h1,
          put_other _ _ h1, put_other _ _ hf, put_other _ _ hr]
      rw [h1, Option.bind_some, if_neg (by simp), h2, Option.map_some, hback]
      refine ⟨true, rfl, iff_of_true rfl ⟨d, ?_⟩⟩
      exact ⟨hking, hd, ⟨htox, rfl⟩, hrook, hciff.1 rfl, by rw [htox]; exact hway.2.1, hs⟩

theorem Direction.cases {dx dy : Int} (h : Direction dx dy) :
    dx = 0 ∧ (dy = 1 ∨ dy = -1) ∨ (dx = 1 ∨ dx = -1) ∧ (dy = 0 ∨ dy = 1 ∨ dy = -1) := by
  obtain ⟨h1, h2, h3⟩ := h
  omega

theorem clear_line {b : Int → Int → char} {x y tox toy dx dy : Int} {n : Nat} (hn : 1 ≤ n) (hd : Direction dx dy)
    (hx : x = tox + n * dx) (hy : y = toy + n * dy) :
    Clear b x y tox toy ↔ ∀ m : Nat, 1 ≤ m → m < n → b (tox + m * dx) (toy + m * dy) = EMPTY := by
  have hsign : ∀ e : Int, (e = 0 ∨ e = 1 ∨ e = -1) → (-((n : Int) * e)).sign = -e := by
    rintro e (rfl | rfl | rfl)
    · rw [mul_zero]
      rfl
    · exact Int.sign_eq_neg_one_of_neg (by omega)
    · exact Int.sign_eq_one_of_pos (by omega)
  have hsx : (tox - x).sign = -dx := by
    rw [hx, sub_add_cancel_left]
    exact hsign dx (by have := hd.cases; omega)
  have hsy : (toy - y).sign = -dy := by
    rw [hy, sub_add_cancel_left]
    exact hsign dy (by have := hd.cases; omega)
  have hsteps : steps x y tox toy = n := by
    unfold steps
    rcases hd.cases with ⟨rfl, rfl | rfl⟩ | ⟨rfl | rfl, rfl | rfl | rfl⟩ <;> split_ifs <;> omega
  have hflip : ∀ m : Nat, m ≤ n → x + m * -dx = tox + (n - m : Nat) * dx ∧ y + m * -dy = toy + (n - m : Nat) * dy := by
    intro m hm
    rw [hx, hy, Nat.cast_sub hm]
    constructor <;> ring
  unfold Clear
  rw [hsteps, hsx, hsy]
  constructor
  · intro h m h1 hm
    have := h (n - m) (by omega) (by omega)
    rwa [(hflip (n - m) (by omega)).1, (hflip (n - m) (by omega)).2, Nat.sub_sub_self hm.le] at this
  · intro h m h1 hm
    rw [(hflip m hm.le).1, (hflip m hm.le).2]
    exact h (n - m) (by omega) (by omega)

theorem sees_iff {b : Int → Int → char} {x y tox toy : Int} {P : Int → Int → Prop} {Q : Prop}
    (hP : ∀ dx dy, P dx dy → Direction dx dy)
    (hto : ∀ (n : Nat) dx dy, 1 ≤ n → P dx dy → x = tox + n * dx → y = toy + n * dy → Q)
    (hfrom : Q → ∃ (n : Nat) (dx dy : Int), 1 ≤ n ∧ P dx dy ∧ x = tox + n * dx ∧ y = toy + n * dy) :
    (∃ dx dy, P dx dy ∧ Sees b tox toy dx dy x y) ↔ Q ∧ Clear b x y tox toy := by
  constructor
  · rintro ⟨dx, dy, hd, n, hn, hx, hy, he⟩
    exact ⟨hto n dx dy hn hd hx hy, (clear_line hn (hP dx dy hd) hx hy).2 he⟩
  · rintro ⟨hq, hc⟩
    obtain ⟨n, dx, dy, hn, hd, hx, hy⟩ := hfrom hq
    exact ⟨dx, dy, hd, n, hn, hx, hy, (clear_line hn (hP dx dy hd) hx hy).1 hc⟩

theorem straight_iff {b : Int → Int → char} {x y tox toy : Int} (hne : ¬ (tox = x ∧ toy = y)) :
    (∃ dx dy, dx.natAbs + dy.natAbs = 1 ∧ Sees b tox toy dx dy x y) ↔
      ¬ ((tox - x).natAbs ≠ 0 ∧ (toy - y).natAbs ≠ 0) ∧ Clear b x y tox toy := by
  refine sees_iff (fun dx dy h => ⟨by omega, by omega, by omega⟩) ?_ ?_
  · intro n dx dy hn hd hx hy
    rcases (by omega : dx = 0 ∧ (dy = 1 ∨ dy = -1) ∨ (dx = 1 ∨ dx = -1) ∧ dy = 0) with
      ⟨rfl, rfl | rfl⟩ | ⟨rfl | rfl, rfl⟩ <;> omega
  · intro hq
    rcases lt_trichotomy x tox with hx | hx | hx
    · exact ⟨(tox - x).natAbs, -1, 0, by omega, by decide, by omega, by omega⟩
    · rcases lt_trichotomy y toy with hy | hy | hy
      · exact ⟨(toy - y).natAbs, 0, -1, by omega, by decide, by omega, by omega⟩
      · exact absurd ⟨hx.symm, hy.symm⟩ hne
      · exact ⟨(toy - y).natAbs, 0, 1, by omega, by decide, by omega, by omega⟩
    · exact ⟨(tox - x).natAbs, 1, 0, by omega, by decide, by omega, by omega⟩

theorem diagonal_iff {b : Int → Int → char} {x y tox toy : Int} (hne : ¬ (tox = x ∧ toy = y)) :
    (∃ dx dy, (dx.natAbs = 1 ∧ dy.natAbs = 1) ∧ Sees b tox toy dx dy x y) ↔
      (tox - x).natAbs = (toy - y).natAbs ∧ Clear b x y tox toy := by
  refine sees_iff (fun dx dy h => ⟨by omega, by omega, by omega⟩) ?_ ?_
  · intro n dx dy hn hd hx hy
    rcases (by omega : (dx = 1 ∨ dx = -1) ∧ (dy = 1 ∨ dy = -1)) with ⟨rfl | rfl, rfl | rfl⟩ <;> omega
  · intro hq
    rcases lt_or_gt_of_ne (by omega : x ≠ tox) with hx | hx <;> rcases lt_or_gt_of_ne (by omega : y ≠ toy) with hy | hy
    · exact ⟨(tox - x).natAbs, -1, -1, by omega, by decide, by omega, by omega⟩
    · exact ⟨(tox - x).natAbs, -1, 1, by omega, by decide, by omega, by omega⟩
    · exact ⟨(tox - x).natAbs, 1, -1, by omega, by decide, by omega, by omega⟩
    · exact ⟨(tox - x).natAbs, 1, 1, by omega, by decide, by omega, by omega⟩

theorem any_line_iff {b : Int → Int → char} {x y tox toy : Int} (hne : ¬ (tox = x ∧ toy = y)) :
    (∃ dx dy, max dx.natAbs dy.natAbs = 1 ∧ Sees b tox toy dx dy x y) ↔
      ¬ ((tox - x).natAbs ≠ 0 ∧ (toy - y).natAbs ≠ 0) ∧ Clear b x y tox toy ∨
        (tox - x).natAbs = (toy - y).natAbs ∧ Clear b x y tox toy := by
  rw [← straight_iff hne, ← diagonal_iff hne]
  constructor
  · rintro ⟨dx, dy, hd, hs⟩
    rcases (by omega : dx.natAbs + dy.natAbs = 1 ∨ dx.natAbs = 1 ∧ dy.natAbs = 1) with h | h
    · exact .inl ⟨dx, dy, h, hs⟩
    · exact .inr ⟨dx, dy, h, hs⟩
  · rintro (⟨dx, dy, hd, hs⟩ | ⟨dx, dy, hd, hs⟩)
    · exact ⟨dx, dy, by omega, hs⟩
    · exact ⟨dx, dy, by omega, hs⟩

section Attack

variable {b : Int → Int → char} {color : char} {dir x y tox toy : Int}

theorem attacks_rook (hc : COLOR (b x y) = color) (hp : PIECE (b x y) = ROOK) :
    Attacks b color dir x y tox toy ↔ ∃ dx dy, dx.natAbs + dy.natAbs = 1 ∧ Sees b tox toy dx dy x y := by
  refine ⟨fun h => ?_, fun ⟨dx, dy, hd, hs⟩ => .rook ⟨hp, hc⟩ dx dy hd hs⟩
  cases h with
  | rook _ dx dy hd hs => exact ⟨dx, dy, hd, hs⟩
  | knight h => exact absurd (h.1.symm.trans hp) (by decide)
  | bishop h => exact absurd (h.1.symm.trans hp) (by decide)
  | queen h => exact absurd (h.1.symm.trans hp) (by decide)
  | pawn h => exact absurd (h.1.symm.trans hp) (by decide)
  | king h => exact absurd (h.1.symm.trans hp) (by decide)

theorem attacks_bishop (hc : COLOR (b x y) = color) (hp : PIECE (b x y) = BISHOP) :
    Attacks b color dir x y tox toy ↔ ∃ dx dy, (dx.natAbs = 1 ∧ dy.natAbs = 1) ∧ Sees b tox toy dx dy x y := by
  refine ⟨fun h => ?_, fun ⟨dx, dy, hd, hs⟩ => .bishop ⟨hp, hc⟩ dx dy hd hs⟩
  cases h with
  | bishop _ dx dy hd hs => exact ⟨dx, dy, hd, hs⟩
  | knight h => exact absurd (h.1.symm.trans hp) (by decide)
  | rook h => exact absurd (h.1.symm.trans hp) (by decide)
  | queen h => exact absurd (h.1.symm.trans hp) (by decide)
  | pawn h => exact absurd (h.1.symm.trans hp) (by decide)
  | king h => exact absurd (h.1.symm.trans hp) (by decide)

theorem attacks_queen (hc : COLOR (b x y) = color) (hp : PIECE (b x y) = QUEEN) :
    Attacks b color dir x y tox toy ↔ ∃ dx dy, max dx.natAbs dy.natAbs = 1 ∧ Sees b tox toy dx dy x y := by
  refine ⟨fun h => ?_, fun ⟨dx, dy, hd, hs⟩ => .queen ⟨hp, hc⟩ dx dy hd hs⟩
  cases h with
  | queen _ dx dy hd hs => exact ⟨dx, dy, hd, hs⟩
  | knight h => exact absurd (h.1.symm.trans hp) (by decide)
  | rook h => exact absurd (h.1.symm.trans hp) (by decide)
  | bishop h => exact absurd (h.1.symm.trans hp) (by decide)
  | pawn h => exact absurd (h.1.symm.trans hp) (by decide)
  | king h => exact absurd (h.1.symm.trans hp) (by decide)

theorem attacks_knight (hc : COLOR (b x y) = color) (hp : PIECE (b x y) = KNIGHT) : Attacks b color dir x y tox toy ↔
      (x - tox).natAbs = 1 ∧ (y - toy).natAbs = 2 ∨ (x - tox).natAbs = 2 ∧ (y - toy).natAbs = 1 := by
  refine ⟨fun h => ?_, fun h => .knight ⟨hp, hc⟩ h⟩
  cases h with
  | knight _ hd => exact hd
  | rook h => exact absurd (h.1.symm.trans hp) (by decide)
  | bishop h => exact absurd (h.1.symm.trans hp) (by decide)
  | queen h => exact absurd (h.1.symm.trans hp) (by decide)
  | pawn h => exact absurd (h.1.symm.trans hp) (by decide)
  | king h => exact absurd (h.1.symm.trans hp) (by decide)

theorem attacks_king (hc : COLOR (b x y) = color) (hp : PIECE (b x y) = KING) :
    Attacks b color dir x y tox toy ↔ max (x - tox).natAbs (y - toy).natAbs = 1 := by
  refine ⟨fun h => ?_, fun h => .king ⟨hp, hc⟩ h⟩
  cases h with
  | king _ hd => exact hd
  | rook h => exact absurd (h.1.symm.trans hp) (by decide)
  | bishop h => exact absurd (h.1.symm.trans hp) (by decide)
  | queen h => exact absurd (h.1.symm.trans hp) (by decide)
  | pawn h => exact absurd (h.1.symm.trans hp) (by decide)
  | knight h => exact absurd (h.1.symm.trans hp) (by decide)

theorem attacks_pawn (hc : COLOR (b x y) = color) (hp : PIECE (b x y) = PAWN) :
    Attacks b color dir x y tox toy ↔ (x - tox).natAbs = 1 ∧ toy = y + dir := by
  refine ⟨fun h => ?_, fun h => .pawn ⟨hp, hc⟩ h⟩
  cases h with
  | pawn _ hd => exact hd
  | rook h => exact absurd (h.1.symm.trans hp) (by decide)
  | bishop h => exact absurd (h.1.symm.trans hp) (by decide)
  | queen h => exact absurd (h.1.symm.trans hp) (by decide)
  | king h => exact absurd (h.1.symm.trans hp) (by decide)
  | knight h => exact absurd (h.1.symm.trans hp) (by decide)

theorem goes_piece (hp : PIECE (b x y) ≠ PAWN) : Goes b color dir x y tox toy ↔ Attacks b color dir x y tox toy := by
  refine ⟨fun h => ?_, fun h => .piece hp h⟩
  cases h with
  | piece _ ha => exact ha
  | eats h => exact absurd h hp
  | one h => exact absurd h hp
  | two h => exact absurd h hp

end Attack

structure Position (s : Engine) (color : char) : Prop where
  colors : s.Mine.color = BLACK ∧ s.Your.color = WHITE ∨ s.Mine.color = WHITE ∧ s.Your.color = BLACK
  turn : color = BLACK ∨ color = WHITE
  pieces : ∀ x y, OnBoard x y → s.Board x y = EMPTY ∨ PIECE (s.Board x y) ∈ [ROOK, KNIGHT, BISHOP, QUEEN, KING, PAWN]
  kings : ∀ c, c = BLACK ∨ c = WHITE → Alone s.Board c (kingOf s c)
  pass : OnBoard s.PassX s.PassY → s.Board s.PassX s.PassY ≠ EMPTY ∧ COLOR (s.Board s.PassX s.PassY) = OPPONENT color ∧
    PIECE (s.Board s.PassX s.PassY) ≠ KING
  quiet : Safe s.Board (pawnDirection s color) (OPPONENT color)

/-- What `check_move` lets go: a bishop needs to go along a diagonal or to have a clear way, not both, and a castling
king only its own square. -/
inductive Accepted (s : Engine) (color : char) (x y tox toy : Int) : Message → Prop
  | move (hn : NotOwn s color tox toy) (hg : Goes s.Board color (pawnDirection s color) x y tox toy ∨
      PIECE (s.Board x y) = BISHOP ∧ ((tox - x).natAbs = (toy - y).natAbs ∨ Clear s.Board x y tox toy))
    (hs : Safe (moved s.Board x y tox toy) (pawnDirection s (OPPONENT color)) color) : Accepted s color x y tox toy .PIECE_MOVE
  | passant (hp : PIECE (s.Board x y) = PAWN) (ha : Attacks s.Board color (pawnDirection s color) x y tox toy)
    (hn : s.Board tox toy = EMPTY) (hpass : tox = s.PassX ∧ y = s.PassY)
    (hs : Safe (moved (put s.Board s.PassX s.PassY EMPTY) x y tox toy) (pawnDirection s (OPPONENT color)) color) :
    Accepted s color x y tox toy .EN_PASSANT
  | castle (d : Int) (hm : MayCastle s color x y d tox toy) : Accepted s color x y tox toy .HIDE_KING

section Check

variable {s : Engine} {color : char} {tox toy : Int}

theorem piece_king {color : char} (hc : color = BLACK ∨ color = WHITE) : PIECE (KING ||| color) = KING := by
  obtain rfl | rfl := hc <;> decide

theorem accepted_piece (h : Position s color) (hp : PIECE (s.Board s.FromX s.FromY) ≠ PAWN)
    (hking : PIECE (s.Board s.FromX s.FromY) ≠ KING) (hn : NotOwn s color tox toy) {P : Prop}
    (hP : (Attacks s.Board color (pawnDirection s color) s.FromX s.FromY tox toy ∨ PIECE (s.Board s.FromX s.FromY) = BISHOP ∧
      ((tox - s.FromX).natAbs = (toy - s.FromY).natAbs ∨ Clear s.Board s.FromX s.FromY tox toy)) ↔ P) (m : Message) :
    Accepted s color s.FromX s.FromY tox toy m ↔
      P ∧ m = .PIECE_MOVE ∧ Safe (moved s.Board s.FromX s.FromY tox toy) (pawnDirection s (OPPONENT color)) color := by
  constructor
  · intro ha
    cases ha with
    | move _ hg hs => exact ⟨hP.1 (hg.imp_left (goes_piece hp).1), rfl, hs⟩
    | passant he => exact absurd he hp
    | castle d hm => exact absurd (by rw [hm.king]; exact piece_king h.turn) hking
  · rintro ⟨hp', rfl, hs⟩
    exact .move hn ((hP.2 hp').imp_left (goes_piece hp).2) hs

theorem go_says (h : Position s color) (ho : Own s color s.FromX s.FromY) (hto : OnBoard tox toy) (hn : NotOwn s color tox toy)
    {a : Option Bool} {P : Prop} (ha : Says a P) :
    ∃ msg, (a.bind fun ok => if ok then test_move tox toy s else some (none, s)) = some (msg, s) ∧ ∀ m, msg = some m ↔
      P ∧ m = .PIECE_MOVE ∧ Safe (moved s.Board s.FromX s.FromY tox toy) (pawnDirection s (OPPONENT color)) color := by
  obtain ⟨r, rfl, hr⟩ := ha
  rw [Option.bind_some]
  cases r with
  | true =>
    obtain ⟨msg, ht, hm⟩ := test_move_says h.turn (h.kings color h.turn) ho hto hn
    refine ⟨msg, by rw [if_pos rfl, ht], fun m => ?_⟩
    rw [hm m]
    exact (and_iff_right (hr.1 rfl)).symm
  | false =>
    refine ⟨none, if_neg Bool.false_ne_true, fun m => iff_of_false (by simp) fun hp => ?_⟩
    exact Bool.false_ne_true (hr.2 hp.1)

theorem Says.decide (P : Prop) [Decidable P] : Says (some (decide P)) P := ⟨_, rfl, decide_eq_true_iff⟩

theorem king_flags {c color : char} (hp : PIECE c = KING) (hc : COLOR c = color) : c &&& MOVED = 0 ↔ c = KING ||| color := by
  have hall : ∀ c : char, PIECE c = KING → (c &&& MOVED = 0 ↔ c = KING ||| COLOR c) := by decide
  rw [← hc]
  exact hall c hp

theorem king_says_move (h : Position s color) (ho : Own s color s.FromX s.FromY) (hto : OnBoard tox toy)
    (hn : NotOwn s color tox toy) (hp : PIECE (s.Board s.FromX s.FromY) = KING) : ∃ msg,
    (if (tox - s.FromX).natAbs < 2 ∧ (toy - s.FromY).natAbs < 2 then test_move tox toy s
      else if (toy - s.FromY).natAbs = 0 ∧ (tox - s.FromX).natAbs = 2 ∧ s.Board s.FromX s.FromY &&& MOVED = 0 then
        (fortify tox toy color s).map fun (ok, s) => (if ok then some .HIDE_KING else none, s)
      else some (none, s)) = some (msg, s) ∧ ∀ m, msg = some m ↔ Accepted s color s.FromX s.FromY tox toy m := by
  have hne := hn.ne ho
  have hpawn : PIECE (s.Board s.FromX s.FromY) ≠ PAWN := by rw [hp]; decide
  have hbishop : PIECE (s.Board s.FromX s.FromY) ≠ BISHOP := by rw [hp]; decide
  have hgoes : Goes s.Board color (pawnDirection s color) s.FromX s.FromY tox toy ↔ _ :=
    (goes_piece hpawn).trans (attacks_king ho.color hp)
  by_cases hnear : (tox - s.FromX).natAbs < 2 ∧ (toy - s.FromY).natAbs < 2
  · rw [if_pos hnear]
    obtain ⟨msg, ht, hm⟩ := test_move_says h.turn (h.kings color h.turn) ho hto hn
    refine ⟨msg, ht, fun m => (hm m).trans ⟨?_, fun ha => ?_⟩⟩
    · rintro ⟨rfl, hs⟩
      exact .move hn (.inl (hgoes.2 (by omega))) hs
    · cases ha with
      | move _ _ hs => exact ⟨rfl, hs⟩
      | passant he => exact absurd he hpawn
      | castle d hm =>
        have := hm.place
        have := hm.dir
        omega
  rw [if_neg hnear]
  have hfar : ∀ m, Accepted s color s.FromX s.FromY tox toy m ↔ m = .HIDE_KING ∧ ∃ d, MayCastle s color s.FromX s.FromY d tox toy := by
    intro m
    constructor
    · intro ha
      cases ha with
      | move _ hg _ =>
        rcases hg with hg | hg
        · have := hgoes.1 hg
          omega
        · exact absurd hg.1 hbishop
      | passant he => exact absurd he hpawn
      | castle d hm => exact ⟨rfl, d, hm⟩
    · rintro ⟨rfl, d, hm⟩
      exact .castle d hm
  simp only [hfar]
  by_cases hrow : (toy - s.FromY).natAbs = 0 ∧ (tox - s.FromX).natAbs = 2 ∧ s.Board s.FromX s.FromY &&& MOVED = 0
  · rw [if_pos hrow]
    obtain ⟨r, hr, hiff⟩ := fortify_says h.turn (h.kings color h.turn) ho ((king_flags hp ho.color).1 hrow.2.2) hto hn
      (by omega) hrow.2.1
    refine ⟨if r then some .HIDE_KING else none, by rw [hr]; rfl, fun m => ?_⟩
    rw [← hiff]
    cases r <;> simp [eq_comm]
  · rw [if_neg hrow]
    refine ⟨none, rfl, fun m => iff_of_false (by simp) ?_⟩
    rintro ⟨-, d, hm⟩
    have h1 := hm.place
    have h2 := hm.dir
    exact hrow ⟨by omega, by omega, (king_flags hp ho.color).2 hm.king⟩

theorem pawn_direction (h : Position s color) :
    color = s.Mine.color ∧ color ≠ s.Your.color ∧ pawnDirection s color = -1 ∨
      color = s.Your.color ∧ color ≠ s.Mine.color ∧ pawnDirection s color = 1 := by
  unfold pawnDirection
  rcases h.colors with ⟨h1, h2⟩ | ⟨h1, h2⟩ <;> rcases h.turn with rfl | rfl <;> rw [h1, h2] <;> decide

theorem accepted_pawn (hp : PIECE (s.Board s.FromX s.FromY) = PAWN) (h : Position s color) (m : Message) :
    Accepted s color s.FromX s.FromY tox toy m ↔
      (m = .PIECE_MOVE ∧ NotOwn s color tox toy ∧ Goes s.Board color (pawnDirection s color) s.FromX s.FromY tox toy ∧
        Safe (moved s.Board s.FromX s.FromY tox toy) (pawnDirection s (OPPONENT color)) color) ∨
      (m = .EN_PASSANT ∧ Attacks s.Board color (pawnDirection s color) s.FromX s.FromY tox toy ∧ s.Board tox toy = EMPTY ∧
        (tox = s.PassX ∧ s.FromY = s.PassY) ∧ Safe (moved (put s.Board s.PassX s.PassY EMPTY) s.FromX s.FromY tox toy)
          (pawnDirection s (OPPONENT color)) color) := by
  constructor
  · intro ha
    cases ha with
    | move hn hg hs =>
      refine .inl ⟨rfl, hn, hg.resolve_right fun hb => ?_, hs⟩
      exact absurd (hb.1.symm.trans hp) (by decide)
    | passant _ ha hn hpass hs => exact .inr ⟨rfl, ha, hn, hpass, hs⟩
    | castle d hm =>
      have := (piece_king h.turn).symm.trans ((congrArg PIECE hm.king).symm.trans hp)
      exact absurd this (by decide)
  · rintro (⟨rfl, hn, hg, hs⟩ | ⟨rfl, ha, hn, hpass, hs⟩)
    · exact .move hn (.inl hg) hs
    · exact .passant hp ha hn hpass hs

theorem pawn_says (h : Position s color) (ho : Own s color s.FromX s.FromY) (hto : OnBoard tox toy)
    (hn : NotOwn s color tox toy) (hp : PIECE (s.Board s.FromX s.FromY) = PAWN) : ∃ msg,
    (if color = s.Mine.color ∧ s.FromY ≤ toy ∨ color = s.Your.color ∧ s.FromY ≥ toy then some (none, s)
      else if (tox - s.FromX).natAbs = 1 ∧ (toy - s.FromY).natAbs = 1 then
        if s.Board tox toy = EMPTY then
          if tox = s.PassX ∧ s.FromY = s.PassY then test_passant tox toy s else some (none, s) else test_move tox toy s
      else if s.Board tox toy = EMPTY ∧ (tox - s.FromX).natAbs = 0 ∧ ((toy - s.FromY).natAbs = 1 ∨ (toy - s.FromY).natAbs = 2 ∧
          s.Board tox (toy + (s.FromY - toy).sign) = EMPTY ∧ s.Board s.FromX s.FromY &&& MOVED = 0) then
        test_move tox toy s
      else some (none, s)) = some (msg, s) ∧ ∀ m, msg = some m ↔ Accepted s color s.FromX s.FromY tox toy m := by
  have hattack : Attacks s.Board color (pawnDirection s color) s.FromX s.FromY tox toy ↔ _ := attacks_pawn ho.color hp
  have hdir := pawn_direction h
  have hgoes : Goes s.Board color (pawnDirection s color) s.FromX s.FromY tox toy ↔
      ((s.FromX - tox).natAbs = 1 ∧ toy = s.FromY + pawnDirection s color) ∧ s.Board tox toy ≠ EMPTY ∨
      (tox = s.FromX ∧ toy = s.FromY + pawnDirection s color) ∧ s.Board tox toy = EMPTY ∨
      (tox = s.FromX ∧ toy = s.FromY + 2 * pawnDirection s color) ∧ s.Board s.FromX s.FromY &&& MOVED = 0 ∧
        s.Board s.FromX (s.FromY + pawnDirection s color) = EMPTY ∧ s.Board tox toy = EMPTY := by
    constructor
    · intro hg
      cases hg with
      | piece hnot => exact absurd hp hnot
      | eats _ ha he => exact .inl ⟨hattack.1 ha, he⟩
      | one _ hx hy he => exact .inr (.inl ⟨⟨hx, hy⟩, he⟩)
      | two _ hm hx hy he => exact .inr (.inr ⟨⟨hx, hy⟩, hm, he⟩)
    · rintro (⟨ha, he⟩ | ⟨⟨hx, hy⟩, he⟩ | ⟨⟨hx, hy⟩, hm, he⟩)
      · exact .eats hp (hattack.2 ha) he
      · exact .one hp hx hy he
      · exact .two hp hm hx hy he
  simp only [accepted_pawn hp h, hgoes, hattack]
  by_cases hback : color = s.Mine.color ∧ s.FromY ≤ toy ∨ color = s.Your.color ∧ s.FromY ≥ toy
  · rw [if_pos hback]
    refine ⟨none, rfl, fun m => iff_of_false (by simp) ?_⟩
    have hwrong : ¬ (toy = s.FromY + pawnDirection s color) ∧ ¬ (toy = s.FromY + 2 * pawnDirection s color) := by
      rcases hdir with ⟨h1, h2, h3⟩ | ⟨h1, h2, h3⟩ <;> rw [h3] <;> rcases hback with ⟨h4, h5⟩ | ⟨h4, h5⟩
      · omega
      · exact absurd h4 h2
      · exact absurd h4 h2
      · omega
    rintro (⟨-, -, ⟨⟨-, h1⟩, -⟩ | ⟨⟨-, h1⟩, -⟩ | ⟨⟨-, h1⟩, -⟩, -⟩ | ⟨-, ⟨-, h1⟩, -⟩)
    · exact hwrong.1 h1
    · exact hwrong.1 h1
    · exact hwrong.2 h1
    · exact hwrong.1 h1
  rw [if_neg hback]
  have hforward : ((toy - s.FromY).natAbs = 1 ↔ toy = s.FromY + pawnDirection s color) ∧
      ((toy - s.FromY).natAbs = 2 ↔ toy = s.FromY + 2 * pawnDirection s color) ∧
      (toy = s.FromY + 2 * pawnDirection s color → toy + (s.FromY - toy).sign = s.FromY + pawnDirection s color) ∧
      s.FromY + pawnDirection s color ≠ s.FromY + 2 * pawnDirection s color := by
    rcases hdir with ⟨h1, h2, h3⟩ | ⟨h1, h2, h3⟩ <;> rw [h3]
    · have hlt : toy < s.FromY := lt_of_not_ge fun hle => hback (.inl ⟨h1, hle⟩)
      rw [Int.sign_eq_one_of_pos (by omega : 0 < s.FromY - toy)]
      omega
    · have hlt : s.FromY < toy := lt_of_not_ge fun hle => hback (.inr ⟨h1, hle⟩)
      rw [Int.sign_eq_neg_one_of_neg (by omega : s.FromY - toy < 0)]
      omega
  obtain ⟨hone, htwo, hmiddle, hapart⟩ := hforward
  have hnone : ∀ m, ¬ (none : Option Message) = some m := by simp
  by_cases hdiag : (tox - s.FromX).natAbs = 1 ∧ (toy - s.FromY).natAbs = 1
  · rw [if_pos hdiag]
    have hx : (s.FromX - tox).natAbs = 1 := by omega
    have hx' : tox ≠ s.FromX := by omega
    have hy := hone.1 hdiag.2
    by_cases hempty : s.Board tox toy = EMPTY
    · rw [if_pos hempty]
      by_cases hpass : tox = s.PassX ∧ s.FromY = s.PassY
      · rw [if_pos hpass]
        have hpon : OnBoard s.PassX s.PassY := by
          have hon := ho.on
          rw [← hpass.1, ← hpass.2]
          unfold OnBoard at *
          omega
        obtain ⟨msg, ht, hm⟩ := test_passant_says h.turn (h.kings color h.turn) ho hto hempty fun hc =>
          opponent_ne h.turn ((h.pass hpon).2.1.symm.trans hc)
        refine ⟨msg, ht, fun m => (hm m).trans ⟨?_, ?_⟩⟩
        · rintro ⟨hm, hs⟩
          exact .inr ⟨hm, ⟨hx, hy⟩, hempty, hpass, hs⟩
        · rintro (⟨-, -, ⟨-, he⟩ | ⟨⟨he, -⟩, -⟩ | ⟨⟨he, -⟩, -⟩, -⟩ | ⟨hm, -, -, -, hs⟩)
          · exact absurd hempty he
          · exact absurd he hx'
          · exact absurd he hx'
          · exact ⟨hm, hs⟩
      · rw [if_neg hpass]
        refine ⟨none, rfl, fun m => iff_of_false (hnone m) ?_⟩
        rintro (⟨-, -, ⟨-, he⟩ | ⟨⟨he, -⟩, -⟩ | ⟨⟨he, -⟩, -⟩, -⟩ | ⟨-, -, -, he, -⟩)
        · exact he hempty
        · exact hx' he
        · exact hx' he
        · exact hpass he
    · rw [if_neg hempty]
      obtain ⟨msg, ht, hm⟩ := test_move_says h.turn (h.kings color h.turn) ho hto hn
      refine ⟨msg, ht, fun m => (hm m).trans ⟨?_, ?_⟩⟩
      · rintro ⟨hm, hs⟩
        exact .inl ⟨hm, hn, .inl ⟨⟨hx, hy⟩, hempty⟩, hs⟩
      · rintro (⟨hm, -, -, hs⟩ | ⟨-, -, he, -⟩)
        · exact ⟨hm, hs⟩
        · exact absurd he hempty
  rw [if_neg hdiag]
  have hnot : ¬ ((s.FromX - tox).natAbs = 1 ∧ toy = s.FromY + pawnDirection s color) := by
    rintro ⟨h1, h2⟩
    exact hdiag ⟨by omega, hone.2 h2⟩
  by_cases hpush : s.Board tox toy = EMPTY ∧ (tox - s.FromX).natAbs = 0 ∧ ((toy - s.FromY).natAbs = 1 ∨
      (toy - s.FromY).natAbs = 2 ∧ s.Board tox (toy + (s.FromY - toy).sign) = EMPTY ∧ s.Board s.FromX s.FromY &&& MOVED = 0)
  · rw [if_pos hpush]
    obtain ⟨hempty, hx, hy⟩ := hpush
    have hx : tox = s.FromX := by omega
    obtain ⟨msg, ht, hm⟩ := test_move_says h.turn (h.kings color h.turn) ho hto hn
    refine ⟨msg, ht, fun m => (hm m).trans ⟨?_, ?_⟩⟩
    · rintro ⟨hm, hs⟩
      refine .inl ⟨hm, hn, .inr ?_, hs⟩
      rcases hy with hy | ⟨hy, he, hmoved⟩
      · exact .inl ⟨⟨hx, hone.1 hy⟩, hempty⟩
      · rw [hmiddle (htwo.1 hy), hx] at he
        exact .inr ⟨⟨hx, htwo.1 hy⟩, hmoved, he, hempty⟩
    · rintro (⟨hm, -, -, hs⟩ | ⟨-, ha, -⟩)
      · exact ⟨hm, hs⟩
      · exact absurd ha hnot
  · rw [if_neg hpush]
    refine ⟨none, rfl, fun m => iff_of_false (hnone m) ?_⟩
    rintro (⟨-, -, ⟨ha, -⟩ | ⟨⟨hx, hy⟩, he⟩ | ⟨⟨hx, hy⟩, hm, hmid, he⟩, -⟩ | ⟨-, ha, -⟩)
    · exact hnot ha
    · exact hpush ⟨he, by omega, .inl (hone.2 hy)⟩
    · refine hpush ⟨he, by omega, .inr ⟨htwo.2 hy, ?_, hm⟩⟩
      rw [hmiddle hy, hx]
      exact hmid
    · exact hnot ha

theorem check_move_says (h : Position s color) (ho : Own s color s.FromX s.FromY) (tox toy : Int) :
    ∃ msg, check_move tox toy s = some (msg, s) ∧
      ∀ m, msg = some m ↔ OnBoard tox toy ∧ Accepted s color s.FromX s.FromY tox toy m := by
  have hnone : ∀ m, ¬ (none : Option Message) = some m := by simp
  unfold check_move
  by_cases hout : tox < 0 ∨ toy < 0 ∨ tox ≥ 8 ∨ toy ≥ 8
  · rw [if_pos hout]
    refine ⟨none, rfl, fun m => iff_of_false (hnone m) fun ha => ?_⟩
    have hon := ha.1
    unfold OnBoard at hon
    omega
  have hto : OnBoard tox toy := by
    unfold OnBoard
    omega
  rw [if_neg hout]
  dsimp only
  rw [ho.color]
  by_cases hown : s.Board tox toy ≠ EMPTY ∧ color = COLOR (s.Board tox toy)
  · rw [if_pos hown]
    have hno : ¬ NotOwn s color tox toy := by
      rintro (he | he)
      · exact hown.1 he
      · exact he hown.2.symm
    refine ⟨none, rfl, fun m => iff_of_false (hnone m) ?_⟩
    rintro ⟨-, ha⟩
    cases ha with
    | move hn => exact hno hn
    | passant _ _ hn => exact hno (.inl hn)
    | castle d hm => exact hno (.inl hm.free)
  have hn : NotOwn s color tox toy := by
    by_cases he : s.Board tox toy = EMPTY
    · exact .inl he
    · exact .inr fun hc => hown ⟨he, hc.symm⟩
  rw [if_neg hown]
  simp only [and_iff_right hto]
  have hne := hn.ne ho
  have hclear := clear2move_says s ho.on hto fun he => hne ⟨he.1.symm, he.2.symm⟩
  have hrow : Says (guarded (¬ ((tox - s.FromX).natAbs ≠ 0 ∧ (toy - s.FromY).natAbs ≠ 0))
      (clear2move s.FromX s.FromY tox toy s)) (¬ ((tox - s.FromX).natAbs ≠ 0 ∧ (toy - s.FromY).natAbs ≠ 0) ∧
        Clear s.Board s.FromX s.FromY tox toy) := Says.guarded fun _ => hclear
  have hslant : Says (guarded ((tox - s.FromX).natAbs = (toy - s.FromY).natAbs) (clear2move s.FromX s.FromY tox toy s))
      ((tox - s.FromX).natAbs = (toy - s.FromY).natAbs ∧ Clear s.Board s.FromX s.FromY tox toy) :=
    Says.guarded fun _ => hclear
  by_cases hking : PIECE (s.Board s.FromX s.FromY) = KING
  · rw [if_pos hking]
    exact king_says_move h ho hto hn hking
  rw [if_neg hking]
  by_cases hrook : PIECE (s.Board s.FromX s.FromY) = ROOK
  · rw [if_pos hrook]
    obtain ⟨msg, hgo, hm⟩ := go_says h ho hto hn hrow
    refine ⟨msg, hgo, fun m => (hm m).trans (accepted_piece h (by rw [hrook]; decide) hking hn ?_ m).symm⟩
    rw [or_iff_left fun hb => absurd (hb.1.symm.trans hrook) (by decide), attacks_rook ho.color hrook]
    exact straight_iff hne
  rw [if_neg hrook]
  by_cases hbishop : PIECE (s.Board s.FromX s.FromY) = BISHOP
  · rw [if_pos hbishop]
    have hsays : Says (if (tox - s.FromX).natAbs = (toy - s.FromY).natAbs then some true else clear2move s.FromX s.FromY tox toy s)
        ((tox - s.FromX).natAbs = (toy - s.FromY).natAbs ∨ Clear s.Board s.FromX s.FromY tox toy) := by
      by_cases hd : (tox - s.FromX).natAbs = (toy - s.FromY).natAbs
      · rw [if_pos hd]
        exact ⟨true, rfl, iff_of_true rfl (.inl hd)⟩
      · rw [if_neg hd]
        exact hclear.congr (or_iff_right hd).symm
    obtain ⟨msg, hgo, hm⟩ := go_says h ho hto hn hsays
    refine ⟨msg, hgo, fun m => (hm m).trans (accepted_piece h (by rw [hbishop]; decide) hking hn ?_ m).symm⟩
    rw [attacks_bishop ho.color hbishop, diagonal_iff hne]
    exact ⟨fun ha => ha.elim (fun hd => .inl hd.1) And.right, fun ha => .inr ⟨hbishop, ha⟩⟩
  rw [if_neg hbishop]
  by_cases hqueen : PIECE (s.Board s.FromX s.FromY) = QUEEN
  · rw [if_pos hqueen]
    obtain ⟨msg, hgo, hm⟩ := go_says h ho hto hn (hrow.either hslant)
    refine ⟨msg, hgo, fun m => (hm m).trans (accepted_piece h (by rw [hqueen]; decide) hking hn ?_ m).symm⟩
    rw [or_iff_left fun hb => hbishop hb.1, attacks_queen ho.color hqueen]
    exact any_line_iff hne
  rw [if_neg hqueen]
  by_cases hknight : PIECE (s.Board s.FromX s.FromY) = KNIGHT
  · rw [if_pos hknight]
    obtain ⟨msg, hgo, hm⟩ := go_says h ho hto hn (Says.decide ((tox - s.FromX).natAbs ≠ 0 ∧ (toy - s.FromY).natAbs ≠ 0 ∧
      (tox - s.FromX).natAbs + (toy - s.FromY).natAbs = 3))
    refine ⟨msg, hgo, fun m => (hm m).trans (accepted_piece h (by rw [hknight]; decide) hking hn ?_ m).symm⟩
    rw [or_iff_left fun hb => hbishop hb.1, attacks_knight ho.color hknight]
    omega
  rw [if_neg hknight]
  have hpawn : PIECE (s.Board s.FromX s.FromY) = PAWN := by
    rcases h.pieces _ _ ho.on with he | hp
    · exact absurd he ho.piece
    · simp only [mem_cons, not_mem_nil, or_false] at hp
      rcases hp with hp | hp | hp | hp | hp | hp
      · exact absurd hp hrook
      · exact absurd hp hknight
      · exact absurd hp hbishop
      · exact absurd hp hqueen
      · exact absurd hp hking
      · exact hp
  rw [if_pos hpawn]
  exact pawn_says h ho hto hn hpawn

end Check

structure BishopSlip (s : Engine) (color : char) (x y tox toy : Int) : Prop where
  bishop : PIECE (s.Board x y) = BISHOP
  other : NotOwn s color tox toy
  slip : (tox - x).natAbs = (toy - y).natAbs ∧ ¬ Clear s.Board x y tox toy ∨
    (tox - x).natAbs ≠ (toy - y).natAbs ∧ Clear s.Board x y tox toy
  safe : Safe (moved s.Board x y tox toy) (pawnDirection s (OPPONENT color)) color

def CastleSlip (s : Engine) (color : char) (x y tox toy : Int) : Prop :=
  ∃ d, MayCastle s color x y d tox toy ∧ ¬ (Safe (moved s.Board x y (x + d) y) (pawnDirection s (OPPONENT color)) color ∧
    Safe (castled s.Board x y d) (pawnDirection s (OPPONENT color)) color)

def MoveRight (s : Engine) (color : char) (tox toy : Int) : Prop :=
  ∃ msg, check_move tox toy s = some (msg, s) ∧
    ∀ m, msg = some m ↔ OnBoard tox toy ∧ Legal s color s.FromX s.FromY tox toy m

def CanMove (s : Engine) (color : char) : Prop :=
  ∃ x y tox toy m, Own s color x y ∧ OnBoard tox toy ∧ Legal s color x y tox toy m

/-- The answer of `chessmate` is that of the rules, and only the square it has looked at last has changed. -/
def MateRight (s : Engine) (color : char) : Prop :=
  ∃ r x y, chessmate color s = some (r, { s with FromX := x, FromY := y }) ∧ (r = true ↔ ¬ CanMove s color)

def CanLeap (s : Engine) (color : char) : Prop :=
  ∃ x y tox toy, Own s color x y ∧ OnBoard tox toy ∧ (tox - x).natAbs = (toy - y).natAbs ∧ BishopSlip s color x y tox toy

section Answers

variable {s : Engine} {color : char} {x y tox toy : Int} {m : Message}

theorem Legal.accepted (h : Legal s color x y tox toy m) : Accepted s color x y tox toy m := by
  cases h with
  | move hn hg hs => exact .move hn (.inl hg) hs
  | passant hp ha hn hpass hs => exact .passant hp ha hn hpass hs
  | castle d hm hs => exact .castle d hm

theorem bishop_goes (ho : Own s color x y) (hb : PIECE (s.Board x y) = BISHOP) (hne : ¬ (tox = x ∧ toy = y)) (dir : Int) :
    Goes s.Board color dir x y tox toy ↔ (tox - x).natAbs = (toy - y).natAbs ∧ Clear s.Board x y tox toy := by
  rw [goes_piece (by rw [hb]; decide), attacks_bishop ho.color hb]
  exact diagonal_iff hne

theorem Accepted.legal_or (ho : Own s color x y) (h : Accepted s color x y tox toy m) :
    Legal s color x y tox toy m ∨ m = .PIECE_MOVE ∧ BishopSlip s color x y tox toy ∨
      m = .HIDE_KING ∧ CastleSlip s color x y tox toy := by
  cases h with
  | move hn hg hs =>
    rcases hg with hg | ⟨hb, hg⟩
    · exact .inl (.move hn hg hs)
    by_cases hgood : (tox - x).natAbs = (toy - y).natAbs ∧ Clear s.Board x y tox toy
    · exact .inl (.move hn ((bishop_goes ho hb (hn.ne ho) _).2 hgood) hs)
    · exact .inr (.inl ⟨rfl, hb, hn, by tauto, hs⟩)
  | passant hp ha hn hpass hs => exact .inl (.passant hp ha hn hpass hs)
  | castle d hm =>
    by_cases hs : Safe (moved s.Board x y (x + d) y) (pawnDirection s (OPPONENT color)) color ∧
        Safe (castled s.Board x y d) (pawnDirection s (OPPONENT color)) color
    · exact .inl (.castle d hm hs)
    · exact .inr (.inr ⟨rfl, d, hm, hs⟩)

theorem BishopSlip.accepted (h : BishopSlip s color x y tox toy) : Accepted s color x y tox toy .PIECE_MOVE :=
  .move h.other (.inr ⟨h.bishop, h.slip.imp And.left And.right⟩) h.safe

theorem BishopSlip.not_legal (ho : Own s color x y) (h : BishopSlip s color x y tox toy) :
    ¬ Legal s color x y tox toy .PIECE_MOVE := by
  intro hl
  cases hl with
  | move hn hg _ =>
    have hgood := (bishop_goes ho h.bishop (hn.ne ho) _).1 hg
    rcases h.slip with hs | hs
    · exact hs.2 hgood.2
    · exact hs.1 hgood.1

theorem CastleSlip.not_legal (h : CastleSlip s color x y tox toy) : ¬ Legal s color x y tox toy .HIDE_KING := by
  intro hl
  obtain ⟨d, hm, hs⟩ := h
  cases hl with
  | castle e hm' hs' =>
    have h1 := hm.place
    have h2 := hm'.place
    obtain rfl : e = d := by omega
    exact hs hs'

theorem moveRight_iff (h : Position s color) (ho : Own s color s.FromX s.FromY) : MoveRight s color tox toy ↔
    ¬ (OnBoard tox toy ∧ (BishopSlip s color s.FromX s.FromY tox toy ∨ CastleSlip s color s.FromX s.FromY tox toy)) := by
  obtain ⟨msg, hmsg, hacc⟩ := check_move_says h ho tox toy
  constructor
  · rintro ⟨msg', hmsg', hlegal⟩ ⟨hon, hslip⟩
    obtain rfl : msg = msg' := congrArg Prod.fst (Option.some.inj (hmsg.symm.trans hmsg'))
    rcases hslip with hb | hc
    · exact hb.not_legal ho ((hlegal _).1 ((hacc _).2 ⟨hon, hb.accepted⟩)).2
    · obtain ⟨d, hm, hs⟩ := hc
      exact CastleSlip.not_legal ⟨d, hm, hs⟩ ((hlegal _).1 ((hacc _).2 ⟨hon, .castle d hm⟩)).2
  · intro hno
    refine ⟨msg, hmsg, fun m => (hacc m).trans (and_congr_right fun hon => ⟨fun ha => ?_, Legal.accepted⟩)⟩
    rcases ha.legal_or ho with hl | ⟨-, hb⟩ | ⟨-, hc⟩
    · exact hl
    · exact absurd ⟨hon, .inl hb⟩ hno
    · exact absurd ⟨hon, .inr hc⟩ hno

theorem Position.select (h : Position s color) (x y : Int) : Position { s with FromX := x, FromY := y } color :=
  ⟨h.colors, h.turn, h.pieces, h.kings, h.pass, h.quiet⟩

theorem accepted_select (u v : Int) :
    Accepted { s with FromX := u, FromY := v } color x y tox toy m ↔ Accepted s color x y tox toy m := by
  constructor
  · intro h
    cases h with
    | move hn hg hs => exact .move hn hg hs
    | passant hp ha hn hpass hs => exact .passant hp ha hn hpass hs
    | castle d hm => exact .castle d ⟨hm.king, hm.dir, hm.place, hm.rook, hm.clear, hm.free, hm.safe⟩
  · intro h
    cases h with
    | move hn hg hs => exact .move hn hg hs
    | passant hp ha hn hpass hs => exact .passant hp ha hn hpass hs
    | castle d hm => exact .castle d ⟨hm.king, hm.dir, hm.place, hm.rook, hm.clear, hm.free, hm.safe⟩

theorem try_moves_says (h : Position s color) (ho : Own s color s.FromX s.FromY) (l : List (Int × Int)) :
    ∃ r, try_moves l s = some (r, s) ∧
      (r = true ↔ ∃ p ∈ l, ∃ m, OnBoard p.1 p.2 ∧ Accepted s color s.FromX s.FromY p.1 p.2 m) := by
  induction l with
  | nil => exact ⟨false, rfl, by simp⟩
  | cons p l ih =>
    obtain ⟨a, b⟩ := p
    obtain ⟨msg, hmsg, hacc⟩ := check_move_says h ho a b
    rw [try_moves, hmsg, Option.bind_some]
    cases msg with
    | some m => exact ⟨true, rfl, iff_of_true rfl ⟨(a, b), mem_cons_self, m, (hacc m).1 rfl⟩⟩
    | none =>
      obtain ⟨r, hr, hiff⟩ := ih
      refine ⟨r, hr, hiff.trans ⟨?_, ?_⟩⟩
      · rintro ⟨p, hp, hm⟩
        exact ⟨p, mem_cons_of_mem _ hp, hm⟩
      · rintro ⟨p, hp, m, hm⟩
        rcases mem_cons.1 hp with rfl | hp
        · exact absurd ((hacc m).2 hm) (by simp)
        · exact ⟨p, hp, m, hm⟩

def Tried (s : Engine) (color : char) (x y : Int) : Prop :=
  Own s color x y ∧ ∃ p ∈ tries (PIECE (s.Board x y)) (color = s.Mine.color) x y, ∃ m,
    OnBoard p.1 p.2 ∧ Accepted s color x y p.1 p.2 m

theorem try_pieces_says (h : Position s color) (l : List (Int × Int)) (hl : ∀ p ∈ l, OnBoard p.1 p.2) :
    ∃ r x y, try_pieces color l s = some (r, { s with FromX := x, FromY := y }) ∧
      (r = true ↔ ¬ ∃ p ∈ l, Tried s color p.1 p.2) := by
  suffices hall : ∀ u v, ∃ r x y, try_pieces color l { s with FromX := u, FromY := v } =
      some (r, { s with FromX := x, FromY := y }) ∧ (r = true ↔ ¬ ∃ p ∈ l, Tried s color p.1 p.2) from hall s.FromX s.FromY
  induction l with
  | nil => exact fun u v => ⟨true, u, v, rfl, by simp⟩
  | cons p l ih =>
    intro u v
    obtain ⟨x, y⟩ := p
    have hrest := ih fun p hp => hl p (mem_cons_of_mem _ hp)
    have hxy : OnBoard x y := hl (x, y) mem_cons_self
    rw [try_pieces]
    dsimp only
    have hskip : ¬ Tried s color x y → ∀ u v, ∃ r x' y', try_pieces color l { s with FromX := u, FromY := v } =
        some (r, { s with FromX := x', FromY := y' }) ∧ (r = true ↔ ¬ ∃ p ∈ (x, y) :: l, Tried s color p.1 p.2) := by
      intro hno u v
      obtain ⟨r, x', y', hr, hiff⟩ := hrest u v
      refine ⟨r, x', y', hr, hiff.trans (not_congr ?_)⟩
      simp only [mem_cons, exists_eq_or_imp, hno, false_or]
    by_cases hown : s.Board x y ≠ EMPTY ∧ COLOR (s.Board x y) = color
    · rw [if_pos hown]
      have ho : Own s color x y := ⟨hxy, hown.1, hown.2⟩
      obtain ⟨r, hr, hiff⟩ := try_moves_says (h.select x y) (⟨hxy, hown.1, hown.2⟩ : Own { s with FromX := x, FromY := y } color x y)
        (tries (PIECE (s.Board x y)) (color = s.Mine.color) x y)
      simp only [accepted_select] at hiff
      rw [hr, Option.bind_some]
      cases r with
      | true => exact ⟨false, x, y, rfl, iff_of_false Bool.false_ne_true fun hno => hno ⟨(x, y), mem_cons_self, ho, hiff.1 rfl⟩⟩
      | false => exact hskip (fun ht => Bool.false_ne_true (hiff.2 ht.2)) x y
    · rw [if_neg hown]
      exact hskip (fun ht => hown ⟨ht.1.piece, ht.1.color⟩) u v

theorem mem_squares {x y : Int} : (x, y) ∈ squares ↔ OnBoard x y := by
  unfold squares OnBoard
  simp only [mem_flatMap, mem_map, mem_range, Prod.mk.injEq]
  constructor
  · rintro ⟨j, hj, i, hi, rfl, rfl⟩
    omega
  · rintro ⟨h1, h2, h3, h4⟩
    exact ⟨y.toNat, by omega, x.toNat, by omega, by omega, by omega⟩

variable {dx dy : Int}

theorem mem_line {n : Nat} (hd : Direction dx dy) (hxy : OnBoard x y) (hto : OnBoard tox toy) (hn : 1 ≤ n)
    (hx : tox = x + n * dx) (hy : toy = y + n * dy) : (tox, toy) ∈ line x y dx dy := by
  rw [hx, hy] at hto
  have hlt := OnBoard.lt_eight hd hxy hto
  obtain ⟨k, hk⟩ : ∃ k, 8 = n + k := ⟨8 - n, by omega⟩
  unfold line
  rw [hk, range_add, map_append, takeWhile_append_of_pos]
  · refine mem_append_left _ (mem_map.2 ⟨n - 1, mem_range.2 (by omega), ?_⟩)
    rw [hx, hy, Nat.cast_sub hn]
    push_cast
    rw [sub_add_cancel]
  · intro p hp
    obtain ⟨i, hi, rfl⟩ := mem_map.1 hp
    have hbetween := OnBoard.between hd (m := i + 1) hxy hto (by have := mem_range.1 hi; omega)
    push_cast at hbetween
    exact decide_eq_true hbetween

variable {p : Int × Int}

theorem line_place (h : p ∈ line x y dx dy) :
    ∃ n : Nat, 1 ≤ n ∧ p.1 = x + n * dx ∧ p.2 = y + n * dy := by
  obtain ⟨i, -, rfl⟩ := mem_map.1 ((takeWhile_sublist _).subset h)
  exact ⟨i + 1, by omega, by push_cast; rfl, by push_cast; rfl⟩

theorem sees_line {b : Int → Int → char} (hd : Direction dx dy) (hxy : OnBoard x y) (hto : OnBoard tox toy)
    (hs : Sees b tox toy dx dy x y) : (tox, toy) ∈ line x y (-dx) (-dy) := by
  obtain ⟨n, hn, hx, hy, -⟩ := hs
  refine mem_line (n := n) ⟨by have := hd.1; omega, by have := hd.2.1; omega, by have := hd.2.2; omega⟩ hxy hto hn ?_ ?_
  · rw [hx, mul_neg]
    omega
  · rw [hy, mul_neg]
    omega

theorem straight_mem (hd : dx.natAbs + dy.natAbs = 1) (h : (tox, toy) ∈ line x y (-dx) (-dy)) :
    (tox, toy) ∈ line x y (-1) 0 ++ line x y 1 0 ++ line x y 0 (-1) ++ line x y 0 1 := by
  simp only [mem_append]
  rcases (by omega : dx = 0 ∧ (dy = 1 ∨ dy = -1) ∨ (dx = 1 ∨ dx = -1) ∧ dy = 0) with ⟨rfl, rfl | rfl⟩ | ⟨rfl | rfl, rfl⟩
  · exact .inl (.inr h)
  · exact .inr h
  · exact .inl (.inl (.inl h))
  · exact .inl (.inl (.inr h))

theorem diagonal_mem (hd : dx.natAbs = 1 ∧ dy.natAbs = 1) (h : (tox, toy) ∈ line x y (-dx) (-dy)) :
    (tox, toy) ∈ line x y 1 1 ++ line x y (-1) (-1) ++ line x y 1 (-1) ++ line x y (-1) 1 := by
  simp only [mem_append]
  rcases (by omega : (dx = 1 ∨ dx = -1) ∧ (dy = 1 ∨ dy = -1)) with ⟨rfl | rfl, rfl | rfl⟩
  · exact .inl (.inl (.inr h))
  · exact .inr h
  · exact .inl (.inr h)
  · exact .inl (.inl (.inl h))

theorem king_mem (h : max (x - tox).natAbs (y - toy).natAbs = 1) : (tox, toy) ∈
    [(x - 1, y - 1), (x - 1, y), (x - 1, y + 1), (x + 1, y - 1), (x + 1, y), (x + 1, y + 1), (x, y - 1), (x, y + 1)] := by
  have hx : tox = x - 1 ∨ tox = x + 1 ∨ tox = x := by omega
  have hy : toy = y - 1 ∨ toy = y ∨ toy = y + 1 := by omega
  have hne : ¬ (tox = x ∧ toy = y) := by omega
  simp only [mem_cons, Prod.mk.injEq, not_mem_nil, or_false]
  rcases hx with hx | hx | hx
  · rcases hy with hy | hy | hy <;> simp only [hx, hy, and_self, true_or, or_true]
  · rcases hy with hy | hy | hy <;> simp only [hx, hy, and_self, true_or, or_true]
  · rcases hy with hy | hy | hy
    · simp only [hx, hy, and_self, true_or, or_true]
    · exact absurd ⟨hx, hy⟩ hne
    · simp only [hx, hy, and_self, or_true]

theorem knight_mem (h : (x - tox).natAbs = 1 ∧ (y - toy).natAbs = 2 ∨ (x - tox).natAbs = 2 ∧ (y - toy).natAbs = 1) :
    (tox, toy) ∈ [(x - 2, y - 1), (x - 2, y + 1), (x - 1, y - 2), (x - 1, y + 2), (x + 1, y - 2), (x + 1, y + 2),
      (x + 2, y - 1), (x + 2, y + 1)] := by
  have hplace : (tox = x - 1 ∨ tox = x + 1) ∧ (toy = y - 2 ∨ toy = y + 2) ∨
      (tox = x - 2 ∨ tox = x + 2) ∧ (toy = y - 1 ∨ toy = y + 1) := by omega
  simp only [mem_cons, Prod.mk.injEq, not_mem_nil, or_false]
  rcases hplace with ⟨hx | hx, hy | hy⟩ | ⟨hx | hx, hy | hy⟩
  all_goals simp only [hx, hy, and_self, true_or, or_true]

theorem legal_tried (h : Position s color) (ho : Own s color x y) (hto : OnBoard tox toy) (hl : Legal s color x y tox toy m)
    (hm : m ≠ .HIDE_KING) : (tox, toy) ∈ tries (PIECE (s.Board x y)) (color = s.Mine.color) x y := by
  have hdir := pawn_direction h
  have hpawn : PIECE (s.Board x y) = PAWN → ((x - tox).natAbs = 1 ∧ toy = y + pawnDirection s color ∨
      tox = x ∧ (toy = y + pawnDirection s color ∨ toy = y + 2 * pawnDirection s color)) →
      (tox, toy) ∈ tries (PIECE (s.Board x y)) (color = s.Mine.color) x y := by
    intro hp hplace
    unfold tries
    rw [hp, if_neg (by decide), if_neg (by decide), if_neg (by decide), if_neg (by decide), if_neg (by decide), if_pos rfl]
    rcases hdir with ⟨h1, -, h3⟩ | ⟨-, h2, h3⟩ <;> rw [h3] at hplace
    · rw [if_pos (decide_eq_true h1)]
      simp only [mem_cons, Prod.mk.injEq, not_mem_nil, or_false]
      omega
    · rw [if_neg (by simpa using h2)]
      simp only [mem_cons, Prod.mk.injEq, not_mem_nil, or_false]
      omega
  cases hl with
  | castle d _ _ => exact absurd rfl hm
  | passant hp ha _ _ _ => exact hpawn hp (.inl ((attacks_pawn ho.color hp).1 ha))
  | move hn hg _ =>
    cases hg with
    | eats hp ha _ => exact hpawn hp (.inl ((attacks_pawn ho.color hp).1 ha))
    | one hp hx hy _ => exact hpawn hp (.inr ⟨hx, .inl hy⟩)
    | two hp _ hx hy _ => exact hpawn hp (.inr ⟨hx, .inr hy⟩)
    | piece hp ha =>
      unfold tries
      cases ha with
      | pawn hpiece => exact absurd hpiece.1 hp
      | knight hpiece hdist =>
        rw [hpiece.1, if_neg (by decide), if_neg (by decide), if_neg (by decide), if_pos rfl]
        exact knight_mem hdist
      | king hpiece hdist =>
        rw [hpiece.1, if_neg (by decide), if_neg (by decide), if_neg (by decide), if_neg (by decide), if_pos rfl]
        exact king_mem hdist
      | rook hpiece dx dy hd hs =>
        rw [hpiece.1, if_neg (by decide), if_pos rfl]
        exact straight_mem hd (sees_line ⟨by omega, by omega, by omega⟩ ho.on hto hs)
      | bishop hpiece dx dy hd hs =>
        rw [hpiece.1, if_neg (by decide), if_neg (by decide), if_pos rfl]
        exact diagonal_mem hd (sees_line ⟨by omega, by omega, by omega⟩ ho.on hto hs)
      | queen hpiece dx dy hd hs =>
        rw [hpiece.1, if_pos rfl]
        have hline := sees_line (x := x) (y := y) ⟨by omega, by omega, by omega⟩ ho.on hto hs
        rcases (by omega : dx.natAbs + dy.natAbs = 1 ∨ dx.natAbs = 1 ∧ dy.natAbs = 1) with hd | hd
        · exact mem_append_left _ (straight_mem hd hline)
        · exact mem_append_right _ (diagonal_mem hd hline)

theorem castle_step (h : Position s color) (ho : Own s color x y) (hto : OnBoard tox toy)
    (hl : Legal s color x y tox toy .HIDE_KING) : ∃ u v, OnBoard u v ∧ Legal s color x y u v .PIECE_MOVE := by
  cases hl with
  | castle d hm hs =>
    have hway := castle_way ho.on hto hm.dir hm.place (.inl hm.free) hm.rook h.turn hm.clear
    have hking : PIECE (s.Board x y) = KING := by rw [hm.king]; exact piece_king h.turn
    have hplace := hm.place
    have hd := hm.dir
    have hon := ho.on
    refine ⟨x + d, y, by unfold OnBoard at *; omega, .move (.inl hway.1) ?_ hs.1⟩
    rw [goes_piece (by rw [hking]; decide), attacks_king ho.color hking]
    omega

theorem canMove_tried (h : Position s color) (hc : CanMove s color) : ∃ x y, Tried s color x y := by
  obtain ⟨x, y, tox, toy, m, ho, hto, hl⟩ := hc
  have hmove : ∃ tox toy m, OnBoard tox toy ∧ Legal s color x y tox toy m ∧ m ≠ .HIDE_KING := by
    by_cases hm : m = .HIDE_KING
    · subst hm
      obtain ⟨u, v, hon, hl⟩ := castle_step h ho hto hl
      exact ⟨u, v, _, hon, hl, by simp⟩
    · exact ⟨tox, toy, m, hto, hl, hm⟩
  obtain ⟨tox, toy, m, hto, hl, hm⟩ := hmove
  exact ⟨x, y, ho, (tox, toy), legal_tried h ho hto hl hm, m, hto, hl.accepted⟩

theorem bishop_tries {mine : Bool} (hp : p ∈ tries BISHOP mine x y) : (p.1 - x).natAbs = (p.2 - y).natAbs := by
  unfold tries at hp
  rw [if_neg (by decide), if_neg (by decide), if_pos rfl] at hp
  simp only [mem_append] at hp
  rcases hp with ((hp | hp) | hp) | hp <;> obtain ⟨n, -, h1, h2⟩ := line_place hp <;> omega

theorem king_tries {mine : Bool} (hp : p ∈ tries KING mine x y) : (p.1 - x).natAbs ≤ 1 := by
  unfold tries at hp
  rw [if_neg (by decide), if_neg (by decide), if_neg (by decide), if_neg (by decide), if_pos rfl] at hp
  simp only [mem_cons, not_mem_nil, or_false] at hp
  rcases hp with rfl | rfl | rfl | rfl | rfl | rfl | rfl | rfl <;> dsimp only <;> omega

theorem tried_or (h : Position s color) (ht : Tried s color x y) : CanMove s color ∨ CanLeap s color := by
  obtain ⟨ho, p, hp, m, hon, ha⟩ := ht
  rcases ha.legal_or ho with hl | ⟨-, hb⟩ | ⟨-, d, hm, -⟩
  · exact .inl ⟨x, y, p.1, p.2, m, ho, hon, hl⟩
  · rw [hb.bishop] at hp
    exact .inr ⟨x, y, p.1, p.2, ho, hon, bishop_tries hp, hb⟩
  · rw [hm.king, piece_king h.turn] at hp
    have h1 := king_tries hp
    have h2 := hm.place.1
    have h3 := hm.dir
    omega

theorem leap_tried (hl : CanLeap s color) : ∃ x y, Tried s color x y := by
  obtain ⟨x, y, tox, toy, ho, hon, hdiag, hb⟩ := hl
  have hne := hb.other.ne ho
  refine ⟨x, y, ho, (tox, toy), ?_, _, hon, hb.accepted⟩
  have hxne : x ≠ tox := by omega
  have hmem : ∃ dx dy : Int, (dx.natAbs = 1 ∧ dy.natAbs = 1) ∧ (tox, toy) ∈ line x y (-dx) (-dy) := by
    rcases lt_or_gt_of_ne hxne with hx | hx <;> rcases lt_or_gt_of_ne (by omega : y ≠ toy) with hy | hy
    · exact ⟨-1, -1, by decide, mem_line (n := (tox - x).natAbs) ⟨by decide, by decide, by decide⟩ ho.on hon (by omega) (by omega) (by omega)⟩
    · exact ⟨-1, 1, by decide, mem_line (n := (tox - x).natAbs) ⟨by decide, by decide, by decide⟩ ho.on hon (by omega) (by omega) (by omega)⟩
    · exact ⟨1, -1, by decide, mem_line (n := (tox - x).natAbs) ⟨by decide, by decide, by decide⟩ ho.on hon (by omega) (by omega) (by omega)⟩
    · exact ⟨1, 1, by decide, mem_line (n := (tox - x).natAbs) ⟨by decide, by decide, by decide⟩ ho.on hon (by omega) (by omega) (by omega)⟩
  obtain ⟨dx, dy, hd, hmem⟩ := hmem
  unfold tries
  rw [hb.bishop, if_neg (by decide), if_neg (by decide), if_pos rfl]
  exact diagonal_mem hd hmem

theorem mateRight_iff (h : Position s color) : MateRight s color ↔ (CanMove s color ∨ ¬ CanLeap s color) := by
  obtain ⟨r, u, v, hr, hiff⟩ := try_pieces_says h squares fun p hp => mem_squares.1 hp
  have hiff : r = true ↔ ¬ ∃ x y, Tried s color x y := by
    rw [hiff]
    refine not_congr ⟨fun ⟨p, _, ht⟩ => ⟨p.1, p.2, ht⟩, fun ⟨x, y, ht⟩ => ⟨(x, y), mem_squares.2 ht.1.on, ht⟩⟩
  constructor
  · rintro ⟨r', x, y, hr', hmate⟩
    have heq : r = r' := congrArg Prod.fst (Option.some.inj (hr.symm.trans hr'))
    subst heq
    by_cases hc : CanMove s color
    · exact .inl hc
    · exact .inr fun hl => (hiff.1 (hmate.2 hc)) (leap_tried hl)
  · intro hcond
    refine ⟨r, u, v, hr, hiff.trans (not_congr ⟨?_, canMove_tried h⟩)⟩
    rintro ⟨x, y, ht⟩
    rcases tried_or h ht with hc | hl
    · exact hc
    · exact hcond.resolve_right (not_not.2 hl)

end Answers

end WWindowSystem.Chess
