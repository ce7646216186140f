import WWindowSystem.Netgames.Chess
import WWindowSystem.Netgames.Go
import WWindowSystem.Netgames.Pente
import WWindowSystem.Netgames.Reversi

namespace WWindowSystem.Reversi

structure Restored (s s' : Engine) : Prop where
  board : s'.Board = s.Board
  mine : s'.Mine = s.Mine
  yours : s'.Your = s.Your

theorem make_flips_counts (x y : Int) (one two : color_t) (dir : Int × Int) (s : Board × Int) : s.2 ≤ (make_flips x y one two dir s).2 := by
  unfold make_flips
  split
  · dsimp only
    omega
  · exact le_refl _

theorem move_board_counts (x y : Int) (one two : color_t) (b : Board) : 0 ≤ (move_board x y one two b).2 := by
  have h : ∀ (dirs : List (Int × Int)) (s : Board × Int), s.2 ≤ (dirs.foldl (fun s dir => make_flips x y one two dir s) s).2 := by
    intro dirs
    induction dirs with
    | nil => exact fun s => le_refl _
    | cons dir dirs ih =>
      intro s
      rw [List.foldl_cons]
      exact (make_flips_counts x y one two dir s).trans (ih _)
  exact h table (Board.set b x y one, 0)

theorem undo_not_restored (own : Bool) (x y : Int) (s : Engine) : ¬ Restored s (do_undo (make_move own x y s)) := by
  intro h
  cases own with
  | true =>
    have hcount := move_board_counts x y s.Mine.color s.Your.color s.Board
    have hp : s.Mine.pieces + 1 + (move_board x y s.Mine.color s.Your.color s.Board).2 = s.Mine.pieces := congrArg Player.pieces h.mine
    omega
  | false =>
    have hcount := move_board_counts x y s.Your.color s.Mine.color s.Board
    have hp : s.Your.pieces + 1 + (move_board x y s.Your.color s.Mine.color s.Board).2 = s.Your.pieces := congrArg Player.pieces h.yours
    omega

end WWindowSystem.Reversi

namespace WWindowSystem.Go

structure Restored (s s' : Engine) : Prop where
  board : s'.Board = s.Board
  mine : s'.Mine = s.Mine
  yours : s'.Your = s.Your

def Spares (fuel : Nat) (color other : char) : List (Int × Int) → (Int → Int → char) → Prop
  | [], _ => True
  | (x, y) :: places, b =>
    if inside x y ∧ b x y = other then
      match surrounded fuel x y color b with
      | none => True
      | some (b, dead) =>
        if dead ≠ 0 then
          match capture_pieces fuel x y (other ||| CHECKED) b with
          | none => True
          | some (b, taken) => taken = 0 ∧ Spares fuel color other places b
        else
          match surrounded fuel x y color b with
          | none => True
          | some (b, _) => Spares fuel color other places b
    else Spares fuel color other places b

variable {color other : char} {fuel : Nat}

theorem captures_loop_counts (places : List (Int × Int)) {b b' : Int → Int → char} {c c' : Nat}
    (h : captures_loop fuel color other places (b, c) = some (b', c')) : c ≤ c' ∧ (c' = c ↔ Spares fuel color other places b) := by
  induction places generalizing b c with
  | nil =>
    cases h
    exact ⟨le_refl _, by simp [Spares]⟩
  | cons p places ih =>
    obtain ⟨x, y⟩ := p
    unfold captures_loop at h
    unfold Spares
    by_cases hp : inside x y ∧ b x y = other
    · rw [if_pos hp] at h ⊢
      obtain ⟨⟨b₁, dead⟩, h₁, h⟩ := Option.bind_eq_some_iff.mp h
      rw [h₁]
      dsimp only at h ⊢
      by_cases hdead : dead ≠ 0
      · rw [if_pos hdead] at h ⊢
        obtain ⟨⟨b₂, taken⟩, h₂, h⟩ := Option.bind_eq_some_iff.mp h
        rw [h₂]
        have ⟨hle, hiff⟩ := ih h
        refine ⟨by omega, ?_⟩
        dsimp only
        rw [← hiff]
        omega
      · rw [if_neg hdead] at h ⊢
        obtain ⟨⟨b₂, taken⟩, h₂, h⟩ := Option.bind_eq_some_iff.mp h
        rw [h₂]
        exact ih h
    · rw [if_neg hp] at h ⊢
      exact ih h

def TakesNothing (fuel : Nat) (own : Bool) (x y : Int) (s : Engine) : Prop :=
  let one := if own then s.Mine.color else s.Your.color
  let two := if own then s.Your.color else s.Mine.color
  s.playing = true → Spares fuel one two (neighbours x y) (put s.Board x y one)

theorem do_captures_counts {x y : Int} {s s' : Engine} (h : do_captures fuel x y color other s = some s') :
    s'.Backup = s.Backup ∧ (s'.Mine = s.Mine ∧ s'.Your = s.Your ↔ Spares fuel color other (neighbours x y) s.Board) := by
  unfold do_captures at h
  split at h
  · obtain ⟨⟨b, c⟩, hloop, rfl⟩ := Option.map_eq_some_iff.mp h
    refine ⟨rfl, ?_⟩
    rw [← (captures_loop_counts _ hloop).2]
    constructor
    · rintro ⟨hm, -⟩
      exact congrArg Player.captures hm
    · rintro hc
      dsimp only
      rw [hc]
      exact ⟨rfl, rfl⟩
  · obtain ⟨⟨b, c⟩, hloop, rfl⟩ := Option.map_eq_some_iff.mp h
    refine ⟨rfl, ?_⟩
    rw [← (captures_loop_counts _ hloop).2]
    constructor
    · rintro ⟨-, hy⟩
      exact congrArg Player.captures hy
    · rintro hc
      dsimp only
      rw [hc]
      exact ⟨rfl, rfl⟩

theorem undo_restored_iff {own : Bool} {x y : Int} {s s₁ s₂ : Engine} (hmove : make_move fuel own x y s = some s₁)
    (hundo : do_undo s₁ = some s₂) : Restored s s₂ ↔ TakesNothing fuel own x y s := by
  have hcolor : (if own then s.Mine else s.Your).color = (if own then s.Mine.color else s.Your.color) := by cases own <;> rfl
  have hother : (if own then s.Your else s.Mine).color = (if own then s.Your.color else s.Mine.color) := by cases own <;> rfl
  unfold make_move at hmove
  simp only [hcolor, hother] at hmove
  unfold do_undo at hundo
  split at hundo
  · cases hundo
  · cases hundo
    unfold TakesNothing
    dsimp only
    by_cases hplay : s.playing = true
    · rw [if_pos hplay] at hmove
      obtain ⟨s', hcap, rfl⟩ := Option.map_eq_some_iff.mp hmove
      have ⟨hback, hiff⟩ := do_captures_counts hcap
      constructor
      · intro hr _
        exact hiff.mp ⟨hr.mine, hr.yours⟩
      · intro hs
        have hk := hiff.mpr (hs hplay)
        exact ⟨hback, hk.1, hk.2⟩
    · rw [if_neg hplay] at hmove
      cases hmove
      exact ⟨fun _ h => absurd h hplay, fun _ => ⟨rfl, rfl, rfl⟩⟩

end WWindowSystem.Go

namespace WWindowSystem.Pente

structure Restored (s s' : Engine) : Prop where
  board : s'.Board = s.Board
  mine : s'.Mine = s.Mine
  yours : s'.Your = s.Your

theorem capture_dirs_counts {own other : color_t} {x y : Int} (dirs : List (Int × Int)) (s : (Int → Int → color_t) × Nat) :
    s.2 ≤ (dirs.foldl (capture_dir own other x y) s).2 ∧
      ((dirs.foldl (capture_dir own other x y) s).2 = s.2 ↔ ∀ dir ∈ dirs, ¬ brackets own other x y s.1 dir) := by
  induction dirs generalizing s with
  | nil => simp
  | cons dir dirs ih =>
    rw [List.foldl_cons, List.forall_mem_cons]
    by_cases h : brackets own other x y s.1 dir
    · have hstep : (capture_dir own other x y s dir).2 = s.2 + 1 := by rw [capture_dir, if_pos h]
      have hle := (ih (capture_dir own other x y s dir)).1
      exact ⟨by omega, fun he => by omega, fun hn => absurd h hn.1⟩
    · have hstep : capture_dir own other x y s dir = s := by rw [capture_dir, if_neg h]
      rw [hstep]
      have hih := ih s
      exact ⟨hih.1, by simp [hih.2, h]⟩

def TakesNothing (own : Bool) (x y : Int) (s : Engine) : Prop :=
  let one := if own then s.Mine.color else s.Your.color
  let two := if own then s.Your.color else s.Mine.color
  s.playing = true → ∀ dir ∈ capture_table, ¬ brackets one two x y (put s.Board x y one) dir

theorem capture_counts (own : Bool) (x y : Int) (s : Engine) : (capture own x y s).1.Backup = s.Backup ∧
      ((capture own x y s).1.Mine = s.Mine ∧ (capture own x y s).1.Your = s.Your ↔
        ∀ dir ∈ capture_table, ¬ brackets (if own then s.Mine.color else s.Your.color) (if own then s.Your.color else s.Mine.color) x y
          s.Board dir) := by
  refine ⟨rfl, ?_⟩
  cases own with
  | true =>
    rw [if_pos rfl, if_pos rfl, ← (capture_dirs_counts capture_table (s.Board, s.Mine.captures)).2]
    constructor
    · rintro ⟨hm, -⟩
      exact congrArg Player.captures hm
    · intro hc
      exact ⟨congrArg (fun c => { s.Mine with captures := c }) hc, rfl⟩
  | false =>
    rw [if_neg Bool.false_ne_true, if_neg Bool.false_ne_true, ← (capture_dirs_counts capture_table (s.Board, s.Your.captures)).2]
    constructor
    · rintro ⟨-, hy⟩
      exact congrArg Player.captures hy
    · intro hc
      exact ⟨rfl, congrArg (fun c => { s.Your with captures := c }) hc⟩

def placed (own : Bool) (x y : Int) (s : Engine) : Engine :=
  { s with Backup := s.Board, Board := put s.Board x y (if own then s.Mine.color else s.Your.color), LastX := x, LastY := y }

theorem make_move_played (own : Bool) (x y : Int) {s : Engine} (hplay : s.playing = true) : ∃ clearing playing,
      make_move own x y s = { (capture own x y (placed own x y s)).1 with NeedClearing := clearing, playing := playing } := by
  unfold make_move placed
  rw [if_pos hplay]
  cases own <;> exact ⟨_, _, rfl⟩

theorem undo_restored_iff {own : Bool} {x y : Int} {s s' : Engine} (hundo : do_undo (make_move own x y s) = some s') :
    Restored s s' ↔ TakesNothing own x y s := by
  have hs' : s' = { make_move own x y s with Board := (make_move own x y s).Backup, LastX := -1 } := by
    unfold do_undo at hundo
    split at hundo
    · cases hundo
    · exact (Option.some.inj hundo).symm
  subst hs'
  by_cases hplay : s.playing = true
  · obtain ⟨clearing, playing, hmove⟩ := make_move_played own x y hplay
    have ⟨hback, hiff⟩ := capture_counts own x y (placed own x y s)
    rw [hmove]
    constructor
    · intro hr _
      exact hiff.mp ⟨hr.mine, hr.yours⟩
    · intro hs
      have hk := hiff.mpr (hs hplay)
      exact ⟨hback, hk.1, hk.2⟩
  · have hmove : make_move own x y s =
        { s with Backup := s.Board, Board := put s.Board x y (if own then s.Mine else s.Your).color } := by
      unfold make_move
      rw [if_neg hplay]
    rw [hmove]
    exact ⟨fun _ h => absurd h hplay, fun _ => ⟨rfl, rfl, rfl⟩⟩

end WWindowSystem.Pente

namespace WWindowSystem.Chess

structure Move where
  type : Message
  x : Int
  y : Int
  promote : Option (Message × Int × Int)

def target (type : Message) (y : Int) : Option Int :=
  match type with
  | .PIECE_MOVE | .EN_PASSANT | .HIDE_KING => some (7 - y)
  | .RETURN_MOVE | .RETURN_PASSANT | .RETURN_KING => some y
  | _ => none

def play (m : Move) (s : Engine) : Engine :=
  let s := messages m.type m.x m.y s
  match m.promote with
  | some (.PIECE_PROMOTE, x, y) => messages .PIECE_PROMOTE x y s
  | some (.RETURN_PROMOTE, x, y) => messages .RETURN_PROMOTE x y s
  | _ => s

structure Restored (s s' : Engine) : Prop where
  board : s'.Board = s.Board
  mine : s'.Mine = s.Mine
  yours : s'.Your = s.Your
  pass_x : s'.PassX = s.PassX
  pass_y : s'.PassY = s.PassY

def KingStays (x y : Int) (s : Engine) : Prop :=
  PIECE (s.Board s.FromX s.FromY) = KING → ¬ (x = s.FromX ∧ y = s.FromY) →
    if COLOR (s.Board s.FromX s.FromY) = s.Mine.color then s.Mine.kx = x ∧ s.Mine.ky = y else s.Your.kx = x ∧ s.Your.ky = y

def PassStays (x y : Int) (s : Engine) : Prop :=
  if double_step x y s then s.PassX = x ∧ s.PassY = y else s.PassX = -1 ∧ s.PassY = -1

theorem piece_moved (c : char) : PIECE (c ||| MOVED) = PIECE c := by
  revert c
  decide

theorem color_moved (c : char) : COLOR (c ||| MOVED) = COLOR c := by
  revert c
  decide

theorem make_move_backup (x y : Int) (s : Engine) : (make_move x y s).Backup = s.Board := by
  unfold make_move
  dsimp only
  split
  · split <;> rfl
  · rfl

theorem make_move_pass (x y : Int) (s : Engine) :
    (make_move x y s).PassX = s.PassX ∧ (make_move x y s).PassY = s.PassY ↔ PassStays x y s := by
  have hpass : (make_move x y s).PassX = (if double_step x y s then (x, y) else (-1, -1)).1 ∧
      (make_move x y s).PassY = (if double_step x y s then (x, y) else (-1, -1)).2 := by
    unfold make_move
    dsimp only
    split
    · split <;> exact ⟨rfl, rfl⟩
    · exact ⟨rfl, rfl⟩
  rw [hpass.1, hpass.2, PassStays]
  split
  · exact ⟨fun h => ⟨h.1.symm, h.2.symm⟩, fun h => ⟨h.1.symm, h.2.symm⟩⟩
  · exact ⟨fun h => ⟨h.1.symm, h.2.symm⟩, fun h => ⟨h.1.symm, h.2.symm⟩⟩

theorem player_eq (p : Player) (x y : Int) : { p with kx := x, ky := y } = p ↔ p.kx = x ∧ p.ky = y := by
  obtain ⟨kx, ky, color⟩ := p
  simp only [Player.mk.injEq, and_true]
  exact ⟨fun h => ⟨h.1.symm, h.2.symm⟩, fun h => ⟨h.1.symm, h.2.symm⟩⟩

theorem make_move_kings (x y : Int) (s : Engine) :
    (make_move x y s).Mine = s.Mine ∧ (make_move x y s).Your = s.Your ↔ KingStays x y s := by
  unfold make_move KingStays
  dsimp only
  by_cases hplace : x = s.FromX ∧ y = s.FromY
  · -- the piece is wiped out by its own square
    have hgone : put (put s.Board x y (s.Board s.FromX s.FromY ||| MOVED)) s.FromX s.FromY EMPTY x y = EMPTY := if_pos hplace
    rw [hgone, if_neg (by decide)]
    exact ⟨fun _ _ hn => absurd hplace hn, fun _ => ⟨rfl, rfl⟩⟩
  · have hcell : put (put s.Board x y (s.Board s.FromX s.FromY ||| MOVED)) s.FromX s.FromY EMPTY x y = s.Board s.FromX s.FromY ||| MOVED := by
      rw [put, if_neg hplace, put, if_pos ⟨rfl, rfl⟩]
    rw [hcell, piece_moved, color_moved]
    by_cases hking : PIECE (s.Board s.FromX s.FromY) = KING
    · rw [if_pos hking]
      by_cases hc : COLOR (s.Board s.FromX s.FromY) = s.Mine.color
      · rw [if_pos hc, if_pos hc]
        dsimp only
        rw [player_eq s.Mine]
        exact ⟨fun h _ _ => h.1, fun h => ⟨h hking hplace, rfl⟩⟩
      · rw [if_neg hc, if_neg hc]
        dsimp only
        rw [player_eq s.Your]
        exact ⟨fun h _ _ => h.2, fun h => ⟨rfl, h hking hplace⟩⟩
    · rw [if_neg hking]
      exact ⟨fun _ hk => absurd hk hking, fun _ => ⟨rfl, rfl⟩⟩

structure SameButBoard (s s' : Engine) : Prop where
  backup : s'.Backup = s.Backup
  mine : s'.Mine = s.Mine
  yours : s'.Your = s.Your
  pass_x : s'.PassX = s.PassX
  pass_y : s'.PassY = s.PassY

theorem play_move (m : Move) (s : Engine) {ty : Int} (hm : target m.type m.y = some ty) : SameButBoard (make_move m.x ty s) (play m s) := by
  obtain ⟨type, x, y, promote⟩ := m
  have hmove : SameButBoard (make_move x ty s) (messages type x y s) := by
    cases type <;> cases hm <;> exact ⟨rfl, rfl, rfl, rfl, rfl⟩
  unfold play
  dsimp only
  split
  · exact ⟨hmove.backup, hmove.mine, hmove.yours, hmove.pass_x, hmove.pass_y⟩
  · exact ⟨hmove.backup, hmove.mine, hmove.yours, hmove.pass_x, hmove.pass_y⟩
  · exact hmove

theorem undo_restored_iff (m : Move) (s : Engine) {ty : Int} (hm : target m.type m.y = some ty) :
    Restored s (do_undo (play m s)) ↔ KingStays m.x ty s ∧ PassStays m.x ty s := by
  have hplay := play_move m s hm
  rw [← make_move_kings, ← make_move_pass]
  constructor
  · intro h
    exact ⟨⟨hplay.mine.symm.trans h.mine, hplay.yours.symm.trans h.yours⟩, hplay.pass_x.symm.trans h.pass_x,
      hplay.pass_y.symm.trans h.pass_y⟩
  · rintro ⟨⟨hmine, hyours⟩, hx, hy⟩
    exact ⟨hplay.backup.trans (make_move_backup m.x ty s), hplay.mine.trans hmine, hplay.yours.trans hyours, hplay.pass_x.trans hx,
      hplay.pass_y.trans hy⟩

end WWindowSystem.Chess

namespace WWindowSystem

/-- Reversi never comes back, the stone games when nothing is taken, and chess when no king moves and no pawn steps two squares
or could be taken in passing. -/
theorem undo_inverts (own : Bool) (x y : Int) (fuel : Nat) (m : Chess.Move) (ty : Int) :
    (∀ s : Reversi.Engine, ¬ Reversi.Restored s (Reversi.do_undo (Reversi.make_move own x y s))) ∧
      (∀ s s₁ s₂ : Go.Engine, Go.make_move fuel own x y s = some s₁ → Go.do_undo s₁ = some s₂ →
        (Go.Restored s s₂ ↔ Go.TakesNothing fuel own x y s)) ∧
      (∀ s s' : Pente.Engine, Pente.do_undo (Pente.make_move own x y s) = some s' →
        (Pente.Restored s s' ↔ Pente.TakesNothing own x y s)) ∧ ∀ s : Chess.Engine, Chess.target m.type m.y = some ty →
        (Chess.Restored s (Chess.do_undo (Chess.play m s)) ↔ Chess.KingStays m.x ty s ∧ Chess.PassStays m.x ty s) :=
  ⟨Reversi.undo_not_restored own x y, fun _ _ _ => Go.undo_restored_iff, fun _ _ => Pente.undo_restored_iff,
    fun s => Chess.undo_restored_iff m s⟩

def pair : Pente.Engine where
  LastX := 2
  LastY := 9
  Board := Pente.put (Pente.put (Pente.put (fun _ _ => .EMPTY) 3 9 .WHITE) 4 9 .BLACK) 5 9 .BLACK
  Backup := fun _ _ => .EMPTY
  Mine := ⟨0, .WHITE⟩
  Your := ⟨0, .BLACK⟩
  NeedClearing := false
  playing := true

/-- The pair is back on the board after the undo, and stays counted. -/
theorem undo_not_inverts :
    ∃ s', Pente.do_undo (Pente.make_move true 6 9 pair) = some s' ∧ ¬ Pente.Restored pair s' := by
  refine ⟨{ Pente.make_move true 6 9 pair with Board := (Pente.make_move true 6 9 pair).Backup, LastX := -1 }, rfl, ?_⟩
  intro h
  have hcount : (Pente.make_move true 6 9 pair).Mine.captures = 1 := by decide +kernel
  have hkept : (Pente.make_move true 6 9 pair).Mine.captures = 0 := congrArg Pente.Player.captures h.mine
  omega

theorem undo_inverts_quiet : Pente.Restored pair
      { Pente.make_move true 10 10 pair with Board := (Pente.make_move true 10 10 pair).Backup, LastX := -1 } :=
  ((undo_inverts true 10 10 0 ⟨.PIECE_MOVE, 0, 0, none⟩ 0).2.2.1 pair _ rfl).mpr fun _ => by decide +kernel

end WWindowSystem
