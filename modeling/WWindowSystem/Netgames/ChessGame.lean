import WWindowSystem.Netgames.ChessMoves

namespace WWindowSystem.Chess

/-! The positions of a game. -/

def start_board (mine : char) (x y : Int) : char :=
  if y < 0 ∨ y > 7 ∨ x < 0 ∨ x > 7 ∨ 1 < y ∧ y < 6 then EMPTY
  else
    let color := if y < 2 then OPPONENT mine else mine
    let piece :=
      if y = 1 ∨ y = 6 then PAWN
      else if x = 0 ∨ x = 7 then ROOK
      else if x = 1 ∨ x = 6 then KNIGHT
      else if x = 2 ∨ x = 5 then BISHOP
      else if (x = 3) = ((y = 0) = (mine = WHITE)) then KING
      else QUEEN
    piece ||| color

def find_kings (s : Engine) : Engine :=
  squares.foldl
    (fun s p =>
      if PIECE (s.Board p.1 p.2) = KING then
        if COLOR (s.Board p.1 p.2) = s.Mine.color then { s with Mine := { s.Mine with kx := p.1, ky := p.2 } }
        else { s with Your := { s.Your with kx := p.1, ky := p.2 } }
      else s)
    s

def initial (mine : char) : Engine :=
  find_kings
    { MoveFrom := false
      PassX := -1
      PassY := -1
      FromX := 0
      FromY := 0
      Board := start_board mine
      Backup := fun _ _ => EMPTY
      Mine := ⟨-1, 0, mine⟩
      Your := ⟨-1, 0, OPPONENT mine⟩ }

/-- The positions that legal moves lead to, with the side that is to move. The square of the next move can be
chosen at any time; a pawn on the last row becomes another piece. -/
inductive Reached : Engine → char → Prop
  | start (mine : char) (hm : mine = BLACK ∨ mine = WHITE) : Reached (initial mine) WHITE
  | select {s : Engine} {color : char} (h : Reached s color) (m : Bool) (x y : Int) (b : Int → Int → char) :
    Reached { s with MoveFrom := m, FromX := x, FromY := y, Backup := b } color
  | move {s : Engine} {color : char} {tox toy : Int} (h : Reached s color) (ho : Own s color s.FromX s.FromY)
    (hto : OnBoard tox toy) (hl : Legal s color s.FromX s.FromY tox toy .PIECE_MOVE)
    (hlast : ¬ (PIECE (s.Board s.FromX s.FromY) = PAWN ∧ (toy = 0 ∨ toy = 7))) :
    Reached (make_move tox toy s) (OPPONENT color)
  | promote {s : Engine} {color piece : char} {tox toy : Int} (h : Reached s color) (ho : Own s color s.FromX s.FromY)
    (hto : OnBoard tox toy) (hl : Legal s color s.FromX s.FromY tox toy .PIECE_MOVE)
    (hlast : PIECE (s.Board s.FromX s.FromY) = PAWN ∧ (toy = 0 ∨ toy = 7)) (hp : piece ∈ [ROOK, KNIGHT, BISHOP, QUEEN]) :
    Reached (promotion tox toy piece (make_move tox toy s)) (OPPONENT color)
  | passant {s : Engine} {color : char} {tox toy : Int} (h : Reached s color) (ho : Own s color s.FromX s.FromY)
    (hto : OnBoard tox toy) (hl : Legal s color s.FromX s.FromY tox toy .EN_PASSANT) :
    Reached { make_move tox toy s with Board := put (make_move tox toy s).Board s.PassX s.PassY EMPTY } (OPPONENT color)
  | castle {s : Engine} {color : char} {tox toy : Int} (h : Reached s color) (ho : Own s color s.FromX s.FromY)
    (hto : OnBoard tox toy) (hl : Legal s color s.FromX s.FromY tox toy .HIDE_KING) :
    Reached (fortificate tox toy (ROOK ||| MOVED ||| color) s) (OPPONENT color)

def LikeCell (color c c' : char) : Prop :=
  (c = EMPTY ↔ c' = EMPTY) ∧ COLOR c = COLOR c' ∧
    (PIECE c = PIECE c' ∨ COLOR c = color ∧ PIECE c ≠ KING ∧ PIECE c' ≠ KING)

def Like (color : char) (b b' : Int → Int → char) : Prop := ∀ x y, LikeCell color (b x y) (b' x y)

theorem Like.refl (color : char) (b : Int → Int → char) : Like color b b := fun _ _ => ⟨Iff.rfl, rfl, .inl rfl⟩

variable {b b' : Int → Int → char}

theorem Like.put {color c c' : char} (h : Like color b b') (hc : LikeCell color c c') (x y : Int) :
    Like color (put b x y c) (put b' x y c') := by
  intro u v
  unfold Chess.put
  split_ifs
  · exact hc
  · exact h u v

theorem LikeCell.king {color c c' : char} (h : LikeCell color c c') : PIECE c = KING ↔ PIECE c' = KING := by
  rcases h.2.2 with h | ⟨-, h1, h2⟩
  · rw [h]
  · exact iff_of_false h1 h2

variable {color : char}

theorem Like.alone {c : char} {k : Int × Int} (h : Like color b b') (ha : Alone b c k) :
    Alone b' c k := by
  refine ⟨ha.1, fun x y hxy => ?_⟩
  rw [← ha.2 x y hxy, Holds, Holds, (h x y).king, (h x y).2.1]

theorem Like.safe {dir : Int} (hc : color = BLACK ∨ color = WHITE)
    (h : Like color b b') (hs : Safe b dir color) : Safe b' dir color := by
  intro kx ky hon hk
  rintro ⟨x, y, hxy, ha⟩
  have hholds : ∀ piece, Holds b' x y piece (OPPONENT color) → Holds b x y piece (OPPONENT color) := by
    rintro piece ⟨h1, h2⟩
    have hcolor : COLOR (b x y) = OPPONENT color := (h x y).2.1.trans h2
    refine ⟨?_, hcolor⟩
    rcases (h x y).2.2 with he | ⟨he, -⟩
    · exact he.trans h1
    · exact absurd (hcolor.symm.trans he) (opponent_ne hc)
  have hsees : ∀ dx dy, Sees b' kx ky dx dy x y → Sees b kx ky dx dy x y := by
    rintro dx dy ⟨n, hn, hx, hy, he⟩
    exact ⟨n, hn, hx, hy, fun m h1 hm => (h _ _).1.2 (he m h1 hm)⟩
  refine hs kx ky hon ⟨(h kx ky).king.2 hk.1, (h kx ky).2.1.trans hk.2⟩ ⟨x, y, hxy, ?_⟩
  cases ha with
  | knight hp hd => exact .knight (hholds _ hp) hd
  | rook hp dx dy hd hs => exact .rook (hholds _ hp) dx dy hd (hsees dx dy hs)
  | bishop hp dx dy hd hs => exact .bishop (hholds _ hp) dx dy hd (hsees dx dy hs)
  | queen hp dx dy hd hs => exact .queen (hholds _ hp) dx dy hd (hsees dx dy hs)
  | pawn hp hd => exact .pawn (hholds _ hp) hd
  | king hp hd => exact .king (hholds _ hp) hd

theorem moved_flag (c : char) : PIECE (c ||| MOVED) = PIECE c ∧ COLOR (c ||| MOVED) = COLOR c ∧ c ||| MOVED ≠ EMPTY := by
  revert c
  decide

theorem opponent_opponent (c : char) (hc : c = BLACK ∨ c = WHITE) : OPPONENT (OPPONENT c) = c ∧
    (OPPONENT c = BLACK ∨ OPPONENT c = WHITE) := by
  obtain rfl | rfl := hc <;> decide

def played (b : Int → Int → char) (x y tox toy : Int) : Int → Int → char := put (put b tox toy (b x y ||| MOVED)) x y EMPTY

theorem played_like {b : Int → Int → char} {x y : Int} (h : b x y ≠ EMPTY) (color : char) (tox toy : Int) :
    Like color (moved b x y tox toy) (played b x y tox toy) := by
  obtain ⟨h1, h2, h3⟩ := moved_flag (b x y)
  exact ((Like.refl color b).put ⟨iff_of_false h h3, h2.symm, .inl h1.symm⟩ tox toy).put ⟨Iff.rfl, rfl, .inl rfl⟩ x y

theorem move_board (s : Engine) (tox toy : Int) :
    (make_move tox toy s).Board = played s.Board s.FromX s.FromY tox toy := by
  unfold make_move
  dsimp only
  split_ifs <;> rfl

theorem move_colors (s : Engine) (tox toy : Int) : (make_move tox toy s).Mine.color = s.Mine.color ∧
    (make_move tox toy s).Your.color = s.Your.color ∧ (make_move tox toy s).FromX = s.FromX := by
  unfold make_move
  dsimp only
  split_ifs <;> exact ⟨rfl, rfl, rfl⟩

variable {tox toy : Int} {s : Engine}

theorem pass_placed (h : OnBoard (make_move tox toy s).PassX (make_move tox toy s).PassY) :
    (make_move tox toy s).PassX = tox ∧ (make_move tox toy s).PassY = toy ∧ PIECE (s.Board s.FromX s.FromY) = PAWN := by
  unfold make_move at h ⊢
  dsimp only at h ⊢
  by_cases hd : double_step tox toy s
  · rw [if_pos hd]
    split_ifs <;> exact ⟨rfl, rfl, hd.1⟩
  · exfalso
    rw [if_neg hd] at h
    unfold OnBoard at h
    split_ifs at h <;> dsimp only at h <;> omega

theorem move_king (h : Position s color) (ho : Own s color s.FromX s.FromY)
    (hne : ¬ (tox = s.FromX ∧ toy = s.FromY)) (c : char) (hc : c = BLACK ∨ c = WHITE) : kingOf (make_move tox toy s) c =
      if PIECE (s.Board s.FromX s.FromY) = KING ∧ color = c then (tox, toy) else kingOf s c := by
  obtain ⟨hp, hcol, -⟩ := moved_flag (s.Board s.FromX s.FromY)
  have hto : played s.Board s.FromX s.FromY tox toy tox toy = s.Board s.FromX s.FromY ||| MOVED := by
    rw [played, put_other _ _ hne, put_self]
  have hto' : put (put s.Board tox toy (s.Board s.FromX s.FromY ||| MOVED)) s.FromX s.FromY EMPTY tox toy =
      s.Board s.FromX s.FromY ||| MOVED := hto
  have hpk : PIECE (put (put s.Board tox toy (s.Board s.FromX s.FromY ||| MOVED)) s.FromX s.FromY EMPTY tox toy) = KING ↔
      PIECE (s.Board s.FromX s.FromY) = KING := by rw [hto', hp]
  have hcc : COLOR (put (put s.Board tox toy (s.Board s.FromX s.FromY ||| MOVED)) s.FromX s.FromY EMPTY tox toy) =
      s.Mine.color ↔ color = s.Mine.color := by rw [hto', hcol, ho.color]
  unfold make_move kingOf
  dsimp only
  by_cases hk : PIECE (s.Board s.FromX s.FromY) = KING
  · rw [if_pos (hpk.2 hk)]
    by_cases hmine : color = s.Mine.color
    · rw [if_pos (hcc.2 hmine)]
      dsimp only
      by_cases hc' : c = s.Mine.color
      · rw [if_pos hc', if_pos ⟨hk, hmine.trans hc'.symm⟩]
      · rw [if_neg hc', if_neg fun he => hc' (he.2.symm.trans hmine), if_neg hc']
    · rw [if_neg (mt hcc.1 hmine)]
      dsimp only
      by_cases hc' : c = s.Mine.color
      · rw [if_pos hc', if_neg fun he => hmine (he.2.trans hc'), if_pos hc']
      · have hsame : color = c := by
          rcases h.colors with ⟨h1, -⟩ | ⟨h1, -⟩ <;> rw [h1] at hmine hc' <;> rcases h.turn with rfl | rfl <;>
            rcases hc with rfl | rfl <;> first | rfl | exact absurd rfl hmine | exact absurd rfl hc'
        rw [if_neg hc', if_pos ⟨hk, hsame⟩]
  · rw [if_neg (mt hpk.1 hk)]
    exact (if_neg fun he : PIECE (s.Board s.FromX s.FromY) = KING ∧ color = c => hk he.1).symm

theorem moved_kings (h : Position s color) (ho : Own s color s.FromX s.FromY)
    (hto : OnBoard tox toy) (hn : NotOwn s color tox toy) (hking : ¬ Holds s.Board tox toy KING (OPPONENT color)) (c : char)
    (hc : c = BLACK ∨ c = WHITE) : Alone (moved s.Board s.FromX s.FromY tox toy) c (kingOf (make_move tox toy s) c) := by
  have hne := hn.ne ho
  rw [move_king h ho hne c hc]
  by_cases hcolor : color = c
  · subst hcolor
    rw [show (if PIECE (s.Board s.FromX s.FromY) = KING ∧ color = color then (tox, toy) else kingOf s color) =
      if PIECE (s.Board s.FromX s.FromY) = KING then (tox, toy) else kingOf s color by simp]
    exact moved_alone (h.kings color hc) ho.on hto ho.color hne (hn.not_holds (by decide))
  · have hopp : c = OPPONENT color := by
      rcases h.turn with rfl | rfl <;> rcases hc with rfl | rfl
      · exact absurd rfl hcolor
      · rfl
      · rfl
      · exact absurd rfl hcolor
    rw [if_neg fun hk => hcolor hk.2]
    refine ((h.kings c hc).put (hopp ▸ hking) fun hv => hcolor (ho.color.symm.trans hv.2)).put ?_ (empty_no_king c)
    rw [Holds, put_other _ _ fun he => hne ⟨he.1.symm, he.2.symm⟩]
    exact fun hv => hcolor (ho.color.symm.trans hv.2)

theorem goes_no_king (h : Position s color) {x y : Int} (ho : Own s color x y)
    (hto : OnBoard tox toy) (hg : Goes s.Board color (pawnDirection s color) x y tox toy) :
    ¬ Holds s.Board tox toy KING (OPPONENT color) := by
  intro hk
  have hquiet : ¬ Attacks s.Board color (pawnDirection s color) x y tox toy := by
    intro ha
    have := h.quiet tox toy hto hk
    rw [(opponent_opponent color h.turn).1] at this
    exact this ⟨x, y, ho.on, ha⟩
  cases hg with
  | piece _ ha => exact hquiet ha
  | eats _ ha _ => exact hquiet ha
  | one _ _ _ he => exact not_king_empty he (by decide) hk
  | two _ _ _ _ he => exact not_king_empty he.2 (by decide) hk

theorem put_pieces {b : Int → Int → char} (h : ∀ x y, OnBoard x y → b x y = EMPTY ∨ PIECE (b x y) ∈ [ROOK, KNIGHT, BISHOP, QUEEN, KING, PAWN])
    {c : char} (hc : c = EMPTY ∨ PIECE c ∈ [ROOK, KNIGHT, BISHOP, QUEEN, KING, PAWN]) (u v : Int) :
    ∀ x y, OnBoard x y → put b u v c x y = EMPTY ∨ PIECE (put b u v c x y) ∈ [ROOK, KNIGHT, BISHOP, QUEEN, KING, PAWN] := by
  intro x y hxy
  unfold put
  split_ifs
  · exact hc
  · exact h x y hxy

theorem played_pieces (h : Position s color) (ho : Own s color s.FromX s.FromY) (tox toy : Int) :
    ∀ x y, OnBoard x y → played s.Board s.FromX s.FromY tox toy x y = EMPTY ∨
      PIECE (played s.Board s.FromX s.FromY tox toy x y) ∈ [ROOK, KNIGHT, BISHOP, QUEEN, KING, PAWN] := by
  refine put_pieces (put_pieces h.pieces (.inr ?_) tox toy) (.inl rfl) s.FromX s.FromY
  rw [(moved_flag _).1]
  exact (h.pieces _ _ ho.on).resolve_left ho.piece

theorem Position.next {s t : Engine} {b : Int → Int → char} (h : Position s color)
    (hcolors : t.Mine.color = s.Mine.color ∧ t.Your.color = s.Your.color)
    (hpieces : ∀ x y, OnBoard x y → t.Board x y = EMPTY ∨ PIECE (t.Board x y) ∈ [ROOK, KNIGHT, BISHOP, QUEEN, KING, PAWN])
    (hlike : Like color b t.Board) (hkings : ∀ c, c = BLACK ∨ c = WHITE → Alone b c (kingOf t c))
    (hpass : OnBoard t.PassX t.PassY → t.Board t.PassX t.PassY ≠ EMPTY ∧ COLOR (t.Board t.PassX t.PassY) = color ∧
      PIECE (t.Board t.PassX t.PassY) ≠ KING)
    (hsafe : Safe b (pawnDirection s (OPPONENT color)) color) : Position t (OPPONENT color) := by
  have hopp := opponent_opponent color h.turn
  have hdir : ∀ c, pawnDirection t c = pawnDirection s c := by
    intro c
    rw [pawnDirection, pawnDirection, hcolors.1]
  refine ⟨by rw [hcolors.1, hcolors.2]; exact h.colors, hopp.2, hpieces, fun c hc => hlike.alone (hkings c hc), ?_, ?_⟩
  · rw [hopp.1]
    exact hpass
  · rw [hopp.1, hdir]
    exact hlike.safe h.turn hsafe

theorem moved_piece (hne : ¬ (tox = s.FromX ∧ toy = s.FromY)) :
    played s.Board s.FromX s.FromY tox toy tox toy = s.Board s.FromX s.FromY ||| MOVED := by
  rw [played, put_other _ _ hne, put_self]

theorem played_pass (ho : Own s color s.FromX s.FromY)
    (hne : ¬ (tox = s.FromX ∧ toy = s.FromY)) (hon : OnBoard (make_move tox toy s).PassX (make_move tox toy s).PassY) :
    played s.Board s.FromX s.FromY tox toy (make_move tox toy s).PassX (make_move tox toy s).PassY ≠ EMPTY ∧
      COLOR (played s.Board s.FromX s.FromY tox toy (make_move tox toy s).PassX (make_move tox toy s).PassY) = color ∧
      PIECE (played s.Board s.FromX s.FromY tox toy (make_move tox toy s).PassX (make_move tox toy s).PassY) ≠ KING := by
  obtain ⟨h1, h2, hp⟩ := pass_placed hon
  obtain ⟨h3, h4, h5⟩ := moved_flag (s.Board s.FromX s.FromY)
  rw [h1, h2, moved_piece hne]
  refine ⟨h5, h4.trans ho.color, ?_⟩
  rw [h3, hp]
  decide

theorem move_position (h : Position s color) (ho : Own s color s.FromX s.FromY)
    (hto : OnBoard tox toy) (hl : Legal s color s.FromX s.FromY tox toy .PIECE_MOVE) :
    Position (make_move tox toy s) (OPPONENT color) := by
  cases hl with
  | move hn hg hs =>
    have hcolors := move_colors s tox toy
    refine h.next ⟨hcolors.1, hcolors.2.1⟩ ?_ (b := moved s.Board s.FromX s.FromY tox toy) ?_
      (moved_kings h ho hto hn (goes_no_king h ho hto hg)) ?_ hs
    · rw [move_board]
      exact played_pieces h ho tox toy
    · rw [move_board]
      exact played_like ho.piece color tox toy
    · rw [move_board]
      exact played_pass ho (hn.ne ho)

theorem promoted {piece : char} (hp : piece ∈ [ROOK, KNIGHT, BISHOP, QUEEN]) (c : char) :
    piece ||| (c &&& ~~~PIECES) ≠ EMPTY ∧ PIECE (piece ||| (c &&& ~~~PIECES)) = piece ∧
      COLOR (piece ||| (c &&& ~~~PIECES)) = COLOR c ∧ piece ≠ KING ∧ piece ∈ [ROOK, KNIGHT, BISHOP, QUEEN, KING, PAWN] := by
  have hall : ∀ piece ∈ [ROOK, KNIGHT, BISHOP, QUEEN], ∀ c : char, piece ||| (c &&& ~~~PIECES) ≠ EMPTY ∧
      PIECE (piece ||| (c &&& ~~~PIECES)) = piece ∧ COLOR (piece ||| (c &&& ~~~PIECES)) = COLOR c ∧ piece ≠ KING ∧
      piece ∈ [ROOK, KNIGHT, BISHOP, QUEEN, KING, PAWN] := by decide +kernel
  exact hall piece hp c

theorem promote_position {color piece : char} (h : Position s color)
    (ho : Own s color s.FromX s.FromY) (hto : OnBoard tox toy) (hl : Legal s color s.FromX s.FromY tox toy .PIECE_MOVE)
    (hpawn : PIECE (s.Board s.FromX s.FromY) = PAWN) (hp : piece ∈ [ROOK, KNIGHT, BISHOP, QUEEN]) :
    Position (promotion tox toy piece (make_move tox toy s)) (OPPONENT color) := by
  cases hl with
  | move hn hg hs =>
    have hcolors := move_colors s tox toy
    have hne := hn.ne ho
    obtain ⟨h1, h2, h3, h4, h5⟩ := promoted hp (s.Board s.FromX s.FromY ||| MOVED)
    obtain ⟨h6, h7, h8⟩ := moved_flag (s.Board s.FromX s.FromY)
    have hboard : (promotion tox toy piece (make_move tox toy s)).Board = put (played s.Board s.FromX s.FromY tox toy) tox toy
        (piece ||| ((s.Board s.FromX s.FromY ||| MOVED) &&& ~~~PIECES)) := by
      unfold promotion
      dsimp only
      rw [move_board, moved_piece hne]
    refine h.next ⟨hcolors.1, hcolors.2.1⟩ ?_ (b := moved s.Board s.FromX s.FromY tox toy) ?_
      (moved_kings h ho hto hn (goes_no_king h ho hto hg)) ?_ hs
    · rw [hboard]
      exact put_pieces (played_pieces h ho tox toy) (.inr (by rw [h2]; exact h5)) tox toy
    · rw [hboard]
      have hlike : Like color (put (moved s.Board s.FromX s.FromY tox toy) tox toy (s.Board s.FromX s.FromY))
          (put (played s.Board s.FromX s.FromY tox toy) tox toy
            (piece ||| ((s.Board s.FromX s.FromY ||| MOVED) &&& ~~~PIECES))) :=
        (played_like ho.piece color tox toy).put ⟨iff_of_false ho.piece h1, (h3.trans h7).symm,
          .inr ⟨ho.color, by rw [hpawn]; decide, by rw [h2]; exact h4⟩⟩ tox toy
      have hsame : put (moved s.Board s.FromX s.FromY tox toy) tox toy (s.Board s.FromX s.FromY) =
          moved s.Board s.FromX s.FromY tox toy := by
        funext u v
        by_cases hu : u = tox ∧ v = toy
        · rw [hu.1, hu.2, put_self, moved_to hne]
        · rw [put_other _ _ hu]
      rwa [hsame] at hlike
    · intro hon
      obtain ⟨e1, e2, -⟩ := pass_placed hon
      have e1 : (promotion tox toy piece (make_move tox toy s)).PassX = tox := e1
      have e2 : (promotion tox toy piece (make_move tox toy s)).PassY = toy := e2
      rw [e1, e2, hboard, put_self, h2]
      exact ⟨h1, h3.trans (h7.trans ho.color), h4⟩

theorem passant_position (h : Position s color)
    (ho : Own s color s.FromX s.FromY) (hto : OnBoard tox toy) (hl : Legal s color s.FromX s.FromY tox toy .EN_PASSANT) :
    Position { make_move tox toy s with Board := put (make_move tox toy s).Board s.PassX s.PassY EMPTY } (OPPONENT color) := by
  cases hl with
  | passant hp ha hn hpass hs =>
    have hcolors := move_colors s tox toy
    have hne : ¬ (tox = s.FromX ∧ toy = s.FromY) := NotOwn.ne (.inl hn) ho
    have hdist := (attacks_pawn ho.color hp).1 ha
    have hpon : OnBoard s.PassX s.PassY := by
      have hon := ho.on
      rw [← hpass.1, ← hpass.2]
      unfold OnBoard at *
      omega
    obtain ⟨hpe, hpc, hpk⟩ := h.pass hpon
    have hopp := opponent_opponent color h.turn
    have hpto : ¬ (s.PassX = tox ∧ s.PassY = toy) := fun he => hpe (by rw [he.1, he.2]; exact hn)
    have hpfrom : ¬ (s.PassX = s.FromX ∧ s.PassY = s.FromY) := fun he =>
      opponent_ne h.turn (hpc.symm.trans (by rw [he.1, he.2]; exact ho.color))
    -- the pawn can as well be taken off behind the move
    have hswap : ∀ c, put (put (put s.Board tox toy c) s.FromX s.FromY EMPTY) s.PassX s.PassY EMPTY =
        put (put (put s.Board s.PassX s.PassY EMPTY) tox toy c) s.FromX s.FromY EMPTY := by
      intro c
      funext u v
      unfold put
      by_cases hu : u = s.PassX ∧ v = s.PassY
      · rw [if_pos hu, if_neg fun he => hpfrom ⟨hu.1.symm.trans he.1, hu.2.symm.trans he.2⟩,
          if_neg fun he => hpto ⟨hu.1.symm.trans he.1, hu.2.symm.trans he.2⟩, if_pos hu]
      · rw [if_neg hu, if_neg hu]
    have hfrom : put s.Board s.PassX s.PassY EMPTY s.FromX s.FromY = s.Board s.FromX s.FromY :=
      put_other _ _ fun he => hpfrom ⟨he.1.symm, he.2.symm⟩
    have hmoved : moved (put s.Board s.PassX s.PassY EMPTY) s.FromX s.FromY tox toy =
        put (moved s.Board s.FromX s.FromY tox toy) s.PassX s.PassY EMPTY := by
      rw [moved, hfrom, ← hswap]
      rfl
    refine h.next (b := put (moved s.Board s.FromX s.FromY tox toy) s.PassX s.PassY EMPTY) ⟨hcolors.1, hcolors.2.1⟩ ?_ ?_ ?_ ?_
      (by rw [← hmoved]; exact hs)
    · dsimp only
      rw [move_board]
      exact put_pieces (played_pieces h ho tox toy) (.inl rfl) s.PassX s.PassY
    · dsimp only
      rw [move_board]
      exact (played_like ho.piece color tox toy).put ⟨Iff.rfl, rfl, .inl rfl⟩ s.PassX s.PassY
    · intro c hc
      refine (moved_kings h ho hto (.inl hn) (not_king_empty hn (by decide)) c hc).put ?_ (empty_no_king c)
      rw [Holds, moved_other _ hpfrom hpto]
      exact fun hk => hpk hk.1
    · intro hon
      obtain ⟨e1, e2, -⟩ := pass_placed hon
      have hstay := played_pass ho hne hon
      dsimp only
      rw [move_board, put_other]
      · exact hstay
      · rw [e1, e2]
        exact fun he => hpto ⟨he.1.symm, he.2.symm⟩

theorem castle_position (h : Position s color)
    (ho : Own s color s.FromX s.FromY) (hto : OnBoard tox toy) (hl : Legal s color s.FromX s.FromY tox toy .HIDE_KING) :
    Position (fortificate tox toy (ROOK ||| MOVED ||| color) s) (OPPONENT color) := by
  cases hl with
  | castle d hm hs =>
    obtain rfl := hm.place.2
    have hcolors := move_colors s tox s.FromY
    have hn : NotOwn s color tox s.FromY := .inl hm.free
    have hne := hn.ne ho
    have hway := castle_way ho.on hto hm.dir hm.place hn hm.rook h.turn hm.clear
    have hking := hm.king
    have hrook : ∀ c, c = BLACK ∨ c = WHITE → PIECE (ROOK ||| MOVED ||| c) = ROOK ∧ COLOR (ROOK ||| MOVED ||| c) = c ∧
        ROOK ||| MOVED ||| c ≠ EMPTY ∧ PIECE (ROOK ||| c) = ROOK ∧ COLOR (ROOK ||| c) = c ∧ ROOK ||| c ≠ EMPTY := by
      rintro c (rfl | rfl) <;> decide
    obtain ⟨r1, r2, r3, r4, r5, r6⟩ := hrook color h.turn
    have hplace := hm.place
    have hd := hm.dir
    have hsign : (tox - s.FromX).sign = d := by
      obtain rfl | rfl := hd
      · exact Int.sign_eq_one_of_pos (by omega)
      · exact Int.sign_eq_neg_one_of_neg (by omega)
    have hboard : (fortificate tox s.FromY (ROOK ||| MOVED ||| color) s).Board =
        put (put (played s.Board s.FromX s.FromY tox s.FromY) (rookColumn d) s.FromY EMPTY) (tox - d) s.FromY (ROOK ||| MOVED ||| color) := by
      unfold fortificate
      dsimp only
      rw [move_board, hcolors.2.2, hsign]
      rfl
    have hbeside : tox - d = s.FromX + d := by omega
    rw [hbeside] at hboard
    have hpiece : PIECE (s.Board s.FromX s.FromY) = KING := by
      rw [hking]
      exact piece_king h.turn
    have hcolumn : rookColumn d ≠ s.FromX ∧ rookColumn d ≠ s.FromX + d ∧ rookColumn d ≠ s.FromX + 2 * d := by
      obtain rfl | rfl := hd <;> omega
    have hd0 : d ≠ 0 := by omega
    have hlike : Like color (castled s.Board s.FromX s.FromY d) (fortificate tox s.FromY (ROOK ||| MOVED ||| color) s).Board := by
      rw [hboard, hplace.1, castled, hm.rook]
      exact ((played_like ho.piece color _ _).put ⟨Iff.rfl, rfl, .inl rfl⟩ _ _).put
        ⟨iff_of_false r6 r3, r5.trans r2.symm, .inl (r4.trans r1.symm)⟩ _ _
    refine h.next (b := castled s.Board s.FromX s.FromY d) ⟨hcolors.1, hcolors.2.1⟩ ?_ hlike ?_ ?_ hs.2
    · rw [hboard]
      exact put_pieces (put_pieces (played_pieces h ho tox _) (.inl rfl) _ _) (.inr (by rw [r1]; decide)) _ _
    · intro c hc
      have hkings := moved_kings h ho hto hn (not_king_empty hm.free (by decide)) c hc
      rw [hplace.1] at hkings
      have hat : kingOf (fortificate tox s.FromY (ROOK ||| MOVED ||| color) s) c =
          kingOf (make_move (s.FromX + 2 * d) s.FromY s) c := by
        rw [hplace.1]
        rfl
      rw [hat, castled]
      refine (hkings.put ?_ (empty_no_king c)).put ?_ ?_
      · rw [Holds, moved_other _ (fun he => hcolumn.1 he.1) fun he => hcolumn.2.2 he.1, hm.rook, r4]
        exact fun he => absurd he.1 (by decide)
      · refine not_king_empty ?_ (by decide)
        rw [put_other _ _ fun he => hcolumn.2.1 he.1.symm, moved_other _ (fun he => hd0 (by omega)) fun he => hd0 (by omega)]
        exact hway.1
      · rw [hm.rook, r4]
        exact fun he => absurd he.1 (by decide)
    · intro hon
      obtain ⟨-, -, hp⟩ := pass_placed hon
      exact absurd (hp.symm.trans hpiece) (by decide)

theorem onBoard_all {P : Int → Int → Prop} (h : ∀ i j : Fin 8, P (i : Nat) (j : Nat)) (x y : Int) (hxy : OnBoard x y) :
    P x y := by
  unfold OnBoard at hxy
  have := h ⟨x.toNat, by omega⟩ ⟨y.toNat, by omega⟩
  rwa [Int.toNat_of_nonneg (by omega), Int.toNat_of_nonneg (by omega)] at this

instance (b : Int → Int → char) (x y : Int) (piece color : char) : Decidable (Holds b x y piece color) :=
  inferInstanceAs (Decidable (_ ∧ _))

theorem start_position {mine : char} (hm : mine = BLACK ∨ mine = WHITE) : Position (initial mine) WHITE := by
  have hkings : ∀ c, c = BLACK ∨ c = WHITE → Alone (initial mine).Board c (kingOf (initial mine) c) := by
    rintro c (rfl | rfl) <;> obtain rfl | rfl := hm <;>
      exact ⟨by decide +kernel, onBoard_all (by decide +kernel)⟩
  refine ⟨?_, .inr rfl, ?_, hkings, fun hon => ?_, ?_⟩
  · obtain rfl | rfl := hm <;> decide +kernel
  · obtain rfl | rfl := hm <;> exact onBoard_all (by decide +kernel)
  · obtain rfl | rfl := hm <;> exact absurd hon (by decide +kernel)
  · obtain ⟨r, hr, hsafe⟩ := checked_safe (.inl rfl) (hkings BLACK (.inl rfl))
    have hnone : king_checked (kingOf (initial mine) BLACK).1 (kingOf (initial mine) BLACK).2 BLACK (initial mine) = some none := by
      obtain rfl | rfl := hm <;> decide +kernel
    obtain rfl : none = r := Option.some.inj (hnone.symm.trans hr)
    exact hsafe.1 rfl

theorem reached_position (h : Reached s color) : Position s color := by
  induction h with
  | start mine hm => exact start_position hm
  | select _ m x y b ih => exact ⟨ih.colors, ih.turn, ih.pieces, ih.kings, ih.pass, ih.quiet⟩
  | move _ ho hto hl _ ih => exact move_position ih ho hto hl
  | promote _ ho hto hl hlast hp ih => exact promote_position ih ho hto hl hlast.1 hp
  | passant _ ho hto hl ih => exact passant_position ih ho hto hl
  | castle _ ho hto hl ih => exact castle_position ih ho hto hl

theorem slips_select {x y tox toy : Int} (u v : Int) :
    (BishopSlip { s with FromX := u, FromY := v } color x y tox toy ∨ CastleSlip { s with FromX := u, FromY := v } color x y tox toy) ↔
      (BishopSlip s color x y tox toy ∨ CastleSlip s color x y tox toy) := by
  refine or_congr ⟨fun h => ⟨h.bishop, h.other, h.slip, h.safe⟩, fun h => ⟨h.bishop, h.other, h.slip, h.safe⟩⟩
    (exists_congr fun d => and_congr_left' ⟨fun h => ?_, fun h => ?_⟩)
  · exact ⟨h.king, h.dir, h.place, h.rook, h.clear, h.free, h.safe⟩
  · exact ⟨h.king, h.dir, h.place, h.rook, h.clear, h.free, h.safe⟩

/-- In a position of a game the answers are those of the rules, but for a bishop that does not need both a diagonal and
a clear way, and for a castling king that is only looked at where it stands. -/
theorem chess_answers {s : Engine} {color : char} (h : Reached s color) :
    (∀ x y tox toy, Own s color x y → (MoveRight { s with FromX := x, FromY := y } color tox toy ↔
      ¬ (OnBoard tox toy ∧ (BishopSlip s color x y tox toy ∨ CastleSlip s color x y tox toy)))) ∧
    (MateRight s color ↔ (CanMove s color ∨ ¬ CanLeap s color)) := by
  have hp := reached_position h
  refine ⟨fun x y tox toy ho => ?_, mateRight_iff hp⟩
  have hmove : MoveRight { s with FromX := x, FromY := y } color tox toy ↔ _ :=
    moveRight_iff (hp.select x y) (⟨ho.on, ho.piece, ho.color⟩ : Own { s with FromX := x, FromY := y } color x y)
  rw [hmove, slips_select]

theorem chess_answers_start :
    (∀ x y tox toy, Own (initial WHITE) WHITE x y → (MoveRight { initial WHITE with FromX := x, FromY := y } WHITE tox toy ↔
      ¬ (OnBoard tox toy ∧ (BishopSlip (initial WHITE) WHITE x y tox toy ∨ CastleSlip (initial WHITE) WHITE x y tox toy)))) ∧
    (MateRight (initial WHITE) WHITE ↔ (CanMove (initial WHITE) WHITE ∨ ¬ CanLeap (initial WHITE) WHITE)) :=
  chess_answers (.start WHITE (.inr rfl))

theorem bishop_clear {x y tox toy : Int} (u v : Int) (ho : Own s color x y)
    (hb : PIECE (s.Board x y) = BISHOP) (hl : Legal { s with FromX := u, FromY := v } color x y tox toy .PIECE_MOVE) :
    Clear s.Board x y tox toy := by
  cases hl with
  | move hn hg _ => exact ((bishop_goes ho hb (NotOwn.ne (s := s) hn ho) _).1 hg).2

/-- The first move of a game can take a bishop past a pawn. -/
theorem bishop_leaps : ¬ ∀ (s : Engine) (color : char), Reached s color →
    (∀ x y tox toy, Own s color x y → MoveRight { s with FromX := x, FromY := y } color tox toy) ∧ MateRight s color := by
  intro h
  have hown : Own (initial WHITE) WHITE 2 7 := ⟨by decide +kernel, by decide +kernel, by decide +kernel⟩
  obtain ⟨msg, hmsg, hlegal⟩ := (h (initial WHITE) WHITE (.start WHITE (.inr rfl))).1 2 7 0 5 hown
  have hsome : (check_move 0 5 { initial WHITE with FromX := 2, FromY := 7 }).map Prod.fst = some (some .PIECE_MOVE) := by
    decide +kernel
  rw [hmsg] at hsome
  have hl := ((hlegal .PIECE_MOVE).1 (Option.some.inj hsome)).2
  have hbishop : PIECE ((initial WHITE).Board 2 7) = BISHOP := by decide +kernel
  have hpawn : (initial WHITE).Board 1 6 ≠ EMPTY := by decide +kernel
  have hclear := bishop_clear 2 7 hown hbishop hl 1 (le_refl 1) (by decide)
  rw [show (2 : Int) + (1 : Nat) * (0 - 2 : Int).sign = 1 by decide, show (7 : Int) + (1 : Nat) * (5 - 7 : Int).sign = 6 by decide]
    at hclear
  exact hpawn hclear

end WWindowSystem.Chess
