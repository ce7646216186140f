import Mathlib.Algebra.Order.Ring.Int
import Mathlib.Data.List.Basic

namespace WWindowSystem.Netgames

abbrev uchar := Fin 256

instance uchar_neZero : NeZero 256 := inferInstance

def Player0 : uchar := 0

def Player1 : uchar := 1

inductive MESSAGES
  | GAME_START | GAME_RESIGN | GAME_CONT | GAME_LEVEL | MOVE_UNDO | MOVE_PASS | MOVE_NEXT
  | PIECE_MINE | PIECE_YOUR | PIECE_REMOVE | PIECE_SELECT
  | RETURN_ILLEGAL | RETURN_FAIL | RETURN_NEXT | RETURN_PASS | RETURN_UNDO | RETURN_LEVEL | RETURN_CONT | RETURN_RESIGN
  | RETURN_START | RETURN_MINE | RETURN_YOUR | RETURN_REMOVE | RETURN_SELECT
  | other (type : Int)
  deriving DecidableEq

namespace MESSAGES

def RETURN_CODE : Int := 0x200

def short : MESSAGES → Int
  | GAME_START => 0
  | GAME_RESIGN => 1
  | GAME_CONT => 2
  | GAME_LEVEL => 3
  | MOVE_UNDO => 4
  | MOVE_PASS => 5
  | MOVE_NEXT => 6
  | PIECE_MINE => 0x100
  | PIECE_YOUR => 0x101
  | PIECE_REMOVE => 0x102
  | PIECE_SELECT => 0x103
  | RETURN_ILLEGAL => 0x201
  | RETURN_FAIL => 0x202
  | RETURN_NEXT => 0x203
  | RETURN_PASS => 0x204
  | RETURN_UNDO => 0x205
  | RETURN_LEVEL => 0x206
  | RETURN_CONT => 0x207
  | RETURN_RESIGN => 0x208
  | RETURN_START => 0x209
  | RETURN_MINE => 0x300
  | RETURN_YOUR => 0x301
  | RETURN_REMOVE => 0x302
  | RETURN_SELECT => 0x303
  | other type => type

def request (type : MESSAGES) : Bool := type.short < RETURN_CODE

end MESSAGES

open MESSAGES

structure MSG where
  type : MESSAGES
  x : uchar
  y : uchar
  deriving DecidableEq

structure GAME where
  turn : Int
  my_move : Bool
  playing : Bool
  player : uchar
  deriving DecidableEq

/-- One end of the connection: `sent` is written and not yet read by the other end, `asking` are the open
dialogs of confirm, the last one first. -/
structure Conn where
  Game : GAME
  client : Bool
  sending : Bool
  asking : List MSG
  sent : List MSG
  deriving DecidableEq

structure Client (σ : Type) extends Conn where
  engine : σ
  deriving DecidableEq

structure Callbacks (σ : Type) where
  start : Client σ → Option (Client σ)
  side : uchar → Client σ → Option (Client σ)
  message : MSG → Client σ → Option (Client σ × Bool)
  cont : Option (uchar → Client σ → Option (Client σ × Bool))
  pass : Option (uchar → Client σ → Option (Client σ × Bool))
  undo : Option (Client σ → Option (Client σ × Bool))
  «over» : Option (Client σ → Option (Client σ))

variable {σ : Type}

def Conn.send_msg (type : MESSAGES) (x y : uchar) (c : Conn) : Conn :=
  if c.client = false then c
  else if type.request then
    if c.sending then c else { c with sending := true, sent := c.sent ++ [⟨type, x, y⟩] }
  else { c with sent := c.sent ++ [⟨type, x, y⟩] }

def send_msg (type : MESSAGES) (x y : uchar) (s : Client σ) : Client σ :=
  { s with toConn := s.toConn.send_msg type x y }

def disconnect_client (s : Client σ) : Client σ :=
  if s.client then { s with sending := false, client := false } else s

def opponent (player : uchar) : uchar := if player = Player0 then Player1 else Player0

def setPlayer (player : uchar) (s : Client σ) : Client σ :=
  { s with Game := { s.Game with player := player } }

def setMove (my_move : Bool) (s : Client σ) : Client σ :=
  { s with Game := { s.Game with my_move := my_move } }

def addTurn (n : Int) (s : Client σ) : Client σ :=
  { s with Game := { s.Game with turn := s.Game.turn + n } }

def callback {β : Type} (f : Option β) (call : β → Option (Client σ × Bool)) : Option (Client σ × Bool) :=
  f.bind call

def check (r : Option (Client σ × Bool)) (yes no : Client σ → Option (Client σ × Option String)) :
    Option (Client σ × Option String) :=
  r.bind fun p => if p.2 then yes p.1 else no p.1

def done (s : Client σ) : Option (Client σ × Option String) := some (s, none)

def game_on (E : Callbacks σ) (m : MSG) (s : Client σ) : Option (Client σ × Option String) :=
  let on : Client σ := { s with Game := { s.Game with turn := 1, playing := true } }
  let started := match m.type with
    | .RETURN_START => (E.side m.x (setPlayer m.x on)).bind E.start
    | .RETURN_CONT => (callback E.cont fun cont => cont m.x (setPlayer m.x on)).map Prod.fst
    | _ => some on
  started.bind fun s => done (setMove (s.Game.player ≠ Player1) s)

def game_resigned (E : Callbacks σ) (s : Client σ) : Option (Client σ × Option String) :=
  let off : Client σ := { s with Game := { s.Game with my_move := false, playing := false } }
  match E.«over» with
  | none => done off
  | some «over» => («over» off).bind done

def confirmed (E : Callbacks σ) (m : MSG) (ok : Bool) (s : Client σ) : Option (Client σ × Option String) :=
  let refuse : Client σ → Option (Client σ × Option String) := fun s => done (send_msg .RETURN_FAIL 0 0 s)
  if ok then
    check (callback E.cont fun cont => cont s.Game.player s) (fun s => game_on E m (send_msg .RETURN_CONT m.x m.y s)) refuse
  else refuse s

def process_msg (E : Callbacks σ) (m : MSG) (s : Client σ) : Option (Client σ × Option String) :=
  match m.type with
  | .GAME_START =>
      let s := send_msg .RETURN_START m.x m.y (setPlayer (opponent m.x) s)
      (E.side s.Game.player s).bind fun s => (E.start s).bind fun s => game_on E m s
  | .GAME_CONT =>
      let s := setPlayer (opponent m.x) s
      if E.cont.isSome then done { s with asking := m :: s.asking }
      else done (send_msg .RETURN_ILLEGAL 0 0 s)
  | .RETURN_START => game_on E m s
  | .RETURN_CONT => game_on E m s
  | .GAME_RESIGN => game_resigned E (send_msg .RETURN_RESIGN 0 0 s)
  | .RETURN_RESIGN => game_resigned E s
  | .MOVE_NEXT => done (setMove true (addTurn 1 (send_msg .RETURN_NEXT 0 0 s)))
  | .RETURN_NEXT => done (setMove false (addTurn 1 s))
  | .MOVE_UNDO =>
      match E.undo with
      | none => done (send_msg .RETURN_ILLEGAL 0 0 s)
      | some undo =>
        if s.Game.my_move || !s.Game.playing then
          check (undo s) (fun s => done (setMove false (addTurn (-1) (send_msg .RETURN_UNDO 0 0 s))))
            fun s => done (send_msg .RETURN_FAIL 0 0 s)
        else done (send_msg .RETURN_ILLEGAL 0 0 s)
  | .RETURN_UNDO =>
      check (callback E.undo fun undo => undo s) (fun s => done (setMove true (addTurn (-1) s)))
        fun s => some (s, some "Incompatible undo.")
  | .MOVE_PASS =>
      match E.pass with
      | none => done (send_msg .RETURN_ILLEGAL 0 0 s)
      | some pass =>
        check (pass (opponent s.Game.player) s)
          (fun s => done (setMove true (addTurn 1 (send_msg .RETURN_PASS 0 0 s))))
          fun s => done (send_msg .RETURN_FAIL 0 0 s)
  | .RETURN_PASS =>
      check (callback E.pass fun pass => pass s.Game.player s) (fun s => done (setMove false (addTurn 1 s)))
        fun s => some (s, some "Incompatible pass.")
  | .GAME_LEVEL => done (send_msg .RETURN_ILLEGAL 0 0 s)
  | .RETURN_LEVEL => done s
  | .RETURN_ILLEGAL => done s
  | .RETURN_FAIL => done s
  | _ =>
      check (E.message m s) done fun s => some (send_msg .RETURN_ILLEGAL 0 0 s, some "Incompatible games!")

def client_cb (E : Callbacks σ) (m : MSG) (s : Client σ) : Option (Client σ) :=
  if m.type.request && s.sending then some (send_msg .RETURN_FAIL 0 0 s)
  else (process_msg E m { s with sending := false }).map fun p => if p.2.isSome then disconnect_client p.1 else p.1

end WWindowSystem.Netgames

namespace WWindowSystem.Netgames

variable {σ : Type}

def side (first : Bool) : uchar := if first then Player0 else Player1

def set_side (first : Bool) (s : Client σ) : Client σ := setPlayer (side first) s

def start_cb (first : Bool) (s : Client σ) : Client σ :=
  let s := set_side first s
  send_msg .GAME_START s.Game.player s.Game.player s

def cont_cb (first : Bool) (s : Client σ) : Client σ :=
  let s := set_side first s
  send_msg .GAME_CONT s.Game.player s.Game.player s

def resign_cb (s : Client σ) : Client σ :=
  if s.Game.my_move then send_msg .GAME_RESIGN 0 0 s else s

def undo_cb (E : Callbacks σ) (s : Client σ) : Client σ :=
  if s.Game.playing && E.undo.isSome && !s.Game.my_move && s.Game.turn > 1 then send_msg .MOVE_UNDO 0 0 s else s

def pass_cb (E : Callbacks σ) (s : Client σ) : Client σ :=
  if s.Game.my_move && E.pass.isSome then send_msg .MOVE_PASS 0 0 s else s

def move_mine (x y : uchar) (s : Client σ) : Client σ :=
  if s.Game.my_move then send_msg .PIECE_MINE x y s else s

/-- What can happen at one end: `first` is the state of the check button, `answer` closes the last dialog. -/
inductive Act
  | receive
  | answer (ok : Bool)
  | start (first : Bool)
  | cont (first : Bool)
  | resign
  | undo
  | pass
  | move (x y : uchar)
  deriving DecidableEq

def act (E : Callbacks σ) (a : Act) (me other : Client σ) : Option (Client σ × Client σ) :=
  match a with
  | .receive =>
      match other.sent with
      | [] => none
      | m :: later => (client_cb E m me).map fun me => (me, { other with sent := later })
  | .answer ok =>
      match me.asking with
      | [] => none
      | m :: asking => (confirmed E m ok { me with asking := asking }).map fun p => (p.1, other)
  | .start first => some (start_cb first me, other)
  | .cont first => some (if E.cont.isSome then cont_cb first me else me, other)
  | .resign => some (resign_cb me, other)
  | .undo => some (undo_cb E me, other)
  | .pass => some (pass_cb E me, other)
  | .move x y => some (move_mine x y me, other)

structure Players (σ : Type) where
  one : Client σ
  two : Client σ
  deriving DecidableEq

def Players.me (p : Players σ) (who : Bool) : Client σ := if who then p.one else p.two

def Players.other (p : Players σ) (who : Bool) : Client σ := if who then p.two else p.one

def Players.step (E : Callbacks σ) (who : Bool) (a : Act) (p : Players σ) : Option (Players σ) :=
  (act E a (p.me who) (p.other who)).map fun q => if who then ⟨q.1, q.2⟩ else ⟨q.2, q.1⟩

def connected (player : uchar) (engine : σ) : Client σ :=
  { Game := ⟨0, false, false, player⟩, client := true, sending := false, asking := [], sent := [], engine := engine }

def handshaken (engine engine' : σ) : Players σ := ⟨connected Player0 engine, connected Player1 engine'⟩

end WWindowSystem.Netgames

namespace WWindowSystem.Netgames

open MESSAGES

variable {σ : Type} {E : Callbacks σ}

/-- The callbacks exist and succeed. They leave the frame of the game alone, but the start of a game may send the
first move of the player who begins. -/
structure Succeeds (E : Callbacks σ) : Prop where
  start : ∀ s, ∃ s', E.start s = some s' ∧
    (s'.toConn = s.toConn ∨ s.Game.player = Player0 ∧ ∃ x y, s'.toConn = s.toConn.send_msg .PIECE_MINE x y)
  side : ∀ p s, ∃ s', E.side p s = some s' ∧ s'.toConn = s.toConn
  mine : ∀ x y s, ∃ s', E.message ⟨.PIECE_MINE, x, y⟩ s = some (s', true) ∧
    s'.toConn = s.toConn.send_msg .RETURN_MINE x y
  return_mine : ∀ x y s, ∃ s', E.message ⟨.RETURN_MINE, x, y⟩ s = some (s', true) ∧
    s'.toConn = if s.Game.playing then s.toConn.send_msg .MOVE_NEXT 0 0 else s.toConn
  cont : ∃ f, E.cont = some f ∧ ∀ p s, ∃ s', f p s = some (s', true) ∧ s'.toConn = s.toConn
  pass : ∃ f, E.pass = some f ∧ ∀ p s, ∃ s', f p s = some (s', true) ∧ s'.toConn = s.toConn
  undo : ∃ f, E.undo = some f ∧ ∀ s, ∃ s', f s = some (s', true) ∧ s'.toConn = s.toConn
  «over» : ∀ f, E.«over» = some f → ∀ s, ∃ s', f s = some s' ∧ s'.toConn = s.toConn

def Request : MESSAGES → Prop
  | GAME_START | GAME_CONT | GAME_RESIGN | MOVE_UNDO | MOVE_PASS | MOVE_NEXT | PIECE_MINE => True
  | _ => False

def Reply : MESSAGES → Prop
  | RETURN_ILLEGAL | RETURN_FAIL | RETURN_NEXT | RETURN_PASS | RETURN_UNDO | RETURN_CONT | RETURN_RESIGN
  | RETURN_START | RETURN_MINE => True
  | _ => False

variable {type : MESSAGES}

theorem Request.request (h : Request type) : type.request = true := by
  cases type with
  | other type => exact False.elim h
  | _ => first | rfl | exact False.elim h

theorem Reply.request (h : Reply type) : type.request = false := by
  cases type with
  | other type => exact False.elim h
  | _ => first | rfl | exact False.elim h

def replied (m : MSG) (g : GAME) : GAME :=
  match m.type with
  | RETURN_START | RETURN_CONT => ⟨1, m.x ≠ Player1, true, m.x⟩
  | RETURN_RESIGN => { g with my_move := false, playing := false }
  | RETURN_NEXT | RETURN_PASS => { g with turn := g.turn + 1, my_move := false }
  | RETURN_UNDO => { g with turn := g.turn - 1, my_move := true }
  | _ => g

def accepted (m : MSG) (g : GAME) : GAME × MSG :=
  match m.type with
  | GAME_START => (⟨1, opponent m.x ≠ Player1, true, opponent m.x⟩, ⟨RETURN_START, m.x, m.y⟩)
  | GAME_RESIGN => ({ g with my_move := false, playing := false }, ⟨RETURN_RESIGN, 0, 0⟩)
  | MOVE_NEXT => ({ g with turn := g.turn + 1, my_move := true }, ⟨RETURN_NEXT, 0, 0⟩)
  | MOVE_PASS => ({ g with turn := g.turn + 1, my_move := true }, ⟨RETURN_PASS, 0, 0⟩)
  | MOVE_UNDO =>
      if g.my_move || !g.playing then ({ g with turn := g.turn - 1, my_move := false }, ⟨RETURN_UNDO, 0, 0⟩)
      else (g, ⟨RETURN_ILLEGAL, 0, 0⟩)
  | _ => (g, ⟨RETURN_MINE, m.x, m.y⟩)

def Conn.push (m : MSG) (c : Conn) : Conn := { c with sent := c.sent ++ [m] }

def Own (m : MSG) : Prop := m.type = PIECE_MINE ∨ m.type = MOVE_NEXT

def Moves (c c' : Conn) : Prop := c' = c ∨ ∃ m, Own m ∧ c' = { c.push m with sending := true }

theorem Moves.game {c c' : Conn} (h : Moves c c') : c'.Game = c.Game := by
  rcases h with rfl | ⟨m, _, rfl⟩
  · rfl
  · rfl

theorem Moves.withGame {c c' : Conn} (h : Moves c c') (g : GAME) : Moves { c with Game := g } { c' with Game := g } := by
  rcases h with rfl | ⟨m, hm, rfl⟩
  · exact .inl rfl
  · exact .inr ⟨m, hm, rfl⟩

variable {x y : uchar} {c : Conn}

theorem send_request (hclient : c.client = true) (htype : type.request = true)
    (hsending : c.sending = false) : c.send_msg type x y = { c.push ⟨type, x, y⟩ with sending := true } := by
  simp [Conn.send_msg, Conn.push, hclient, htype, hsending]

theorem send_dropped (hclient : c.client = true) (htype : type.request = true)
    (hsending : c.sending = true) : c.send_msg type x y = c := by
  simp [Conn.send_msg, hclient, htype, hsending]

theorem send_reply (hclient : c.client = true) (htype : type.request = false) :
    c.send_msg type x y = c.push ⟨type, x, y⟩ := by
  simp [Conn.send_msg, Conn.push, hclient, htype]

variable {s : Client σ}

theorem started (h : Succeeds E) (hclient : s.client = true) (hsending : s.sending = false) :
    ∃ s', E.start s = some s' ∧ Moves s.toConn s'.toConn := by
  obtain ⟨s', hs', hquiet | ⟨_, x, y, hmove⟩⟩ := h.start s
  · exact ⟨s', hs', .inl hquiet⟩
  · rw [send_request hclient rfl hsending] at hmove
    exact ⟨s', hs', .inr ⟨_, .inl rfl, hmove⟩⟩

theorem resigned (h : Succeeds E) : ∃ s', game_resigned E s = some (s', none) ∧
    s'.toConn = { s.toConn with Game := { s.Game with my_move := false, playing := false } } := by
  unfold game_resigned
  cases hover : E.«over» with
  | none => exact ⟨_, rfl, rfl⟩
  | some «over» =>
    obtain ⟨s', hs', hconn⟩ :=
      h.«over» «over» hover { s with Game := { s.Game with my_move := false, playing := false } }
    refine ⟨s', ?_, hconn⟩
    dsimp only
    rw [hs']
    rfl

variable {m : MSG}

theorem client_cb_process {s s' : Client σ} (hfree : m.type.request = true → s.sending = false)
    (h : process_msg E m { s with sending := false } = some (s', none)) : client_cb E m s = some s' := by
  have hblock : (m.type.request && s.sending) = false := by
    cases hm : m.type.request with
    | false => rfl
    | true => rw [hfree hm]; rfl
  simp [client_cb, hblock, h]

theorem game_on_start (h : Succeeds E) (hclient : s.client = true) (hsending : s.sending = false)
    (htype : m.type = RETURN_START) : ∃ s', game_on E m s = some (s', none) ∧
      Moves { s.toConn with Game := replied m s.Game } s'.toConn := by
  obtain ⟨t, ht, htconn⟩ := h.side m.x (setPlayer m.x { s with Game := { s.Game with turn := 1, playing := true } })
  have htclient : t.client = true := by rw [htconn]; exact hclient
  have htsending : t.sending = false := by rw [htconn]; exact hsending
  obtain ⟨u, hu, hmoves⟩ := started h htclient htsending
  refine ⟨setMove (u.Game.player ≠ Player1) u, ?_, ?_⟩
  · unfold game_on
    rw [htype]
    dsimp only
    rw [ht, Option.bind_some, hu]
    rfl
  · rw [htconn] at hmoves
    have hplayer : u.Game.player = m.x := by rw [hmoves.game]; rfl
    have hgame : { u.Game with my_move := u.Game.player ≠ Player1 } = replied m s.Game := by
      rw [replied, htype, hmoves.game]
      rfl
    have hlast := hmoves.withGame (replied m s.Game)
    rw [← hgame] at hlast ⊢
    exact hlast

theorem game_on_cont (h : Succeeds E) (htype : m.type = RETURN_CONT) :
    ∃ s', game_on E m s = some (s', none) ∧ s'.toConn = { s.toConn with Game := replied m s.Game } := by
  obtain ⟨cont, hcont, hsucceeds⟩ := h.cont
  obtain ⟨t, ht, htconn⟩ := hsucceeds m.x (setPlayer m.x { s with Game := { s.Game with turn := 1, playing := true } })
  have hgame : { t.Game with my_move := t.Game.player ≠ Player1 } = replied m s.Game := by
    rw [replied, htype, htconn]
    rfl
  refine ⟨setMove (t.Game.player ≠ Player1) t, ?_, ?_⟩
  · unfold game_on callback
    rw [htype, hcont]
    dsimp only
    rw [Option.bind_some, ht]
    rfl
  · rw [← hgame]
    unfold setMove
    dsimp only
    rw [htconn]
    rfl

def newGame (s : Client σ) : Client σ := { s with Game := ⟨1, s.Game.player ≠ Player1, true, s.Game.player⟩ }

theorem game_on_asked (s : Client σ) (htype : m.type = GAME_START ∨ m.type = GAME_CONT) :
    game_on E m s = some (newGame s, none) := by
  unfold game_on
  rcases htype with htype | htype
  · rw [htype]
    rfl
  · rw [htype]
    rfl

theorem reply_read (h : Succeeds E) (hclient : s.client = true) (hreply : Reply m.type) :
    ∃ s', client_cb E m s = some s' ∧ Moves { s.toConn with sending := false, Game := replied m s.Game } s'.toConn := by
  have hfree : m.type.request = true → s.sending = false := by
    intro hm
    rw [hreply.request] at hm
    cases hm
  have hquiet (s' : Client σ) (hs' : process_msg E m { s with sending := false } = some (s', none))
      (hconn : s'.toConn = { s.toConn with sending := false, Game := replied m s.Game }) :
      ∃ s', client_cb E m s = some s' ∧ Moves { s.toConn with sending := false, Game := replied m s.Game } s'.toConn :=
    ⟨s', client_cb_process hfree hs', .inl hconn⟩
  obtain ⟨type, x, y⟩ := m
  cases type with
  | RETURN_START =>
    obtain ⟨s', hs', hmoves⟩ := game_on_start (m := ⟨RETURN_START, x, y⟩) (s := { s with sending := false }) h hclient rfl rfl
    exact ⟨s', client_cb_process hfree hs', hmoves⟩
  | RETURN_CONT =>
    obtain ⟨s', hs', hconn⟩ := game_on_cont (m := ⟨RETURN_CONT, x, y⟩) (s := { s with sending := false }) h rfl
    exact hquiet s' hs' hconn
  | RETURN_RESIGN =>
    obtain ⟨s', hs', hconn⟩ := resigned (s := { s with sending := false }) h
    exact hquiet s' hs' hconn
  | RETURN_NEXT => exact hquiet _ rfl rfl
  | RETURN_FAIL => exact hquiet _ rfl rfl
  | RETURN_ILLEGAL => exact hquiet _ rfl rfl
  | RETURN_UNDO =>
    obtain ⟨undo, hundo, hsucceeds⟩ := h.undo
    obtain ⟨t, ht, htconn⟩ := hsucceeds { s with sending := false }
    refine hquiet (setMove true (addTurn (-1) t)) ?_ ?_
    · simp [process_msg, check, callback, hundo, ht, done]
    · simp [setMove, addTurn, htconn, replied]
      rfl
  | RETURN_PASS =>
    obtain ⟨pass, hpass, hsucceeds⟩ := h.pass
    obtain ⟨t, ht, htconn⟩ := hsucceeds s.Game.player { s with sending := false }
    refine hquiet (setMove false (addTurn 1 t)) ?_ ?_
    · simp [process_msg, check, callback, hpass, ht, done]
    · simp [setMove, addTurn, htconn, replied]
  | RETURN_MINE =>
    obtain ⟨t, ht, htconn⟩ := h.return_mine x y { s with sending := false }
    refine ⟨t, client_cb_process hfree ?_, ?_⟩
    · simp [process_msg, check, ht, done]
    · rw [htconn]
      by_cases hplaying : s.Game.playing = true
      · have hsend : ({ s.toConn with sending := false } : Conn).send_msg MOVE_NEXT 0 0 = _ := send_request hclient rfl rfl
        rw [if_pos hplaying]
        exact .inr ⟨⟨MOVE_NEXT, 0, 0⟩, .inr rfl, hsend⟩
      · rw [if_neg hplaying]
        exact .inl rfl
  | _ => exact False.elim hreply

theorem request_read (h : Succeeds E) (hclient : s.client = true) (hsending : s.sending = false)
    (hrequest : Request m.type) (hcont : m.type ≠ GAME_CONT) : ∃ s', client_cb E m s = some s' ∧
      Moves { s.toConn.push (accepted m s.Game).2 with Game := (accepted m s.Game).1 } s'.toConn := by
  have hfree : m.type.request = true → s.sending = false := fun _ => hsending
  have hidle : { s with sending := false } = s := by rw [← hsending]
  have hquiet (s' : Client σ) (hs' : process_msg E m s = some (s', none))
      (hconn : s'.toConn = { s.toConn.push (accepted m s.Game).2 with Game := (accepted m s.Game).1 }) :
      ∃ s', client_cb E m s = some s' ∧
        Moves { s.toConn.push (accepted m s.Game).2 with Game := (accepted m s.Game).1 } s'.toConn :=
    ⟨s', client_cb_process hfree (by rwa [hidle]), .inl hconn⟩
  obtain ⟨type, x, y⟩ := m
  cases type with
  | GAME_CONT => exact absurd rfl hcont
  | GAME_START =>
    obtain ⟨t, ht, htconn⟩ := h.side (opponent x) (send_msg RETURN_START x y (setPlayer (opponent x) s))
    have hsend : (send_msg RETURN_START x y (setPlayer (opponent x) s)).toConn = _ := send_reply hclient rfl
    rw [hsend] at htconn
    have htclient : t.client = true := by rw [htconn]; exact hclient
    have htsending : t.sending = false := by rw [htconn]; exact hsending
    obtain ⟨u, hu, hmoves⟩ := started h htclient htsending
    have hplayer : u.Game.player = opponent x := by rw [hmoves.game, htconn]; rfl
    have hprocess : process_msg E ⟨GAME_START, x, y⟩ s =
        some (newGame u, none) := by
      unfold process_msg
      dsimp only
      have hgame : (send_msg RETURN_START x y (setPlayer (opponent x) s)).Game.player = opponent x := by
        rw [hsend]
        rfl
      rw [hgame, ht, Option.bind_some, hu, Option.bind_some]
      exact game_on_asked u (.inl rfl)
    refine ⟨_, client_cb_process hfree (by rw [hidle]; exact hprocess), ?_⟩
    unfold newGame
    rw [hplayer]
    rw [htconn] at hmoves
    exact hmoves.withGame _
  | GAME_RESIGN =>
    obtain ⟨s', hs', hconn⟩ := resigned (s := send_msg RETURN_RESIGN 0 0 s) h
    have hsend : (send_msg RETURN_RESIGN 0 0 s).toConn = _ := send_reply hclient rfl
    rw [hsend] at hconn
    exact hquiet s' hs' hconn
  | MOVE_NEXT =>
    have hsend : (send_msg RETURN_NEXT 0 0 s).toConn = _ := send_reply hclient rfl
    refine hquiet _ rfl ?_
    unfold setMove addTurn
    dsimp only
    rw [hsend]
    rfl
  | MOVE_UNDO =>
    obtain ⟨undo, hundo, hsucceeds⟩ := h.undo
    by_cases hmine : (s.Game.my_move || !s.Game.playing) = true
    · obtain ⟨t, ht, htconn⟩ := hsucceeds s
      have hsend : (send_msg RETURN_UNDO 0 0 t).toConn = _ := send_reply (by rw [htconn]; exact hclient) rfl
      refine hquiet (setMove false (addTurn (-1) (send_msg RETURN_UNDO 0 0 t))) ?_ ?_
      · simp only [process_msg, hundo, hmine, check, ht]
        rfl
      · unfold setMove addTurn accepted
        dsimp only
        rw [hsend, if_pos hmine, htconn]
        rfl
    · have hsend : (send_msg RETURN_ILLEGAL 0 0 s).toConn = _ := send_reply hclient rfl
      refine hquiet (send_msg RETURN_ILLEGAL 0 0 s) ?_ ?_
      · simp only [process_msg, hundo, hmine]
        rfl
      · unfold accepted
        dsimp only
        rw [hsend, if_neg hmine]
        rfl
  | MOVE_PASS =>
    obtain ⟨pass, hpass, hsucceeds⟩ := h.pass
    obtain ⟨t, ht, htconn⟩ := hsucceeds (opponent s.Game.player) s
    have hsend : (send_msg RETURN_PASS 0 0 t).toConn = _ := send_reply (by rw [htconn]; exact hclient) rfl
    refine hquiet (setMove true (addTurn 1 (send_msg RETURN_PASS 0 0 t))) ?_ ?_
    · simp only [process_msg, hpass, check, ht]
      rfl
    · unfold setMove addTurn accepted
      dsimp only
      rw [hsend, htconn]
      rfl
  | PIECE_MINE =>
    obtain ⟨t, ht, htconn⟩ := h.mine x y s
    rw [send_reply hclient rfl] at htconn
    refine hquiet t ?_ htconn
    simp only [process_msg, check, ht]
    rfl
  | _ => exact False.elim hrequest

theorem request_asks (h : Succeeds E) (hsending : s.sending = false) (hcont : m.type = GAME_CONT) :
    ∃ s', client_cb E m s = some s' ∧
      s'.toConn = { s.toConn with Game := { s.Game with player := opponent m.x }, asking := m :: s.asking } := by
  obtain ⟨cont, hcallback, _⟩ := h.cont
  have hidle : { s with sending := false } = s := by rw [← hsending]
  refine ⟨{ setPlayer (opponent m.x) s with asking := m :: s.asking }, client_cb_process (fun _ => hsending) ?_, rfl⟩
  rw [hidle, process_msg, hcont]
  dsimp only
  rw [hcallback]
  rfl

theorem request_blocked (hclient : s.client = true) (hsending : s.sending = true)
    (hrequest : m.type.request = true) : ∃ s', client_cb E m s = some s' ∧ s'.toConn = s.toConn.push ⟨RETURN_FAIL, 0, 0⟩ := by
  refine ⟨send_msg RETURN_FAIL 0 0 s, ?_, send_reply hclient rfl⟩
  simp [client_cb, hrequest, hsending]

theorem dialog_refused (hclient : s.client = true) :
    ∃ s', confirmed E m false s = some (s', none) ∧ s'.toConn = s.toConn.push ⟨RETURN_FAIL, 0, 0⟩ :=
  ⟨send_msg RETURN_FAIL 0 0 s, rfl, send_reply hclient rfl⟩

theorem dialog_accepted (h : Succeeds E) (hclient : s.client = true) (hcont : m.type = GAME_CONT) :
    ∃ s', confirmed E m true s = some (s', none) ∧ s'.toConn =
      { s.toConn.push ⟨RETURN_CONT, m.x, m.y⟩ with Game := ⟨1, s.Game.player ≠ Player1, true, s.Game.player⟩ } := by
  obtain ⟨cont, hcallback, hsucceeds⟩ := h.cont
  obtain ⟨t, ht, htconn⟩ := hsucceeds s.Game.player s
  have hsend : (send_msg RETURN_CONT m.x m.y t).toConn = _ := send_reply (by rw [htconn]; exact hclient) rfl
  have hgame := game_on_asked (E := E) (send_msg RETURN_CONT m.x m.y t) (.inr hcont)
  refine ⟨newGame (send_msg RETURN_CONT m.x m.y t), ?_, ?_⟩
  · rw [← hgame]
    simp only [confirmed, callback, check, hcallback, Option.bind_some, ht, if_true]
  · unfold newGame
    dsimp only
    rw [hsend, htconn]
    rfl

end WWindowSystem.Netgames
