import WWindowSystem.Netgames.Agreement

namespace WWindowSystem.Netgames

open MESSAGES

variable {σ : Type} {E : Callbacks σ} {me other me' other' : Client σ}

def Careful (a : Act) (s : Client σ) : Prop :=
  match a with
  | .start first | .cont first => s.Game.playing = true ∨ s.asking ≠ [] → side first = s.Game.player
  | _ => True

inductive Reached (E : Callbacks σ) (ok : Act → Client σ → Prop) (start : Players σ) : Players σ → Prop
  | start : Reached E ok start start
  | step {p p' : Players σ} (who : Bool) (a : Act) (h : Reached E ok start p) (hok : ok a (p.me who))
      (hstep : p.step E who a = some p') : Reached E ok start p'

structure Agreed (p : Players σ) : Prop where
  one : unanswered p.one.toConn p.two.toConn ≤ 1
  two : unanswered p.two.toConn p.one.toConn ≤ 1
  idle : p.one.sent = [] → p.two.sent = [] → p.one.sending = false → p.two.sending = false →
    Agrees p.one.Game p.two.Game

theorem Inv.press {type : MESSAGES} {x y : uchar} (h : Inv me.toConn other.toConn) (hm : Request type)
    (hside : type = GAME_START ∨ type = GAME_CONT → x = me.Game.player) :
    Inv (send_msg type x y me).toConn other.toConn := by
  have hclient := h.mine.client
  cases hsending : me.sending with
  | true =>
    have hsame : (send_msg type x y me).toConn = me.toConn := send_dropped hclient hm.request hsending
    rw [hsame]
    exact h
  | false =>
    have hsend : (send_msg type x y me).toConn = _ := send_request hclient hm.request hsending
    rw [hsend]
    exact h.ask hsending hm hside

theorem Inv.turns (h : Inv me.toConn other.toConn) {first : Bool}
    (hcareful : me.Game.playing = true ∨ me.asking ≠ [] → side first = me.Game.player) :
    Inv (set_side first me).toConn other.toConn := by
  by_cases hbusy : me.Game.playing = true ∨ me.asking ≠ []
  · have hsame : set_side first me = me := by
      unfold set_side setPlayer
      rw [hcareful hbusy]
    rw [hsame]
    exact h
  · rw [not_or, not_not, Bool.not_eq_true] at hbusy
    apply h.player hbusy.1 hbusy.2
    cases first with
    | true => exact .inl rfl
    | false => exact .inr rfl

theorem Inv.moves {c c' d : Conn} (h : Inv c d) (hsending : c.sending = false) (hmoves : Moves c c') : Inv c' d := by
  rcases hmoves with rfl | ⟨m, hm, rfl⟩
  · exact h
  · apply h.ask hsending
    · rcases hm with hm | hm <;> rw [hm] <;> trivial
    · rintro (hstart | hcont)
      · rcases hm with hm | hm <;> rw [hm] at hstart <;> cases hstart
      · rcases hm with hm | hm <;> rw [hm] at hcont <;> cases hcont

theorem Inv.receive {m : MSG} {later : List MSG} (hE : Succeeds E) (h : Inv me.toConn other.toConn)
    (hsent : other.sent = m :: later) :
    ∃ s', client_cb E m me = some s' ∧ Inv s'.toConn { other.toConn with sent := later } := by
  have hclient := h.mine.client
  have hmem : m ∈ other.sent := by rw [hsent]; exact List.mem_cons_self
  rcases h.other.kinds m hmem with hm | hm
  · cases hsending : me.sending with
    | true =>
      obtain ⟨s', hs', hconn⟩ := request_blocked hclient hsending hm.request
      refine ⟨s', hs', ?_⟩
      rw [hconn]
      exact h.block hsent hm
    | false =>
      by_cases hcont : m.type = GAME_CONT
      · obtain ⟨s', hs', hconn⟩ := request_asks hE hsending hcont
        refine ⟨s', hs', ?_⟩
        rw [hconn]
        exact h.dialog hsent hcont hsending
      · obtain ⟨s', hs', hmoves⟩ := request_read hE hclient hsending hm hcont
        exact ⟨s', hs', (h.take hsent hm hcont hsending).moves hsending hmoves⟩
  · obtain ⟨s', hs', hmoves⟩ := reply_read hE hclient hm
    exact ⟨s', hs', (h.reply hsent hm).moves rfl hmoves⟩

theorem Inv.answer {m : MSG} {asking : List MSG} (h : Inv me.toConn other.toConn) (ok : Bool) (hE : Succeeds E)
    (hasking : me.asking = m :: asking) :
    ∃ s', confirmed E m ok { me with asking := asking } = some (s', none) ∧ Inv s'.toConn other.toConn := by
  have hclient := h.mine.client
  cases ok with
  | false =>
    obtain ⟨s', hs', hconn⟩ := dialog_refused (E := E) (m := m) (s := { me with asking := asking }) hclient
    refine ⟨s', hs', ?_⟩
    rw [hconn]
    exact h.refuse hasking
  | true =>
    have hmem : m ∈ me.asking := by rw [hasking]; exact List.mem_cons_self
    have hcont := (h.mine.dialog m hmem).1
    obtain ⟨s', hs', hconn⟩ := dialog_accepted (s := { me with asking := asking }) hE hclient hcont
    refine ⟨s', hs', ?_⟩
    rw [hconn]
    exact h.goOn hasking

theorem Inv.act {a : Act} (hE : Succeeds E) (h : Inv me.toConn other.toConn) (hcareful : Careful a me)
    (hstep : act E a me other = some (me', other')) : Inv me'.toConn other'.toConn := by
  cases a with
  | receive =>
    unfold Netgames.act at hstep
    dsimp only at hstep
    split at hstep
    · cases hstep
    · rename_i m later hsent
      obtain ⟨s', hs', hinv⟩ := h.receive hE hsent
      rw [hs'] at hstep
      cases hstep
      exact hinv
  | answer ok =>
    unfold Netgames.act at hstep
    dsimp only at hstep
    split at hstep
    · cases hstep
    · rename_i m asking hasking
      obtain ⟨s', hs', hinv⟩ := h.answer ok hE hasking
      rw [hs'] at hstep
      cases hstep
      exact hinv
  | start first =>
    cases hstep
    exact (h.turns hcareful).press trivial fun _ => rfl
  | cont first =>
    cases hstep
    split_ifs
    · exact (h.turns hcareful).press trivial fun _ => rfl
    · exact h
  | resign =>
    cases hstep
    unfold resign_cb
    split_ifs
    · exact h.press trivial (by simp)
    · exact h
  | undo =>
    cases hstep
    unfold undo_cb
    split_ifs
    · exact h.press trivial (by simp)
    · exact h
  | pass =>
    cases hstep
    unfold pass_cb
    split_ifs
    · exact h.press trivial (by simp)
    · exact h
  | move x y =>
    cases hstep
    unfold move_mine
    split_ifs
    · exact h.press trivial (by simp)
    · exact h

theorem handshaken_inv (engine engine' : σ) : Inv (handshaken engine engine').one.toConn (handshaken engine engine').two.toConn := by
  have hapart (p p' : uchar) (hp : IsSide p) : Apart (connected p engine).toConn (connected p' engine').toConn :=
    ⟨rfl, rfl, by simp [connected], hp, by simp [connected], by simp [connected], by simp [connected], by simp [connected]⟩
  have hapart' (p p' : uchar) (hp : IsSide p) : Apart (connected p engine').toConn (connected p' engine).toConn :=
    ⟨rfl, rfl, by simp [connected], hp, by simp [connected], by simp [connected], by simp [connected], by simp [connected]⟩
  refine ⟨hapart _ _ (.inl rfl), hapart' _ _ (.inr rfl), .inl rfl, rfl, rfl, ?_, ?_⟩
  · intro hon
    cases hon
  · intro hon
    cases hon

theorem reached_inv {engine engine' : σ} {p : Players σ} (hE : Succeeds E)
    (h : Reached E Careful (handshaken engine engine') p) : Inv p.one.toConn p.two.toConn := by
  induction h with
  | start => exact handshaken_inv engine engine'
  | step who a h hok hstep ih =>
    unfold Players.step at hstep
    rw [Option.map_eq_some_iff] at hstep
    obtain ⟨⟨me', other'⟩, hact, rfl⟩ := hstep
    cases who with
    | true => exact ih.act hE hok hact
    | false => exact (ih.symm.act hE hok hact).symm

/-- Two ends whose players do not use the buttons to change sides in a game agree about the game. -/
theorem careful_players_agree (E : Callbacks σ) (hE : Succeeds E) (engine engine' : σ) (p : Players σ)
    (h : Reached E Careful (handshaken engine engine') p) : Agreed p := by
  have hinv := reached_inv hE h
  refine ⟨hinv.mine.unanswered_le, hinv.other.unanswered_le, ?_⟩
  intro hone htwo _ _
  have hagrees := hinv.agrees
  have hsent : p.one.toConn.sent = [] := hone
  have hsent' : p.two.toConn.sent = [] := htwo
  rw [hsent, hsent'] at hagrees
  exact hagrees

def recorder : Callbacks (List (uchar × uchar)) where
  start s := some { s with engine := [] }
  side _ s := some s
  message m s :=
    let put : Client (List (uchar × uchar)) := { s with engine := s.engine ++ [(m.x, m.y)] }
    match m.type with
    | PIECE_MINE => some (send_msg RETURN_MINE m.x m.y put, true)
    | RETURN_MINE => some (if s.Game.playing then send_msg MOVE_NEXT 0 0 put else put, true)
    | _ => some (s, false)
  cont := some fun _ s => some (s, true)
  pass := some fun _ s => some (s, true)
  undo := some fun s => some ({ s with engine := s.engine.dropLast }, true)
  «over» := none

theorem recorder_succeeds : Succeeds recorder where
  start s := ⟨_, rfl, .inl rfl⟩
  side _ s := ⟨s, rfl, rfl⟩
  mine x y s := ⟨_, rfl, rfl⟩
  return_mine x y s := by
    refine ⟨_, rfl, ?_⟩
    dsimp only
    split_ifs
    · rfl
    · rfl
  cont := ⟨_, rfl, fun _ s => ⟨s, rfl, rfl⟩⟩
  pass := ⟨_, rfl, fun _ s => ⟨s, rfl, rfl⟩⟩
  undo := ⟨_, rfl, fun _ => ⟨_, rfl, rfl⟩⟩
  «over» _ h := by cases h

def Players.run (E : Callbacks σ) : List (Bool × Act) → Players σ → Option (Players σ)
  | [], p => some p
  | (who, a) :: steps, p => (p.step E who a).bind (Players.run E steps)

theorem reached_run {ok : Act → Client σ → Prop} {start p p' : Players σ} {steps : List (Bool × Act)}
    (h : Reached E ok start p) (hok : ∀ a s, ok a s) (hrun : p.run E steps = some p') : Reached E ok start p' := by
  induction steps generalizing p with
  | nil =>
    cases hrun
    exact h
  | cons step steps ih =>
    obtain ⟨who, a⟩ := step
    unfold Players.run at hrun
    rw [Option.bind_eq_some_iff] at hrun
    obtain ⟨q, hstep, hrun⟩ := hrun
    exact ih (h.step who a (hok a _) hstep) hrun

theorem careful_players_agree_first_move : Agreed (σ := List (uchar × uchar))
    ⟨{ connected Player0 [] with sending := true, sent := [⟨GAME_START, Player0, Player0⟩] }, connected Player1 []⟩ :=
  careful_players_agree recorder recorder_succeeds [] [] _
    (.step true (.start true) .start (fun h => by rcases h with h | h <;> simp [Players.me, handshaken, connected] at h) rfl)

/-- A refused start leaves both ends on the same side. -/
theorem players_disagree : ¬ ∀ p, Reached recorder (fun _ _ => True) (handshaken [] []) p → Agreed p := by
  intro h
  have hend : ((handshaken [] []).run recorder
      [(true, .start true), (false, .receive), (true, .receive), (true, .move 3 3), (false, .start true), (false, .receive),
        (true, .receive), (true, .receive), (false, .receive)]).map
      (fun p => (p.one.sent ++ p.two.sent, p.one.sending || p.two.sending, p.one.Game.playing, p.one.Game.player, p.two.Game.player)) =
        some ([], false, true, Player0, Player0) := by decide +kernel
  rw [Option.map_eq_some_iff] at hend
  obtain ⟨p, hrun, hp⟩ := hend
  simp only [Prod.mk.injEq, List.append_eq_nil_iff, Bool.or_eq_false_iff] at hp
  obtain ⟨⟨hone, htwo⟩, ⟨hsending, hsending'⟩, hplaying, hplayer, hplayer'⟩ := hp
  have hagreed := h p (reached_run .start (fun _ _ => trivial) hrun)
  have hplayers := (hagreed.idle hone htwo hsending hsending').players hplaying
  rw [hplayer, hplayer'] at hplayers
  exact absurd hplayers.1 (by decide)

end WWindowSystem.Netgames
