import WWindowSystem.Netgames.Comms

namespace WWindowSystem.Netgames

open MESSAGES List

variable {σ : Type} {E : Callbacks σ} {c d : Conn} {m : MSG} {later : List MSG}

def unanswered (c d : Conn) : Nat :=
  c.sent.countP (fun m => m.type.request) + d.asking.length + d.sent.countP fun m => !m.type.request

def IsSide (player : uchar) : Prop := player = Player0 ∨ player = Player1

structure Agrees (g g' : GAME) : Prop where
  playing : g.playing = g'.playing
  turn : g.turn = g'.turn
  players : g.playing = true → g.player = opponent g'.player ∧ g'.player = opponent g.player
  my_move : g.playing = true → g.my_move ≠ g'.my_move

def settle (g : GAME) (l : List MSG) : GAME := l.foldl (fun g m => replied m g) g

structure Apart (c d : Conn) : Prop where
  client : c.client = true
  unanswered : unanswered c d = if c.sending then 1 else 0
  kinds : ∀ m ∈ c.sent, Request m.type ∨ Reply m.type
  player : IsSide c.Game.player
  sides : ∀ m ∈ c.sent, m.type = GAME_START ∨ m.type = GAME_CONT ∨ m.type = RETURN_START ∨ m.type = RETURN_CONT → IsSide m.x
  wish : ∀ m ∈ c.sent, m.type = GAME_CONT → c.Game.playing = true ∨ c.asking ≠ [] → m.x = c.Game.player
  dialog : ∀ m ∈ c.asking, m.type = GAME_CONT ∧ IsSide m.x ∧ c.Game.player = opponent m.x ∧
    (d.Game.playing = true → m.x = d.Game.player)
  refused : c.asking ≠ [] → ∀ m ∈ d.sent, Reply m.type → m.type = RETURN_FAIL

structure Inv (c d : Conn) : Prop where
  mine : Apart c d
  other : Apart d c
  single : c.asking = [] ∨ d.asking = []
  agrees : Agrees (settle c.Game d.sent) (settle d.Game c.sent)

theorem Agrees.symm {g g' : GAME} (h : Agrees g g') : Agrees g' g where
  playing := h.playing.symm
  turn := h.turn.symm
  players hp := (h.players (h.playing.trans hp)).symm
  my_move hp := (h.my_move (h.playing.trans hp)).symm

theorem Inv.symm (h : Inv c d) : Inv d c := ⟨h.other, h.mine, h.single.symm, h.agrees.symm⟩

theorem replied_request (h : m.type.request = true) (g : GAME) : replied m g = g := by
  obtain ⟨type, x, y⟩ := m
  cases type with
  | other type => rfl
  | _ => first | rfl | cases h

variable (g : GAME)

theorem settle_append (l l' : List MSG) : settle g (l ++ l') = settle (settle g l) l' := foldl_append

theorem settle_cons (m : MSG) (l : List MSG) : settle g (m :: l) = settle (replied m g) l := rfl

variable {l : List MSG}

theorem settle_requests (h : l.countP (fun m => !m.type.request) = 0) : settle g l = g := by
  induction l generalizing g with
  | nil => rfl
  | cons m l ih =>
    rw [countP_eq_zero] at h
    have hm : m.type.request = true := by simpa using h m (mem_cons_self)
    rw [settle_cons, replied_request hm]
    apply ih
    rw [countP_eq_zero]
    intro m hm
    exact h m (mem_cons_of_mem _ hm)

theorem settle_failed (hkinds : ∀ m ∈ l, Request m.type ∨ Reply m.type)
    (h : ∀ m ∈ l, Reply m.type → m.type = RETURN_FAIL) : settle g l = g := by
  induction l generalizing g with
  | nil => rfl
  | cons m l ih =>
    rw [forall_mem_cons] at hkinds h
    have hm : replied m g = g := by
      rcases hkinds.1 with hm | hm
      · exact replied_request hm.request g
      · rw [replied, h.1 hm]
    rw [settle_cons, hm]
    exact ih g hkinds.2 h.2

theorem settle_player {g : GAME} (hplaying : g.playing = false) (p : uchar) (l : List MSG) :
    settle { g with player := p } l = settle g l ∨
      (settle { g with player := p } l = { settle g l with player := p } ∧ (settle g l).playing = false) := by
  induction l generalizing g with
  | nil => exact .inr ⟨rfl, hplaying⟩
  | cons m l ih =>
    rw [settle_cons, settle_cons]
    have hstep : replied m { g with player := p } = replied m g ∨
        (replied m { g with player := p } = { replied m g with player := p } ∧ (replied m g).playing = false) := by
      obtain ⟨type, x, y⟩ := m
      cases type with
      | RETURN_START => exact .inl rfl
      | RETURN_CONT => exact .inl rfl
      | _ => first | exact .inr ⟨rfl, hplaying⟩ | exact .inr ⟨rfl, rfl⟩
    rcases hstep with hstep | ⟨hstep, hoff⟩
    · rw [hstep]
      exact .inl rfl
    · rw [hstep]
      exact ih hoff

theorem not_both (hrequest : Request m.type) (hreply : Reply m.type) : False := by
  have htrue := hrequest.request
  rw [hreply.request] at htrue
  cases htrue

theorem IsSide.opponent {p : uchar} (h : IsSide p) : IsSide (opponent p) ∧ opponent (opponent p) = p := by
  rcases h with rfl | rfl
  · exact ⟨.inr rfl, rfl⟩
  · exact ⟨.inl rfl, rfl⟩

theorem push_request (hreq : m.type.request = true) (b : Bool) : unanswered { c.push m with sending := b } d = unanswered c d + 1 ∧
    unanswered d { c.push m with sending := b } = unanswered d c := by
  unfold unanswered Conn.push
  dsimp only
  rw [countP_append, countP_append, countP_singleton, countP_singleton]
  simp only [hreq, if_true, Bool.not_true]
  constructor
  · omega
  · simp

theorem push_reply (hreply : m.type.request = false) : unanswered (c.push m) d = unanswered c d ∧
    unanswered d (c.push m) = unanswered d c + 1 := by
  unfold unanswered Conn.push
  dsimp only
  rw [countP_append, countP_append, countP_singleton, countP_singleton]
  simp only [hreply, Bool.not_false, if_true]
  constructor
  · simp
  · omega

theorem Inv.ask (h : Inv c d) (hsending : c.sending = false) (hm : Request m.type)
    (hside : m.type = GAME_START ∨ m.type = GAME_CONT → m.x = c.Game.player) : Inv { c.push m with sending := true } d := by
  have hreq := hm.request
  obtain ⟨hmine, hother⟩ := push_request (c := c) (d := d) hreq true
  have hnone := h.mine.unanswered
  rw [hsending] at hnone
  constructor
  · constructor
    · exact h.mine.client
    · rw [hmine, hnone]
      rfl
    · intro m' hm'
      rcases mem_append.mp hm' with hm' | hm'
      · exact h.mine.kinds m' hm'
      · rw [mem_singleton.mp hm']
        exact .inl hm
    · exact h.mine.player
    · intro m' hm' htype
      rcases mem_append.mp hm' with hm' | hm'
      · exact h.mine.sides m' hm' htype
      · rw [mem_singleton.mp hm'] at htype ⊢
        rcases htype with htype | htype | htype | htype
        · rw [hside (.inl htype)]
          exact h.mine.player
        · rw [hside (.inr htype)]
          exact h.mine.player
        · rw [htype] at hm
          exact False.elim hm
        · rw [htype] at hm
          exact False.elim hm
    · intro m' hm' htype hwish
      rcases mem_append.mp hm' with hm' | hm'
      · exact h.mine.wish m' hm' htype hwish
      · rw [mem_singleton.mp hm'] at htype ⊢
        exact hside (.inr htype)
    · exact h.mine.dialog
    · exact h.mine.refused
  · constructor
    · exact h.other.client
    · rw [hother]
      exact h.other.unanswered
    · exact h.other.kinds
    · exact h.other.player
    · exact h.other.sides
    · exact h.other.wish
    · exact h.other.dialog
    · intro hasking m' hm' hreply
      rcases mem_append.mp hm' with hm' | hm'
      · exact h.other.refused hasking m' hm' hreply
      · rw [mem_singleton.mp hm'] at hreply
        exact (not_both hm hreply).elim
  · exact h.single
  · have hsettle : settle d.Game (c.sent ++ [m]) = settle d.Game c.sent := by
      rw [settle_append, settle_cons, replied_request hreq]
      rfl
    have hagrees := h.agrees
    rw [← hsettle] at hagrees
    exact hagrees

theorem Inv.player (h : Inv c d) (hplaying : c.Game.playing = false) (hasking : c.asking = []) {p : uchar} (hp : IsSide p) :
    Inv { c with Game := { c.Game with player := p } } d := by
  constructor
  · constructor
    · exact h.mine.client
    · exact h.mine.unanswered
    · exact h.mine.kinds
    · exact hp
    · exact h.mine.sides
    · intro m _ _ hwish
      rcases hwish with hwish | hwish
      · exact absurd hwish (by simp [hplaying])
      · exact absurd hasking hwish
    · intro m hm
      have hnil : m ∈ c.asking := hm
      rw [hasking] at hnil
      exact absurd hnil not_mem_nil
    · intro hdialog
      exact absurd hasking hdialog
  · constructor
    · exact h.other.client
    · exact h.other.unanswered
    · exact h.other.kinds
    · exact h.other.player
    · exact h.other.sides
    · exact h.other.wish
    · intro m hm
      obtain ⟨htype, hside, hplayer, _⟩ := h.other.dialog m hm
      refine ⟨htype, hside, hplayer, ?_⟩
      intro hon
      exact absurd hon (by simp [hplaying])
    · exact h.other.refused
  · exact h.single
  · rcases settle_player hplaying p d.sent with hsettle | ⟨hsettle, hoff⟩
    · have hagrees := h.agrees
      rw [← hsettle] at hagrees
      exact hagrees
    · have hagrees : Agrees { settle c.Game d.sent with player := p } (settle d.Game c.sent) := by
        constructor
        · exact h.agrees.playing
        · exact h.agrees.turn
        · intro hon
          exact absurd hon (by simp [hoff])
        · intro hon
          exact absurd hon (by simp [hoff])
      rw [← hsettle] at hagrees
      exact hagrees

theorem pop_request (hsent : d.sent = m :: later) (hreq : m.type.request = true) :
    unanswered { d with sent := later } c + 1 = unanswered d c ∧ unanswered c { d with sent := later } = unanswered c d := by
  unfold unanswered
  dsimp only
  rw [hsent, countP_cons, countP_cons]
  simp only [hreq, if_true, Bool.not_true]
  constructor
  · omega
  · simp

theorem pop_reply (hsent : d.sent = m :: later) (hreply : m.type.request = false) :
    unanswered { d with sent := later } c = unanswered d c ∧ unanswered c { d with sent := later } + 1 = unanswered c d := by
  unfold unanswered
  dsimp only
  rw [hsent, countP_cons, countP_cons]
  simp only [hreply, Bool.not_false, if_true]
  constructor
  · simp
  · omega

theorem replied_player (hside : m.type = RETURN_START ∨ m.type = RETURN_CONT → IsSide m.x) {g : GAME} (hg : IsSide g.player) :
    IsSide (replied m g).player := by
  obtain ⟨type, x, y⟩ := m
  cases type with
  | RETURN_START => exact hside (.inl rfl)
  | RETURN_CONT => exact hside (.inr rfl)
  | _ => exact hg

theorem Apart.unanswered_le (h : Apart c d) : Netgames.unanswered c d ≤ 1 := by
  rw [h.unanswered]
  split_ifs <;> omega

theorem Inv.reply (h : Inv c d) (hsent : d.sent = m :: later) (hm : Reply m.type) :
    Inv { c with sending := false, Game := replied m c.Game } { d with sent := later } := by
  have hmem : m ∈ d.sent := by rw [hsent]; exact mem_cons_self
  have hlater : ∀ m' ∈ later, m' ∈ d.sent := by
    intro m' hm'
    rw [hsent]
    exact mem_cons_of_mem _ hm'
  obtain ⟨hother, hmine⟩ := pop_reply (c := c) hsent hm.request
  have hle := h.mine.unanswered_le
  have hnone : unanswered c { d with sent := later } = 0 := by omega
  have hcs : c.sent.countP (fun m => m.type.request) = 0 := by
    unfold unanswered at hnone
    omega
  have hds : d.asking = [] := by
    rw [← length_eq_zero_iff]
    unfold unanswered at hnone
    dsimp only at hnone
    omega
  constructor
  · constructor
    · exact h.mine.client
    · exact hnone
    · exact h.mine.kinds
    · apply replied_player _ h.mine.player
      intro htype
      exact h.other.sides m hmem (.inr (.inr htype))
    · exact h.mine.sides
    · intro m' hm' htype _
      have hreq := countP_eq_zero.mp hcs m' hm'
      rw [htype] at hreq
      exact absurd rfl hreq
    · intro m' hm'
      have hfail : m.type = RETURN_FAIL := h.mine.refused (ne_nil_of_mem hm') m hmem hm
      have hsame : replied m c.Game = c.Game := by rw [replied, hfail]
      obtain ⟨htype, hside, hplayer, hon⟩ := h.mine.dialog m' hm'
      refine ⟨htype, hside, ?_, hon⟩
      dsimp only
      rw [hsame]
      exact hplayer
    · intro hasking m' hm' hreply
      exact h.mine.refused hasking m' (hlater m' hm') hreply
  · constructor
    · exact h.other.client
    · exact hother.trans h.other.unanswered
    · intro m' hm'
      exact h.other.kinds m' (hlater m' hm')
    · exact h.other.player
    · intro m' hm'
      exact h.other.sides m' (hlater m' hm')
    · intro m' hm'
      exact h.other.wish m' (hlater m' hm')
    · intro m' hm'
      have hnil : m' ∈ d.asking := hm'
      rw [hds] at hnil
      exact absurd hnil not_mem_nil
    · intro hasking
      exact absurd hds hasking
  · exact h.single
  · have hagrees := h.agrees
    rw [hsent, settle_cons] at hagrees
    exact hagrees

theorem Inv.block (h : Inv c d) (hsent : d.sent = m :: later) (hm : Request m.type) :
    Inv (c.push ⟨RETURN_FAIL, 0, 0⟩) { d with sent := later } := by
  have hlater : ∀ m' ∈ later, m' ∈ d.sent := by
    intro m' hm'
    rw [hsent]
    exact mem_cons_of_mem _ hm'
  have hfail : (⟨RETURN_FAIL, 0, 0⟩ : MSG).type.request = false := rfl
  obtain ⟨hpopother, hpopmine⟩ := pop_request (c := c.push ⟨RETURN_FAIL, 0, 0⟩) hsent hm.request
  obtain ⟨hpushmine, hpushother⟩ := push_reply (c := c) (d := d) hfail
  constructor
  · constructor
    · exact h.mine.client
    · rw [hpopmine, hpushmine]
      exact h.mine.unanswered
    · intro m' hm'
      rcases mem_append.mp hm' with hm' | hm'
      · exact h.mine.kinds m' hm'
      · rw [mem_singleton.mp hm']
        exact .inr trivial
    · exact h.mine.player
    · intro m' hm' htype
      rcases mem_append.mp hm' with hm' | hm'
      · exact h.mine.sides m' hm' htype
      · rw [mem_singleton.mp hm'] at htype
        simp at htype
    · intro m' hm' htype
      rcases mem_append.mp hm' with hm' | hm'
      · exact h.mine.wish m' hm' htype
      · rw [mem_singleton.mp hm'] at htype
        simp at htype
    · exact h.mine.dialog
    · intro hasking m' hm'
      exact h.mine.refused hasking m' (hlater m' hm')
  · constructor
    · exact h.other.client
    · have hsame : unanswered { d with sent := later } (c.push ⟨RETURN_FAIL, 0, 0⟩) = unanswered d c := by omega
      exact hsame.trans h.other.unanswered
    · intro m' hm'
      exact h.other.kinds m' (hlater m' hm')
    · exact h.other.player
    · intro m' hm'
      exact h.other.sides m' (hlater m' hm')
    · intro m' hm'
      exact h.other.wish m' (hlater m' hm')
    · exact h.other.dialog
    · intro hasking m' hm' hreply
      rcases mem_append.mp hm' with hm' | hm'
      · exact h.other.refused hasking m' hm' hreply
      · rw [mem_singleton.mp hm']
  · exact h.single
  · have hagrees := h.agrees
    have hsettle : settle d.Game (c.sent ++ [⟨RETURN_FAIL, 0, 0⟩]) = settle d.Game c.sent := settle_append _ _ _
    rw [hsent, settle_cons, replied_request hm.request, ← hsettle] at hagrees
    exact hagrees

theorem no_messages (hrequests : l.countP (fun m => m.type.request) = 0)
    (hreplies : l.countP (fun m => !m.type.request) = 0) : l = [] := by
  cases l with
  | nil => rfl
  | cons m l =>
    rw [countP_eq_zero] at hrequests hreplies
    have hreq := hrequests m mem_cons_self
    have hreply := hreplies m mem_cons_self
    simp at hreq hreply
    rw [hreq] at hreply
    cases hreply

theorem Inv.alone (h : Inv c d) (hsent : d.sent = m :: later) (hm : m.type.request = true) (hsending : c.sending = false) :
    c.sent = [] ∧ later = [] ∧ c.asking = [] ∧ d.asking = [] ∧ d.sending = true := by
  obtain ⟨hother, hmine⟩ := pop_request (c := c) hsent hm
  have hle := h.other.unanswered_le
  have hwait := h.other.unanswered
  have hnone := h.mine.unanswered
  rw [hsending] at hnone
  simp only [Bool.false_eq_true, if_false] at hnone
  have hsend : d.sending = true := by
    by_contra hoff
    rw [if_neg hoff] at hwait
    omega
  have hzero : unanswered { d with sent := later } c = 0 := by omega
  rw [← hmine] at hnone
  unfold unanswered at hnone hzero
  dsimp only at hnone hzero
  refine ⟨no_messages ?_ ?_, no_messages ?_ ?_, ?_, ?_, hsend⟩
  · omega
  · omega
  · omega
  · omega
  · rw [← length_eq_zero_iff]
    omega
  · rw [← length_eq_zero_iff]
    omega

theorem accepted_reply (hm : Request m.type) (g : GAME) : Reply (accepted m g).2.type := by
  obtain ⟨type, x, y⟩ := m
  cases type with
  | MOVE_UNDO =>
    unfold accepted
    dsimp only
    split_ifs <;> trivial
  | other type => exact False.elim hm
  | _ => first | trivial | exact False.elim hm

theorem accepted_agrees {g g' : GAME} (hm : Request m.type) (hcont : m.type ≠ GAME_CONT)
    (hside : m.type = GAME_START → IsSide m.x) (h : Agrees g g') :
    Agrees (accepted m g).1 (replied (accepted m g).2 g') := by
  obtain ⟨type, x, y⟩ := m
  cases type with
  | GAME_CONT => exact absurd rfl hcont
  | GAME_START =>
    rcases hside rfl with hx | hx
    · dsimp only at hx
      subst hx
      exact ⟨rfl, rfl, fun _ => ⟨rfl, rfl⟩, fun _ => by simp [accepted, replied, opponent, Player0, Player1]⟩
    · dsimp only at hx
      subst hx
      exact ⟨rfl, rfl, fun _ => ⟨rfl, rfl⟩, fun _ => by simp [accepted, replied, opponent, Player0, Player1]⟩
  | GAME_RESIGN => exact ⟨rfl, h.turn, fun hon => Bool.noConfusion hon, fun hon => Bool.noConfusion hon⟩
  | MOVE_NEXT => exact ⟨h.playing, congrArg (· + 1) h.turn, h.players, fun _ => Bool.noConfusion⟩
  | MOVE_PASS => exact ⟨h.playing, congrArg (· + 1) h.turn, h.players, fun _ => Bool.noConfusion⟩
  | MOVE_UNDO =>
    unfold accepted
    dsimp only
    split_ifs
    · exact ⟨h.playing, congrArg (· - 1) h.turn, h.players, fun _ => Bool.noConfusion⟩
    · exact h
  | PIECE_MINE => exact h
  | _ => exact False.elim hm

theorem accepted_player (hside : m.type = GAME_START → IsSide m.x) {g : GAME} (hg : IsSide g.player) :
    IsSide (accepted m g).1.player := by
  obtain ⟨type, x, y⟩ := m
  cases type with
  | GAME_START => exact (hside rfl).opponent.1
  | MOVE_UNDO =>
    unfold accepted
    dsimp only
    split_ifs <;> exact hg
  | _ => exact hg

theorem accepted_side (hm : Request m.type) (g : GAME)
    (h : (accepted m g).2.type = RETURN_START ∨ (accepted m g).2.type = RETURN_CONT) :
    m.type = GAME_START ∧ (accepted m g).2.x = m.x := by
  obtain ⟨type, x, y⟩ := m
  cases type with
  | GAME_START => exact ⟨rfl, rfl⟩
  | MOVE_UNDO =>
    unfold accepted at h
    dsimp only at h
    split_ifs at h <;> simp at h
  | other type => exact False.elim hm
  | _ => first | exact False.elim hm | simp [accepted] at h

theorem Inv.take (h : Inv c d) (hsent : d.sent = m :: later) (hm : Request m.type) (hcont : m.type ≠ GAME_CONT)
    (hsending : c.sending = false) :
    Inv { c.push (accepted m c.Game).2 with Game := (accepted m c.Game).1 } { d with sent := later } := by
  obtain ⟨hcs, rfl, hca, hda, hdsend⟩ := h.alone hsent hm.request hsending
  have hmem : m ∈ d.sent := by rw [hsent]; exact mem_cons_self
  have hside : m.type = GAME_START → IsSide m.x := fun htype => h.other.sides m hmem (.inl htype)
  have hreply := accepted_reply hm c.Game
  have hagrees : Agrees c.Game d.Game := by
    have hagrees := h.agrees
    rw [hsent, hcs, settle_cons, replied_request hm.request] at hagrees
    exact hagrees
  constructor
  · constructor
    · exact h.mine.client
    · simp [unanswered, Conn.push, hcs, hda, hsending, hreply.request]
    · intro m' hm'
      rw [Conn.push, hcs] at hm'
      rw [mem_singleton.mp hm']
      exact .inr hreply
    · exact accepted_player hside h.mine.player
    · intro m' hm' htype
      rw [Conn.push, hcs] at hm'
      rw [mem_singleton.mp hm'] at htype ⊢
      have hreturn : (accepted m c.Game).2.type = RETURN_START ∨ (accepted m c.Game).2.type = RETURN_CONT := by
        rcases htype with htype | htype | htype
        · rw [htype] at hreply
          exact False.elim hreply
        · rw [htype] at hreply
          exact False.elim hreply
        · exact htype
      obtain ⟨hstart, hx⟩ := accepted_side hm c.Game hreturn
      rw [hx]
      exact hside hstart
    · intro m' hm' htype
      rw [Conn.push, hcs] at hm'
      rw [mem_singleton.mp hm'] at htype
      rw [htype] at hreply
      exact False.elim hreply
    · intro m' hm'
      have hnil : m' ∈ c.asking := hm'
      rw [hca] at hnil
      exact absurd hnil not_mem_nil
    · intro hasking
      exact absurd hca hasking
  · constructor
    · exact h.other.client
    · simp [unanswered, Conn.push, hcs, hca, hdsend, hreply.request]
    · intro m' hm'
      exact absurd hm' not_mem_nil
    · exact h.other.player
    · intro m' hm'
      exact absurd hm' not_mem_nil
    · intro m' hm'
      exact absurd hm' not_mem_nil
    · intro m' hm'
      have hnil : m' ∈ d.asking := hm'
      rw [hda] at hnil
      exact absurd hnil not_mem_nil
    · intro hasking
      exact absurd hda hasking
  · exact .inl hca
  · have hlast := accepted_agrees hm hcont hside hagrees
    have hsettle : settle d.Game (c.sent ++ [(accepted m c.Game).2]) = replied (accepted m c.Game).2 d.Game := by
      rw [hcs]
      rfl
    rw [← hsettle] at hlast
    exact hlast

theorem Inv.dialog (h : Inv c d) (hsent : d.sent = m :: later) (hcont : m.type = GAME_CONT) (hsending : c.sending = false) :
    Inv { c with Game := { c.Game with player := opponent m.x }, asking := m :: c.asking } { d with sent := later } := by
  have hreq : m.type.request = true := by rw [hcont]; rfl
  obtain ⟨hcs, rfl, hca, hda, hdsend⟩ := h.alone hsent hreq hsending
  have hmem : m ∈ d.sent := by rw [hsent]; exact mem_cons_self
  have hside : IsSide m.x := h.other.sides m hmem (.inr (.inl hcont))
  have hwish : d.Game.playing = true → m.x = d.Game.player := fun hon => h.other.wish m hmem hcont (.inl hon)
  have hagrees : Agrees c.Game d.Game := by
    have hagrees := h.agrees
    rw [hsent, hcs, settle_cons, replied_request hreq] at hagrees
    exact hagrees
  constructor
  · constructor
    · exact h.mine.client
    · simp [unanswered, hcs, hda, hsending]
    · exact h.mine.kinds
    · exact hside.opponent.1
    · exact h.mine.sides
    · intro m' hm'
      have hnil : m' ∈ c.sent := hm'
      rw [hcs] at hnil
      exact absurd hnil not_mem_nil
    · intro m' hm'
      have hone : m' ∈ m :: c.asking := hm'
      rw [hca] at hone
      rw [mem_singleton.mp hone]
      exact ⟨hcont, hside, rfl, hwish⟩
    · intro _ m' hm'
      exact absurd hm' not_mem_nil
  · constructor
    · exact h.other.client
    · simp [unanswered, hcs, hca, hdsend]
    · intro m' hm'
      exact absurd hm' not_mem_nil
    · exact h.other.player
    · intro m' hm'
      exact absurd hm' not_mem_nil
    · intro m' hm'
      exact absurd hm' not_mem_nil
    · intro m' hm'
      have hnil : m' ∈ d.asking := hm'
      rw [hda] at hnil
      exact absurd hnil not_mem_nil
    · intro hasking
      exact absurd hda hasking
  · exact .inr hda
  · have hlast : Agrees { c.Game with player := opponent m.x } d.Game := by
      refine ⟨hagrees.playing, hagrees.turn, ?_, hagrees.my_move⟩
      intro hon
      have hx := hwish (hagrees.playing.symm.trans hon)
      dsimp only
      rw [hside.opponent.2, hx]
      exact ⟨rfl, rfl⟩
    have hsettle : settle d.Game c.sent = d.Game := by
      rw [hcs]
      rfl
    rw [← hsettle] at hlast
    exact hlast

variable {asking : List MSG}

theorem Inv.asked (h : Inv c d) (hasking : c.asking = m :: asking) :
    asking = [] ∧ d.asking = [] ∧ unanswered d { c with asking := asking } = 0 ∧ d.sending = true ∧
      settle c.Game d.sent = c.Game ∧ settle d.Game c.sent = d.Game := by
  have hne : c.asking ≠ [] := by
    rw [hasking]
    exact cons_ne_nil _ _
  have hle := h.other.unanswered_le
  have hwait := h.other.unanswered
  unfold unanswered at hle hwait
  rw [hasking, length_cons] at hle hwait
  have hrest : asking.length = 0 := by omega
  have hsend : d.sending = true := by
    by_contra hoff
    rw [if_neg hoff] at hwait
    omega
  refine ⟨length_eq_zero_iff.mp hrest, h.single.resolve_left hne, ?_, hsend, ?_, ?_⟩
  · unfold unanswered
    dsimp only
    omega
  · exact settle_failed c.Game h.other.kinds (h.mine.refused hne)
  · apply settle_requests
    omega

theorem Inv.refuse (h : Inv c d) (hasking : c.asking = m :: asking) :
    Inv (({ c with asking := asking } : Conn).push ⟨RETURN_FAIL, 0, 0⟩) d := by
  obtain ⟨rfl, hda, hnone, hdsend, _, _⟩ := h.asked hasking
  have hfail : (⟨RETURN_FAIL, 0, 0⟩ : MSG).type.request = false := rfl
  obtain ⟨hpushmine, hpushother⟩ := push_reply (c := { c with asking := [] }) (d := d) hfail
  have hclosed : unanswered { c with asking := [] } d = unanswered c d := rfl
  constructor
  · constructor
    · exact h.mine.client
    · rw [hpushmine, hclosed]
      exact h.mine.unanswered
    · intro m' hm'
      rcases mem_append.mp hm' with hm' | hm'
      · exact h.mine.kinds m' hm'
      · rw [mem_singleton.mp hm']
        exact .inr trivial
    · exact h.mine.player
    · intro m' hm' htype
      rcases mem_append.mp hm' with hm' | hm'
      · exact h.mine.sides m' hm' htype
      · rw [mem_singleton.mp hm'] at htype
        simp at htype
    · intro m' hm' htype hwish
      rcases mem_append.mp hm' with hm' | hm'
      · exact h.mine.wish m' hm' htype (.inl (hwish.resolve_right fun hne => hne rfl))
      · rw [mem_singleton.mp hm'] at htype
        simp at htype
    · intro m' hm'
      exact absurd hm' not_mem_nil
    · intro hne
      exact absurd rfl hne
  · constructor
    · exact h.other.client
    · rw [hpushother, hnone, hdsend]
      rfl
    · exact h.other.kinds
    · exact h.other.player
    · exact h.other.sides
    · exact h.other.wish
    · exact h.other.dialog
    · intro hne
      exact absurd hda hne
  · exact .inl rfl
  · have hagrees := h.agrees
    have hsettle : settle d.Game (c.sent ++ [⟨RETURN_FAIL, 0, 0⟩]) = settle d.Game c.sent := settle_append _ _ _
    rw [← hsettle] at hagrees
    exact hagrees

theorem Inv.goOn (h : Inv c d) (hasking : c.asking = m :: asking) :
    Inv { ({ c with asking := asking } : Conn).push ⟨RETURN_CONT, m.x, m.y⟩ with
      Game := ⟨1, c.Game.player ≠ Player1, true, c.Game.player⟩ } d := by
  obtain ⟨rfl, hda, hnone, hdsend, _, hsettle⟩ := h.asked hasking
  have hne : c.asking ≠ [] := by
    rw [hasking]
    exact cons_ne_nil _ _
  have hmem : m ∈ c.asking := by rw [hasking]; exact mem_cons_self
  obtain ⟨hcont, hside, hplayer, _⟩ := h.mine.dialog m hmem
  have hreply : (⟨RETURN_CONT, m.x, m.y⟩ : MSG).type.request = false := rfl
  obtain ⟨hpushmine, hpushother⟩ := push_reply (c := { c with asking := [] }) (d := d) hreply
  have hclosed : unanswered { c with asking := [] } d = unanswered c d := rfl
  constructor
  · constructor
    · exact h.mine.client
    · exact (hpushmine.trans hclosed).trans h.mine.unanswered
    · intro m' hm'
      rcases mem_append.mp hm' with hm' | hm'
      · exact h.mine.kinds m' hm'
      · rw [mem_singleton.mp hm']
        exact .inr trivial
    · exact h.mine.player
    · intro m' hm' htype
      rcases mem_append.mp hm' with hm' | hm'
      · exact h.mine.sides m' hm' htype
      · rw [mem_singleton.mp hm']
        exact hside
    · intro m' hm' htype _
      rcases mem_append.mp hm' with hm' | hm'
      · exact h.mine.wish m' hm' htype (.inr hne)
      · rw [mem_singleton.mp hm'] at htype
        simp at htype
    · intro m' hm'
      exact absurd hm' not_mem_nil
    · intro hclose
      exact absurd rfl hclose
  · constructor
    · exact h.other.client
    · refine hpushother.trans ?_
      rw [hnone, hdsend]
      rfl
    · exact h.other.kinds
    · exact h.other.player
    · exact h.other.sides
    · exact h.other.wish
    · intro m' hm'
      rw [hda] at hm'
      exact absurd hm' not_mem_nil
    · intro hclose
      exact absurd hda hclose
  · exact .inl rfl
  · have hmine : settle ⟨1, c.Game.player ≠ Player1, true, c.Game.player⟩ d.sent =
        ⟨1, c.Game.player ≠ Player1, true, c.Game.player⟩ := settle_failed _ h.other.kinds (h.mine.refused hne)
    have hother : settle d.Game (c.sent ++ [⟨RETURN_CONT, m.x, m.y⟩]) = ⟨1, m.x ≠ Player1, true, m.x⟩ := by
      rw [settle_append, hsettle]
      rfl
    have hagrees : Agrees ⟨1, c.Game.player ≠ Player1, true, c.Game.player⟩ ⟨1, m.x ≠ Player1, true, m.x⟩ := by
      rw [hplayer]
      refine ⟨rfl, rfl, fun _ => ⟨rfl, hside.opponent.2.symm⟩, fun _ => ?_⟩
      rcases hside with hx | hx <;> simp [hx, opponent, Player0, Player1]
    rw [← hmine, ← hother] at hagrees
    exact hagrees

end WWindowSystem.Netgames
