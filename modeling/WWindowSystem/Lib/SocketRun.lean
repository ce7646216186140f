import WWindowSystem.Lib.Events
import WWindowSystem.Lib.Socket

namespace WWindowSystem

open List

structure WellSized (big : Bool) (p : List Byte) : Prop where
  header : 4 ≤ p.length
  fits : p.length ≤ PAKET_SIZE
  len : paketLen big p = p.length

def IsEvent (E : SocketEnv) (p : List Byte) : Prop := paketType E.big p = PAK_EVENT

instance (E : SocketEnv) : DecidablePred (IsEvent E) := fun _ => instDecidableEqBitVec _ _

def Lies (E : SocketEnv) (kind : List Byte → Prop) (ibuf : List Byte) : Prop :=
  ∃ l p t, ibuf = List.flatten l ++ (p ++ t) ∧ (∀ q ∈ l, WellSized E.big q) ∧ WellSized E.big p ∧ kind p

def FdSets.Covers (watched asked : FdSets) : Prop :=
  asked.rfd.getD ∅ ⊆ watched.rfd.getD ∅ ∧ asked.wfd.getD ∅ ⊆ watched.wfd.getD ∅ ∧
    asked.xfd.getD ∅ ⊆ watched.xfd.getD ∅

structure Selected.Ok (E : SocketEnv) (c : Selected) : Prop where
  event : c.scan.caller = .w_queryevent → c.scan.timeout < 0 →
    c.Events = 0 ∧ ¬ Lies E (IsEvent E) c.ibuf
  reply : ∀ type, c.scan.caller = ._wait4paket type → c.scan.timeout < 0 →
    ¬ Lies E (fun p => ¬ IsEvent E p) c.ibuf
  watched : c.scan.caller = .w_queryevent → c.scan.sets.Covers c.scan.asked

/-- The events that have arrived, those that were handed out and those that are queued: only the
oldest one of a full queue is ever lost. -/
inductive Delivered : List WEVENT → List WEVENT → List WEVENT → Prop
  | nil : Delivered [] [] []
  | queue {a h q : List WEVENT} (e : WEVENT) (hd : Delivered a h q) (hq : q.length < MAXWEVENTS) :
      Delivered (a ++ [e]) h (q ++ [e])
  | overflow {a h q : List WEVENT} (o e : WEVENT) (hd : Delivered a h (o :: q))
      (hq : (o :: q).length = MAXWEVENTS) : Delivered (a ++ [e]) h (q ++ [e])
  | hand {a h q : List WEVENT} (e : WEVENT) (hd : Delivered a h (e :: q)) : Delivered a (h ++ [e]) q

def arrived (E : SocketEnv) (done : List (List Byte)) : List WEVENT :=
  (done.filter (IsEvent E ·)).map fun p => (E.event p).toHost E.big

structure Accounted (E : SocketEnv) (ps : List (List Byte)) (S : SocketLib)
    (done rest : List (List Byte)) (queued : List WEVENT) : Prop where
  pakets : ps = done ++ rest
  rest : S.ibuf ++ S.stream = rest.flatten
  replies : S.replies = done.filter (¬ IsEvent E ·)
  events : Delivered (arrived E done) S.handed queued
  queue : Refines S.events queued

structure SocketLib.Kept (E : SocketEnv) (ps : List (List Byte)) (S : SocketLib) : Prop where
  selects : ∀ c ∈ S.selects, c.Ok E
  order : ∃ done rest queued, Accounted E ps S done rest queued
  room : S.ibuf.length < IBUFSIZE

def OnlySocket (E : SocketEnv) (scan : Scan) (a : SelectAnswer) : Prop :=
  (select (scan.timeout < 0) scan.sets a).1 = 1 ∧
    FD_ISSET E.Sock (select (scan.timeout < 0) scan.sets a).2.rfd

/-- The program asks for an event, or for a reply, when none lies in the buffer already, and when
only the socket is ready, then its bytes complete a paket unless no other descriptor is watched. -/
def SocketStep.Safe (E : SocketEnv) (S : SocketLib) : SocketStep → Prop
  | ._wait4paket _ => ¬ Lies E (fun p => ¬ IsEvent E p) S.ibuf
  | .w_queryevent _ timeout => timeout < 0 → S.events.Events = 0 → ¬ Lies E (IsEvent E) S.ibuf
  | .selected a => ∀ scan, S.scan = some scan → scan.caller = .w_queryevent → scan.timeout < 0 →
      OnlySocket E scan a → (⟨some {E.Sock}, none, none⟩ : FdSets).Covers scan.asked ∨
        Lies E (fun _ => True) (S.ibuf ++ S.chunk a)

theorem Delivered.push {a h q : List WEVENT} (hd : Delivered a h q) (hq : q.length ≤ MAXWEVENTS)
    (e : WEVENT) : Delivered (a ++ [e]) h (pushed q e) := by
  unfold pushed
  split_ifs with hf
  · cases q with
    | nil => exact absurd hf (by decide)
    | cons o q => exact hd.overflow o e hf
  · exact hd.queue e (by omega)

variable {s : List Byte} (big : Bool)

theorem netShort_append (h : 2 ≤ s.length) (t : List Byte) :
    netShort big (s ++ t) = netShort big s := by
  obtain ⟨a, b, s, rfl⟩ : ∃ a b s', s = a :: b :: s' := by
    match s, h with
    | a :: b :: s, _ => exact ⟨a, b, s, rfl⟩
  rfl

theorem paketLen_append (h : 4 ≤ s.length) (t : List Byte) :
    paketLen big (s ++ t) = paketLen big s :=
  congrArg BitVec.toInt (netShort_append big (by omega) t)

theorem paketType_append (h : 4 ≤ s.length) (t : List Byte) :
    paketType big (s ++ t) = paketType big s := by
  unfold paketType
  rw [drop_append_of_le_length (by omega)]
  apply netShort_append
  rw [length_drop]
  omega

theorem first_paket {big : Bool} {ibuf stream p : List Byte} {rest : List (List Byte)}
    (h : ibuf ++ stream = List.flatten (p :: rest)) (hp : WellSized big p) (h4 : 4 ≤ ibuf.length) :
    paketLen big ibuf = p.length ∧ paketType big ibuf = paketType big p := by
  rw [flatten_cons] at h
  have h1 := paketLen_append big h4 stream
  have h2 := paketType_append big h4 stream
  rw [h, paketLen_append big hp.header] at h1
  rw [h, paketType_append big hp.header] at h2
  exact ⟨h1 ▸ hp.len, h2.symm⟩

theorem take_paket {ibuf stream p : List Byte} {rest : List (List Byte)}
    (h : ibuf ++ stream = List.flatten (p :: rest)) (hlen : p.length ≤ ibuf.length) :
    ibuf.take p.length = p ∧ ibuf.drop p.length ++ stream = rest.flatten := by
  rw [flatten_cons] at h
  constructor
  · have ht := congrArg (List.take p.length) h
    rwa [take_append_of_le_length hlen, take_left] at ht
  · have hd := congrArg (List.drop p.length) h
    rwa [drop_append_of_le_length hlen, drop_left] at hd

variable {kind : List Byte → Prop} {ibuf stream : List Byte}

theorem Lies.complete {E : SocketEnv}
    {rest : List (List Byte)} (h : Lies E kind ibuf) (hs : ibuf ++ stream = rest.flatten)
    (hw : ∀ p ∈ rest, WellSized E.big p) : ∃ p ∈ rest.head?, p.length ≤ ibuf.length := by
  obtain ⟨l, p, t, rfl, hl, hp, -⟩ := h
  -- the first one of the pakets in the buffer
  obtain ⟨g, u, hg, hgu⟩ : ∃ g u, WellSized E.big g ∧ l.flatten ++ (p ++ t) = g ++ u := by
    cases l with
    | nil => exact ⟨p, t, hp, rfl⟩
    | cons g l =>
      refine ⟨g, l.flatten ++ (p ++ t), hl g mem_cons_self, ?_⟩
      rw [flatten_cons, append_assoc]
  rw [hgu] at hs ⊢
  have hglen : (g ++ u).length = g.length + u.length := length_append
  have h4 := hg.header
  cases rest with
  | nil =>
    have := congrArg List.length hs
    rw [flatten_nil, length_nil, length_append] at this
    omega
  | cons r rest =>
    refine ⟨r, rfl, ?_⟩
    obtain ⟨h1, -⟩ := first_paket hs (hw r mem_cons_self) (by omega)
    rw [paketLen_append E.big h4, hg.len] at h1
    omega

structure Analysed (E : SocketEnv) (stream : List Byte) (rest : List (List Byte)) (a h : List WEVENT)
    (q : List WEVENT) (r : Option (List Byte) × List Byte × EventBuffer)
    (evs rest' : List (List Byte)) (q' : List WEVENT) : Prop where
  pakets : rest = evs ++ (r.1.toList ++ rest')
  taken : ∀ p ∈ evs, IsEvent E p
  ret : ∀ p, r.1 = some p → ¬ IsEvent E p
  left : r.2.1 ++ stream = rest'.flatten
  events : Delivered (a ++ arrived E evs) h q'
  queue : Refines r.2.2 q'
  stays : evs = [] → q' = q
  grows : evs ≠ [] → q' ≠ []
  incomplete : r.1 = none → ∀ p ∈ rest'.head?, r.2.1.length < p.length

theorem arrived_cons {E : SocketEnv} {p : List Byte} (hp : IsEvent E p) (l : List (List Byte)) :
    arrived E (p :: l) = (E.event p).toHost E.big :: arrived E l := by
  unfold arrived
  rw [filter_cons_of_pos (by simpa using hp), map_cons]

theorem pushed_ne_nil (l : List WEVENT) (e : WEVENT) : pushed l e ≠ [] := by
  unfold pushed
  exact append_ne_nil_of_right_ne_nil _ (cons_ne_nil e [])

theorem analyse_spec {E : SocketEnv} {fuel : Nat} {events : EventBuffer}
    {rest : List (List Byte)} {a h q : List WEVENT} (hw : ∀ p ∈ rest, WellSized E.big p)
    (hs : ibuf ++ stream = rest.flatten) (hf : ibuf.length < fuel) (hq : Refines events q) (hd : Delivered a h q) :
    ∃ r evs rest' q', analyse E fuel ibuf events = some r ∧ Analysed E stream rest a h q r evs rest' q' := by
  induction fuel generalizing ibuf events rest a q with
  | zero => omega
  | succ fuel ih =>
    rw [analyse]
    have hnone (hinc : ∀ p ∈ rest.head?, ibuf.length < p.length) :
        Analysed E stream rest a h q (none, ibuf, events) [] rest q := by
      refine ⟨rfl, by simp, by simp, hs, ?_, hq, fun _ => rfl, fun hne => absurd rfl hne, fun _ => hinc⟩
      simpa [arrived] using hd
    by_cases h4 : 4 ≤ ibuf.length
    · rw [if_pos h4]
      cases rest with
      | nil =>
        have := congrArg List.length hs
        rw [flatten_nil, length_nil, length_append] at this
        omega
      | cons p rest =>
        have hp := hw p mem_cons_self
        obtain ⟨hlen, htype⟩ := first_paket hs hp h4
        rw [hlen, htype]
        dsimp only
        by_cases hlt : ibuf.length < p.length
        · rw [if_pos (by omega)]
          refine ⟨_, _, _, _, rfl, hnone ?_⟩
          rintro _ ⟨⟩
          exact hlt
        · obtain ⟨htake, hdrop⟩ := take_paket hs (by omega)
          rw [if_neg (by omega), Int.toNat_natCast, htake]
          by_cases hev : paketType E.big p = PAK_EVENT
          · rw [if_pos hev]
            have hpush : Refines (event_push E.big events (E.event p))
                (pushed q ((E.event p).toHost E.big)) := event_push_refines hq (E.event p)
            have hfuel : (ibuf.drop p.length).length < fuel := by
              have := hp.header
              rw [length_drop]
              omega
            obtain ⟨r, evs, rest', q', he, hr⟩ := ih (fun r hr => hw r (mem_cons_of_mem _ hr)) hdrop
              hfuel hpush (hd.push hq.1.size _)
            refine ⟨r, p :: evs, rest', q', he, ?_, ?_, hr.ret, hr.left, ?_, hr.queue, by simp, ?_, hr.incomplete⟩
            · rw [hr.pakets, cons_append]
            · intro r' hr'
              cases hr' with
              | head => exact hev
              | tail _ hr' => exact hr.taken r' hr'
            · have := hr.events
              rw [append_assoc] at this
              rwa [arrived_cons hev]
            · intro _
              by_cases hnil : evs = []
              · rw [hr.stays hnil]
                exact pushed_ne_nil _ _
              · exact hr.grows hnil
          · rw [if_neg hev]
            refine ⟨_, [], rest, q, rfl, rfl, by simp, ?_, hdrop, ?_, hq, fun _ => rfl, fun hne => absurd rfl hne, by simp⟩
            · rintro _ ⟨⟩
              exact hev
            · simpa [arrived] using hd
    · rw [if_neg h4]
      refine ⟨_, _, _, _, rfl, hnone ?_⟩
      intro p hp
      have := (hw p (mem_of_mem_head? hp)).header
      omega

variable {E : SocketEnv} {ps done rest evs rest' : List (List Byte)} {S : SocketLib} {scan : Scan}
  {q q' : List WEVENT}

theorem arrived_append (l l' : List (List Byte)) : arrived E (l ++ l') = arrived E l ++ arrived E l' := by
  unfold arrived
  rw [filter_append, map_append]

variable {r : Option (List Byte) × List Byte × EventBuffer}

theorem Accounted.after
    (h : Accounted E ps S done rest q)
    (hr : Analysed E S.stream rest (arrived E done) S.handed q r evs rest' q') :
    Accounted E ps { S with ibuf := r.2.1, events := r.2.2, replies := S.replies ++ r.1.toList }
      (done ++ (evs ++ r.1.toList)) rest' q' := by
  have hret : ∀ p ∈ r.1.toList, ¬ IsEvent E p := fun p hp => hr.ret p (by simpa using hp)
  refine ⟨?_, hr.left, ?_, ?_, hr.queue⟩
  · rw [h.pakets, hr.pakets, append_assoc, append_assoc]
  · have h1 : evs.filter (¬ IsEvent E ·) = [] := by simpa using hr.taken
    have h2 : r.1.toList.filter (¬ IsEvent E ·) = r.1.toList := by simpa using hret
    rw [filter_append, filter_append, h1, h2, ← h.replies, nil_append]
  · have h1 : arrived E r.1.toList = [] := by
      unfold arrived
      rw [map_eq_nil_iff]
      simpa using hret
    rw [arrived_append, arrived_append, h1, append_nil]
    exact hr.events

theorem Accounted.pop (h : Accounted E ps S done rest q) :
    Accounted E ps { S with events := (event_pop S.events).2
                            handed := S.handed ++ (event_pop S.events).1.toList } done rest q.tail := by
  obtain ⟨h1, h2⟩ := event_pop_refines h.queue
  refine ⟨h.pakets, h.rest, h.replies, ?_, h2⟩
  rw [h1]
  have hd := h.events
  cases q with
  | nil =>
    change Delivered _ (S.handed ++ []) []
    rwa [append_nil]
  | cons e q => exact hd.hand e

/-- The pakets of the stream have the lengths that they tell, and a waiting `w_queryevent` watches what
it was asked to. -/
structure SocketLib.Ok (E : SocketEnv) (ps : List (List Byte)) (S : SocketLib) : Prop where
  kept : S.Kept E ps
  covers : ∀ scan, S.scan = some scan → scan.caller = .w_queryevent → scan.sets.Covers scan.asked

def FdSets.withSocket (E : SocketEnv) (sets : FdSets) : FdSets :=
  { sets with rfd := some (insert E.Sock (sets.rfd.getD ∅)) }

theorem FdSets.Covers.withSocket {watched asked : FdSets} (h : watched.Covers asked) :
    (watched.withSocket E).Covers asked :=
  ⟨h.1.trans (Finset.subset_insert _ _), h.2⟩

theorem scanSocket_select_ok (h : S.Kept E ps)
    (hevent : scan.caller = .w_queryevent → scan.timeout < 0 → S.events.Events = 0 → ¬ Lies E (IsEvent E) S.ibuf)
    (hreply : ∀ type, scan.caller = ._wait4paket type → ¬ Lies E (fun p => ¬ IsEvent E p) S.ibuf)
    (hsock : scan.caller = .w_queryevent → S.events.Events = 0 → (scan.sets.withSocket E).Covers scan.asked)
    (hsets : scan.caller = .w_queryevent → S.events.Events ≠ 0 → scan.sets.Covers scan.asked) :
    (scanSocket_select E S scan).Ok E ps := by
  have hcov (hc : scan.caller = .w_queryevent) (rfd : Option (Finset Nat))
      (hr : rfd = if ¬ scan.caller.wantEvent ∨ S.events.Events = 0 then
        some (insert E.Sock (scan.sets.rfd.getD ∅)) else scan.sets.rfd) :
      ({ scan.sets with rfd } : FdSets).Covers scan.asked := by
    have hw : scan.caller.wantEvent = true := by rw [hc]; rfl
    by_cases h0 : S.events.Events = 0
    · rw [if_pos (Or.inr h0)] at hr
      rw [hr]
      exact hsock hc h0
    · rw [if_neg (by simp [hw, h0])] at hr
      rw [hr]
      exact hsets hc h0
  obtain ⟨_, _, _, ha⟩ := h.order
  refine ⟨⟨fun c hc => ?_, ⟨_, _, _, ⟨ha.pakets, ha.rest, ha.replies, ha.events, ha.queue⟩⟩, h.room⟩, ?_⟩
  · cases hc with
    | tail _ hc => exact h.selects c hc
    | head =>
      refine ⟨fun hc ht => ?_, fun type hc _ => hreply type hc, fun hc => hcov hc _ rfl⟩
      change scan.caller = _ at hc
      dsimp only at ht
      have hw : scan.caller.wantEvent = true := by rw [hc]; rfl
      by_cases h0 : S.events.Events = 0
      · rw [if_neg (by simp [h0])] at ht
        exact ⟨h0, hevent hc ht h0⟩
      · rw [if_pos ⟨hw, h0⟩] at ht
        omega
  · rintro _ ⟨⟩ hc
    exact hcov hc _ rfl

theorem scanSocket_return_ok (hsel : ∀ c ∈ S.selects, c.Ok E) (hroom : S.ibuf.length < IBUFSIZE)
    (ret : Option (List Byte))
    (h : Accounted E ps { S with replies := S.replies ++ ret.toList } done rest q) (fds : Int)
    (sets : FdSets) : (scanSocket_return E S scan fds sets ret).Ok E ps := by
  have hsame : Accounted E ps { S with scan := none, replies := S.replies ++ ret.toList } done rest q :=
    ⟨h.pakets, h.rest, h.replies, h.events, h.queue⟩
  unfold scanSocket_return
  dsimp only
  split
  · exact ⟨⟨hsel, ⟨_, _, _, ⟨h.pakets, h.rest, h.replies, h.events, h.queue⟩⟩, hroom⟩, by simp⟩
  · exact ⟨⟨hsel, ⟨_, _, _, ⟨h.pakets, h.rest, h.replies, h.events, h.queue⟩⟩, hroom⟩, by simp⟩
  · exact ⟨⟨hsel, ⟨_, _, _, ⟨h.pakets, h.rest, h.replies, h.events, h.queue⟩⟩, hroom⟩, by simp⟩
  · have hp := hsame.pop
    exact ⟨⟨hsel, ⟨_, _, _, ⟨hp.pakets, hp.rest, hp.replies, hp.events, hp.queue⟩⟩, hroom⟩, by simp⟩

theorem Analysed.room {a h : List WEVENT}
    (hw : ∀ p ∈ rest, WellSized E.big p)
    (hs : ibuf ++ stream = rest.flatten) (hl : ibuf.length ≤ IBUFSIZE)
    (hr : Analysed E stream rest a h q r evs rest' q') : r.2.1.length < IBUFSIZE := by
  have hsize : IBUFSIZE = 4096 := rfl
  have hpak : PAKET_SIZE = 4004 := rfl
  have hleft := congrArg List.length hr.left
  cases hret : r.1 with
  | none =>
    have hinc := hr.incomplete hret
    cases rest' with
    | nil =>
      rw [flatten_nil, length_nil, length_append] at hleft
      omega
    | cons p rest' =>
      have h1 := hinc p rfl
      have h2 := (hw p (by rw [hr.pakets]; simp)).fits
      omega
  | some p =>
    have hp := (hw p (by rw [hr.pakets, hret]; simp)).header
    have hall := congrArg List.length hs
    rw [hr.pakets, hret, flatten_append, flatten_append, length_append,
      length_append, length_append, ← hr.left, length_append] at hall
    have h1 : (some p).toList.flatten.length = p.length := by simp
    omega

theorem scanSocket_analyse_ok (hw : ∀ p ∈ ps, WellSized E.big p) (hsel : ∀ c ∈ S.selects, c.Ok E)
    (h : Accounted E ps S done rest q) (hlen : S.ibuf.length ≤ IBUFSIZE) {fds : Int} {sets : FdSets}
    (hcov : scan.caller = .w_queryevent → scan.timeout < 0 → fds ≤ 0 →
      (sets.withSocket E).Covers scan.asked ∨ Lies E (fun _ => True) S.ibuf) :
    (scanSocket_analyse E S scan fds sets).Ok E ps := by
  have hwr : ∀ p ∈ rest, WellSized E.big p := fun p hp => hw p (by rw [h.pakets]; simp [hp])
  obtain ⟨r, evs, rest', q', he, hr⟩ := analyse_spec hwr h.rest (Nat.lt_succ_self _) h.queue h.events
  have hafter := h.after hr
  have hroom := hr.room hwr h.rest hlen
  have hwr' : ∀ p ∈ rest', WellSized E.big p := fun p hp => hwr p (by rw [hr.pakets]; simp [hp])
  obtain ⟨ret, ibuf, events⟩ := r
  unfold scanSocket_analyse
  rw [he]
  dsimp only
  split_ifs with hend
  · exact scanSocket_return_ok (S := { S with ibuf, events }) hsel hroom ret hafter fds sets
  · -- no paket, and no event for one who wants events
    obtain ⟨hret, hev, hfds, ht⟩ := by simpa only [not_or] using hend
    have hret : ret = none := by simpa using hret
    subst hret
    have hnone (kind : List Byte → Prop) : ¬ Lies E kind ibuf := by
      intro hl
      obtain ⟨p, hp, hle⟩ := hl.complete hr.left hwr'
      have := hr.incomplete rfl p hp
      dsimp only at this
      omega
    have hq' : scan.caller = .w_queryevent → q' = [] := by
      intro hc
      have hE : ¬ events.Events > 0 := fun hpos => hev ⟨by rw [hc]; rfl, hpos⟩
      have := hr.queue.2
      dsimp only at this
      apply eq_nil_of_length_eq_zero
      omega
    have hkept : ({ S with ibuf, events } : SocketLib).Kept E ps := by
      refine ⟨hsel, ⟨_, rest', q', ⟨hafter.pakets, hafter.rest, ?_, hafter.events, hafter.queue⟩⟩, hroom⟩
      have := hafter.replies
      rwa [Option.toList_none, append_nil] at this
    apply scanSocket_select_ok hkept
    · exact fun _ _ _ => hnone _
    · exact fun _ _ => hnone _
    · intro hc _
      obtain hcovers | hl := hcov hc (by omega) (by omega)
      · exact hcovers
      · -- the paket in the buffer would have been taken out
        have hnil : evs = [] := by
          by_contra hne
          exact hr.grows hne (hq' hc)
        have hrest : rest = rest' := by
          have := hr.pakets
          rwa [hnil, Option.toList_none, nil_append, nil_append] at this
        have hsame : S.ibuf = ibuf := append_cancel_right (by rw [h.rest, hr.left, hrest])
        exact absurd (hsame ▸ hl) (hnone _)
    · intro hc h0
      have := hr.queue.2
      rw [hq' hc] at this
      exact absurd this h0

theorem select_unlimited (sets : FdSets) (a : SelectAnswer) :
    select true sets a = (-1, sets) ∨ 1 ≤ (select true sets a).1 := by
  unfold select
  cases a.ready with
  | none => exact Or.inl rfl
  | some r =>
    obtain ⟨r, w, x⟩ := r
    dsimp only
    split_ifs with h0
    · exact Or.inl rfl
    · right
      have hcount (set : Option (Finset Nat)) : 0 ≤ countSet set := Int.natCast_nonneg _
      have h1 := hcount (sets.rfd.map (· ∩ r))
      have h2 := hcount (sets.wfd.map (· ∩ w))
      have h3 := hcount (sets.xfd.map (· ∩ x))
      rw [not_and] at h0
      have := h0 rfl
      dsimp only
      omega

theorem withSocket_erase {sets asked : FdSets} (h : sets.Covers asked) :
    (({ sets with rfd := sets.rfd.map (·.erase E.Sock) } : FdSets).withSocket E).Covers asked := by
  refine ⟨h.1.trans ?_, h.2⟩
  change sets.rfd.getD ∅ ⊆ insert E.Sock ((sets.rfd.map fun s => s.erase E.Sock).getD ∅)
  cases sets.rfd with
  | none => exact Finset.empty_subset _
  | some s =>
    change s ⊆ insert E.Sock (s.erase E.Sock)
    intro fd hfd
    by_cases he : fd = E.Sock
    · rw [he]
      exact Finset.mem_insert_self ..
    · exact Finset.mem_insert_of_mem (Finset.mem_erase.mpr ⟨he, hfd⟩)

theorem SocketLib.chunk_append (S : SocketLib) (a : SelectAnswer) :
    S.chunk a ++ S.stream.drop (S.chunk a).length = S.stream :=
  prefix_iff_eq_append.mp (List.take_prefix _ _)

theorem scanSocket_selected_ok (hw : ∀ p ∈ ps, WellSized E.big p) (h : S.Ok E ps) (a : SelectAnswer)
    (hscan : S.scan = some scan) (hs : (SocketStep.selected a).Safe E S) :
    (scanSocket_selected E S scan a).Ok E ps := by
  obtain ⟨hsel, ⟨done, rest, q, ha⟩, hroom⟩ := h.kept
  have hcov := h.covers scan hscan
  have hret (ht : scan.timeout < 0) : (select (scan.timeout < 0) scan.sets a).2 = scan.sets ∨
      1 ≤ (select (scan.timeout < 0) scan.sets a).1 := by
    rw [decide_eq_true ht]
    obtain he | h1 := select_unlimited scan.sets a
    · exact Or.inl (congrArg Prod.snd he)
    · exact Or.inr h1
  have honly := hs scan hscan
  unfold OnlySocket at honly
  unfold scanSocket_selected
  generalize select (scan.timeout < 0) scan.sets a = ret at hret honly
  dsimp only
  by_cases hset : FD_ISSET E.Sock ret.2.rfd
  · rw [if_pos hset]
    by_cases hdead : S.chunk a = []
    · rw [if_pos hdead]
      exact ⟨⟨hsel, ⟨_, _, _, ⟨ha.pakets, ha.rest, ha.replies, ha.events, ha.queue⟩⟩, hroom⟩, by simp⟩
    · rw [if_neg hdead]
      apply scanSocket_analyse_ok (q := q) hw
      · exact hsel
      · refine ⟨ha.pakets, ?_, ha.replies, ha.events, ha.queue⟩
        exact (append_assoc ..).trans ((congrArg _ (S.chunk_append a)).trans ha.rest)
      · have : (S.chunk a).length ≤ IBUFSIZE - S.ibuf.length :=
          (length_take_le ..).trans (Nat.min_le_right ..)
        dsimp only
        rw [length_append]
        omega
      · intro hc ht hfds
        obtain he | h1 := hret ht
        · rw [he]
          exact Or.inl (withSocket_erase (hcov hc))
        · -- only the socket was ready
          rw [if_neg (by omega)] at hfds
          obtain hcovers | hl := honly hc ht ⟨by omega, hset⟩
          · left
            refine ⟨hcovers.1.trans ?_, hcovers.2.1.trans (Finset.empty_subset _),
              hcovers.2.2.trans (Finset.empty_subset _)⟩
            exact Finset.singleton_subset_iff.mpr (Finset.mem_insert_self ..)
          · exact Or.inr hl
  · rw [if_neg hset]
    apply scanSocket_analyse_ok hw hsel ha hroom.le
    intro hc ht hfds
    obtain he | h1 := hret ht
    · rw [he]
      exact Or.inl (hcov hc).withSocket
    · rw [if_neg (by omega)] at hfds
      omega

theorem socketStep_ok (hw : ∀ p ∈ ps, WellSized E.big p) (h : S.Ok E ps) (step : SocketStep)
    (hs : step.Safe E S) : (socketStep E S step).Ok E ps := by
  unfold socketStep
  split_ifs
  · exact h
  · split
    · apply scanSocket_select_ok h.kept
      · exact by simp
      · exact fun _ _ => hs
      · exact by simp
      · exact by simp
    · have hall (sets : FdSets) : sets.Covers sets := ⟨subset_rfl, subset_rfl, subset_rfl⟩
      apply scanSocket_select_ok h.kept
      · exact fun _ => hs
      · exact by simp
      · exact fun _ _ => (hall _).withSocket
      · exact fun _ _ => hall _
    · next hscan => exact scanSocket_selected_ok hw h _ hscan hs
    · exact h

/-- In a run of safe steps the library never waits for what it has, it watches what it was asked to
watch, and it hands out everything in order. -/
theorem socket_kept (hw : ∀ p ∈ ps, WellSized E.big p) {Event : Nat → WEVENT} {l : List SocketStep}
    (hl : AllSafe (socketStep E) (SocketStep.Safe E) (socket_init ps.flatten Event) l) :
    (l.foldl (socketStep E) (socket_init ps.flatten Event)).Kept E ps := by
  have hroom : 0 < IBUFSIZE := by decide
  have hstart : (socket_init ps.flatten Event).Ok E ps :=
    ⟨⟨by simp [socket_init], ⟨[], ps, [], rfl, rfl, rfl, Delivered.nil, emptyBuffer_refines Event⟩, hroom⟩, by simp [socket_init]⟩
  exact (hl.invariant (SocketLib.Ok E ps) (fun _ step h hs => socketStep_ok hw h step hs) hstart).kept

theorem not_lies_of_nil {ibuf : List Byte} (h : ibuf = []) : ¬ Lies E kind ibuf := by
  rintro ⟨l, p, t, he, -, hp, -⟩
  have h4 := hp.header
  have := congrArg List.length (he.symm.trans h)
  rw [length_append, length_append, length_nil] at this
  omega

def bigEndian : SocketEnv := ⟨true, 3, fun _ => someEvent 0⟩

def replyPaket : List Byte := [0, 8, 3, 2, 0, 0, 0, 0]
def eventPaket : List Byte := [0, 32, 4, 0] ++ List.replicate 28 0

theorem replyPaket_wellSized : WellSized true replyPaket := ⟨by decide, by decide, by decide⟩
theorem eventPaket_wellSized : WellSized true eventPaket := ⟨by decide, by decide, by decide⟩

def fromSocket (bytes : Nat) : SocketStep := .selected ⟨some ({3}, ∅, ∅), bytes⟩

def replyThenEvent : List SocketStep :=
  [._wait4paket 0x0302, fromSocket 8, .w_queryevent ⟨some {7}, none, none⟩ (-1), fromSocket 32]

theorem socket_kept_replyThenEvent : (replyThenEvent.foldl (socketStep bigEndian)
      (socket_init [replyPaket, eventPaket].flatten fun _ => someEvent 0)).Kept bigEndian [replyPaket, eventPaket] := by
  apply socket_kept
  · intro p hp
    rw [List.mem_cons, List.mem_singleton] at hp
    obtain rfl | rfl := hp
    · exact replyPaket_wellSized
    · exact eventPaket_wellSized
  · refine ⟨not_lies_of_nil rfl, ?_, fun _ _ => not_lies_of_nil (by decide +kernel), ?_, trivial⟩
    · rintro scan ⟨⟩ hc
      cases hc
    · intro _ _ _ _ _
      refine Or.inr ⟨[], eventPaket, [], by decide +kernel, nofun, eventPaket_wellSized, trivial⟩

def eventBehindReply : List SocketStep :=
  [._wait4paket 0x0302, fromSocket 40, .w_queryevent ⟨none, none, none⟩ (-1)]

def partOfEvent : List SocketStep := [.w_queryevent ⟨some {7}, none, none⟩ (-1), fromSocket 2]

theorem socket_not_kept : ¬ (eventBehindReply.foldl (socketStep bigEndian)
        (socket_init [replyPaket, eventPaket].flatten fun _ => someEvent 0)).Kept bigEndian [replyPaket, eventPaket] ∧
      ¬ (partOfEvent.foldl (socketStep bigEndian)
        (socket_init [eventPaket].flatten fun _ => someEvent 0)).Kept bigEndian [eventPaket] := by
  constructor
  · intro h
    obtain ⟨-, hno⟩ := (h.selects _ List.mem_cons_self).event (by decide +kernel) (by decide +kernel)
    exact hno ⟨[], eventPaket, [], by decide +kernel, nofun, eventPaket_wellSized, by decide⟩
  · intro h
    obtain ⟨hr, -⟩ := (h.selects _ List.mem_cons_self).watched (by decide +kernel)
    revert hr
    decide +kernel

end WWindowSystem
