import WWindowSystem.Wetscape.HttpReply

namespace WWindowSystem.Http

variable {E : HttpEnv} {iop iop' : http_io} {r r' : List Byte}

def rest (iop : http_io) : List Byte := iop.ibuf.drop iop.iptr

theorem rest_iptr (k : Nat) : rest { iop with iptr := iop.iptr + k } = (rest iop).drop k := by
  unfold rest
  rw [List.drop_drop]

theorem io_getc_none (h : nextChar (rest iop) = none) : io_getc iop = (EOF, iop) := by
  unfold io_getc
  unfold rest at h
  cases hr : iop.ibuf.drop iop.iptr with
  | nil => rfl
  | cons d r =>
    rw [hr] at h
    by_cases hd : d = 13
    · dsimp only
      rw [if_pos hd]
      cases r with
      | nil => rfl
      | cons e r =>
        rw [hd, nextChar_cr] at h
        split_ifs at h
    · rw [nextChar_other hd] at h
      cases h

variable {c : Byte}

theorem io_getc_some (h : nextChar (rest iop) = some (c, r')) :
    ∃ k, 0 < k ∧ io_getc iop = (c.toInt, { iop with iptr := iop.iptr + k }) ∧ rest { iop with iptr := iop.iptr + k } = r' := by
  have hr : iop.ibuf.drop iop.iptr = rest iop := rfl
  rcases nextChar_cases h with ⟨hc, hrest⟩ | ⟨rfl, hrest | ⟨e, s, he, rfl, hrest⟩⟩
  · refine ⟨1, Nat.one_pos, ?_, ?_⟩
    · rw [io_getc, hr, hrest]
      exact if_neg hc
    · rw [rest_iptr, hrest]
      rfl
  · refine ⟨2, Nat.two_pos, ?_, ?_⟩
    · rw [io_getc, hr, hrest]
      rfl
    · rw [rest_iptr, hrest]
      rfl
  · refine ⟨1, Nat.one_pos, ?_, ?_⟩
    · rw [io_getc, hr, hrest]
      dsimp only
      rw [if_pos rfl, if_neg he]
      rfl
    · rw [rest_iptr, hrest]
      rfl

theorem toInt_eof (h : c ≠ 255) : c.toInt ≠ EOF := by
  revert c
  decide

theorem ofInt_toInt (c : Byte) : BitVec.ofInt 8 c.toInt = c := BitVec.ofInt_toInt

def putLine (iop : http_io) (line : List Byte) : http_io := { iop with hhook := { iop.hhook with buf := line } }

def Collects (E : HttpEnv) (iop : http_io) (endc : Byte) : Prop :=
  iop.hhook.state ≠ .InBody ∧ ∀ line c, c ≠ endc → http_char E (putLine iop line) c = push (putLine iop line) c

theorem collects_status (h : iop.hhook.state = .InStatus) : Collects E iop 10 := by
  refine ⟨by rw [h]; decide, ?_⟩
  intro line c hc
  have hst : (putLine iop line).hhook.state = .InStatus := h
  rw [http_char, hst]
  exact if_neg hc

theorem collects_option (h : iop.hhook.state = .InOption) : Collects E iop 58 := by
  refine ⟨by rw [h]; decide, ?_⟩
  intro line c hc
  have hst : (putLine iop line).hhook.state = .InOption := h
  rw [http_char, hst]
  exact if_neg hc

theorem collects_value (h : iop.hhook.state = .InValue) : Collects E iop 10 := by
  refine ⟨by rw [h]; decide, ?_⟩
  intro line c hc
  have hst : (putLine iop line).hhook.state = .InValue := h
  rw [http_char, hst]
  exact if_neg hc

structure InLine (E : HttpEnv) (iop : http_io) (s : List Byte × http_io) : Prop where
  moved : ∃ k, s.2 = { iop with iptr := iop.iptr + k }
  feeds : Feeds (httpStep E) (core iop) (rest iop) (core (putLine iop s.1)) (rest s.2)

theorem Reads.feeds {s t : http_io} (h : Reads s r) (hfeeds : Feeds (httpStep E) s r t r') : Reads t r' :=
  hfeeds.invariant Reads (fun _ _ _ _ hs hstep => hs.step hstep) h

theorem rest_length (k : Nat) : (rest { iop with iptr := iop.iptr + k }).length ≤ (rest iop).length := by
  rw [rest_iptr, List.length_drop]
  omega

variable {s : List Byte × http_io} {endc : Byte}

theorem getlineTurn_char (hcol : Collects E iop endc) (hreads : Reads (core iop) (rest iop))
    (h : InLine E iop s) (hc : nextChar (rest s.2) = some (c, r')) :
    ∃ next, (∃ k, next = { iop with iptr := iop.iptr + k }) ∧ rest next = r' ∧
      if c = endc then getlineTurn endc.toInt s = .inr (false, s.1, next)
      else ∃ line, getlineTurn endc.toInt s = .inl (line, next) ∧ InLine E iop (line, next) := by
  obtain ⟨line, cur⟩ := s
  obtain ⟨k, hk⟩ := h.moved
  have hfeeds := h.feeds
  dsimp only at hc hk hfeeds
  obtain ⟨j, _, hgetc, hrest⟩ := io_getc_some hc
  have hline := hreads.feeds hfeeds
  have hbody : (core (putLine iop line)).hhook.state ≠ .InBody := hcol.1
  obtain ⟨⟨_, h255⟩, _⟩ := hline.clean.step hbody hc
  have hnext : ∃ k, ({ cur with iptr := cur.iptr + j } : http_io) = { iop with iptr := iop.iptr + k } := by
    refine ⟨k + j, ?_⟩
    rw [hk]
    dsimp only
    rw [Nat.add_assoc]
  refine ⟨_, hnext, hrest, ?_⟩
  have hcstr : cstr line = line := cstr_of_nul hline.nul
  by_cases hend : c = endc
  · rw [if_pos hend]
    unfold getlineTurn
    dsimp only
    rw [hgetc, hend]
    dsimp only
    rw [if_neg (by simp), decide_eq_false (by rw [← hend]; exact toInt_eof h255)]
  · rw [if_neg hend]
    have hne : c.toInt ≠ endc.toInt := fun heq => hend (BitVec.toInt_inj.mp heq)
    refine ⟨if line.length < BUFLEN - 1 then line ++ [c] else line, ?_, ?_⟩
    · unfold getlineTurn
      dsimp only
      rw [hgetc]
      dsimp only
      rw [if_pos ⟨toInt_eof h255, hne⟩, ofInt_toInt]
    · constructor
      · exact hnext
      · apply hfeeds.trans
        have hstep := httpStep_char (E := E) hbody hc
        rw [← core_http_char, hcol.2 line c hend] at hstep
        have hpush : push (putLine iop line) c = putLine iop (if line.length < BUFLEN - 1 then line ++ [c] else line) := by
          unfold push putLine
          dsimp only
          rw [hcstr]
        rw [hpush] at hstep
        rw [hrest]
        exact .head hstep (.refl _ _)

theorem getlineTurn_eof (endc : Int) (hc : nextChar (rest s.2) = none) :
    getlineTurn endc s = .inr (true, s.1, s.2) := by
  obtain ⟨line, cur⟩ := s
  unfold getlineTurn
  dsimp only at hc ⊢
  rw [io_getc_none hc]
  exact if_neg (by simp)

theorem getline_spec (hcol : Collects E iop endc) (hreads : Reads (core iop) (rest iop)) :
    ∃ b line k, getline iop endc.toInt = some (b, putLine { iop with iptr := iop.iptr + k } line) ∧
      if b then nextChar (rest { iop with iptr := iop.iptr + k }) = none ∧
        Feeds (httpStep E) (core iop) (rest iop) (core (putLine iop line)) (rest { iop with iptr := iop.iptr + k })
      else ∃ r, nextChar r = some (endc, rest { iop with iptr := iop.iptr + k }) ∧ r.length ≤ (rest iop).length ∧
        Feeds (httpStep E) (core iop) (rest iop) (core (putLine iop line)) r := by
  have hrun : ∃ o, runLoop (getlineTurn endc.toInt) (iop.ibuf.length + 1) (cstr iop.hhook.buf, iop) = some o ∧
      ∃ k, o.2.2 = { iop with iptr := iop.iptr + k } ∧
        if o.1 then nextChar (rest o.2.2) = none ∧
          Feeds (httpStep E) (core iop) (rest iop) (core (putLine iop o.2.1)) (rest o.2.2)
        else ∃ r, nextChar r = some (endc, rest o.2.2) ∧ r.length ≤ (rest iop).length ∧
          Feeds (httpStep E) (core iop) (rest iop) (core (putLine iop o.2.1)) r := by
    apply runLoop_spec (InLine E iop) (fun s => (rest s.2).length)
    · intro s s' hs hturn
      cases hc : nextChar (rest s.2) with
      | none =>
        rw [getlineTurn_eof _ hc] at hturn
        cases hturn
      | some p =>
        obtain ⟨c, r'⟩ := p
        obtain ⟨next, _, hrest, hend⟩ := getlineTurn_char hcol hreads hs hc
        split_ifs at hend with heq
        · rw [hend] at hturn
          cases hturn
        · obtain ⟨line, hline, hin⟩ := hend
          rw [hline] at hturn
          cases hturn
          refine ⟨hin, ?_⟩
          rw [hrest]
          exact nextChar_length hc
    · intro s o hs hturn
      obtain ⟨k, hk⟩ := hs.moved
      cases hc : nextChar (rest s.2) with
      | none =>
        rw [getlineTurn_eof _ hc] at hturn
        cases hturn
        refine ⟨k, hk, ?_⟩
        rw [if_pos (by simp)]
        exact ⟨hc, hs.feeds⟩
      | some p =>
        obtain ⟨c, r'⟩ := p
        obtain ⟨next, ⟨j, hnext⟩, hrest, hend⟩ := getlineTurn_char hcol hreads hs hc
        split_ifs at hend with heq
        · rw [hend] at hturn
          cases hturn
          refine ⟨j, hnext, ?_⟩
          rw [if_neg (by simp)]
          refine ⟨rest s.2, ?_, ?_, hs.feeds⟩
          · rw [hc, heq, hrest]
          · rw [hk]
            exact rest_length k
        · obtain ⟨line, hline, _⟩ := hend
          rw [hline] at hturn
          cases hturn
    · constructor
      · exact ⟨0, rfl⟩
      · have hnul : cstr iop.hhook.buf = iop.hhook.buf := cstr_of_nul hreads.nul
        rw [hnul]
        exact .refl _ _
    · dsimp only [rest]
      rw [List.length_drop]
      omega
  obtain ⟨⟨b, line, cur⟩, ho, k, hk, hpost⟩ := hrun
  dsimp only at hk hpost
  rw [hk] at hpost
  refine ⟨b, line, k, ?_, hpost⟩
  rw [getline, ho, hk]
  rfl

theorem getline_feeds (hcol : Collects E iop endc) (hreads : Reads (core iop) (rest iop)) :
    ∃ b line k, getline iop endc.toInt = some (b, putLine { iop with iptr := iop.iptr + k } line) ∧
      if b then Feeds (httpStep E) (core iop) (rest iop) (core (putLine iop line)) (rest { iop with iptr := iop.iptr + k }) ∧
        httpStep E (core (putLine iop line)) (rest { iop with iptr := iop.iptr + k }) = none
      else Feeds (httpStep E) (core iop) (rest iop) (core (http_char E (putLine iop line) endc))
          (rest { iop with iptr := iop.iptr + k }) ∧
        (rest { iop with iptr := iop.iptr + k }).length < (rest iop).length := by
  obtain ⟨b, line, k, hget, hpost⟩ := getline_spec hcol hreads
  refine ⟨b, line, k, hget, ?_⟩
  split_ifs at hpost ⊢ with hb
  · refine ⟨hpost.2, ?_⟩
    rw [httpStep, hpost.1]
    simp
  · obtain ⟨r, hr, hlen, hfeeds⟩ := hpost
    have hbody : (core (putLine iop line)).hhook.state ≠ .InBody := hcol.1
    have hstep := httpStep_char (E := E) hbody hr
    rw [← core_http_char] at hstep
    exact ⟨hfeeds.trans (.head hstep (.refl _ _)), lt_of_lt_of_le (nextChar_length hr) hlen⟩

def Ready (iop : http_io) : Prop :=
  iop.hhook.state = .InStatus → iop.ibufoffset = 0 → 4 ≤ iop.ibuf.length ∧ strncasecmp (cstring "HTTP") iop.ibuf 4 = 0

structure Replies (E : HttpEnv) (s : http_io) (iop : http_io) : Prop where
  reads : Reads (core iop) (rest iop)
  ready : Ready iop
  ibuf : iop.ibuf = s.ibuf
  offset : iop.ibufoffset = s.ibufoffset
  leads : ∀ t q, Feeds (httpStep E) (core iop) (rest iop) t q → httpStep E t q = none → Feeds (httpStep E) (core s) (rest s) t q

structure Replied (E : HttpEnv) (s : http_io) (iop : http_io) : Prop where
  ibuf : iop.ibuf = s.ibuf
  offset : iop.ibufoffset = s.ibufoffset
  feeds : Feeds (httpStep E) (core s) (rest s) (core iop) (rest iop)
  ends : httpStep E (core iop) (rest iop) = none

def turns (iop : http_io) : Nat := 2 * (rest iop).length + if iop.hhook.state = .InEOL then 1 else 0

def TurnSpec (E : HttpEnv) (s iop : http_io) : Prop :=
  (∃ next, replyTurn E iop = .inl next ∧ Replies E s next ∧ turns next < turns iop) ∨
    ∃ last, replyTurn E iop = .inr (some last) ∧ Replied E s last

theorem line_turn {s : http_io} (h : Replies E s iop) (hcol : Collects E iop endc) (heol : iop.hhook.state ≠ .InEOL)
    (done : http_io → http_io)
    (hturn : replyTurn E iop = match getline iop endc.toInt with
      | none => .inr none
      | some (true, iop) => .inr (some iop)
      | some (false, iop) => .inl (done iop))
    (hdone : ∀ line k, core (http_char E (putLine iop line) endc) = core (done (putLine { iop with iptr := iop.iptr + k } line)))
    (hframe : ∀ iop, rest (done iop) = rest iop ∧ (done iop).ibuf = iop.ibuf ∧ (done iop).ibufoffset = iop.ibufoffset)
    (hstatus : ∀ iop, (done iop).hhook.state ≠ .InStatus) : TurnSpec E s iop := by
  obtain ⟨b, line, k, hget, hpost⟩ := getline_feeds hcol h.reads
  rw [hget] at hturn
  cases b with
  | true =>
    rw [if_pos rfl] at hpost
    right
    refine ⟨_, hturn, h.ibuf, h.offset, ?_, hpost.2⟩
    exact h.leads _ _ hpost.1 hpost.2
  | false =>
    rw [if_neg (by decide), hdone line k] at hpost
    obtain ⟨hfeeds, hlen⟩ := hpost
    obtain ⟨hrest, hibuf, hoffset⟩ := hframe (putLine { iop with iptr := iop.iptr + k } line)
    have hrest' : rest (done (putLine { iop with iptr := iop.iptr + k } line)) = rest { iop with iptr := iop.iptr + k } := hrest
    left
    refine ⟨_, hturn, ?_, ?_⟩
    · rw [← hrest'] at hfeeds
      constructor
      · exact h.reads.feeds hfeeds
      · intro hst
        exact absurd hst (hstatus _)
      · rw [hibuf]
        exact h.ibuf
      · rw [hoffset]
        exact h.offset
      · intro t q hq hend
        exact h.leads t q (hfeeds.trans hq) hend
    · unfold turns
      rw [hrest', if_neg heol]
      split_ifs <;> omega

theorem again_turn {s next : http_io} (h : Replies E s iop) (heol : iop.hhook.state = .InEOL)
    (hc : nextChar (rest iop) = some (c, r')) (hturn : replyTurn E iop = .inl next) (hrest : rest next = rest iop)
    (hibuf : next.ibuf = iop.ibuf) (hoffset : next.ibufoffset = iop.ibufoffset) (hnul : 0 ∉ next.hhook.buf)
    (hstate : next.hhook.state = .InValue ∨ next.hhook.state = .InOption)
    (hchar : http_char E (core iop) c = http_char E (core next) c) : TurnSpec E s iop := by
  have hbody : (core iop).hhook.state ≠ .InBody := by
    change iop.hhook.state ≠ .InBody
    rw [heol]
    decide
  have hne : next.hhook.state ≠ .InBody ∧ next.hhook.state ≠ .InStatus ∧ next.hhook.state ≠ .InEOL := by
    rcases hstate with hstate | hstate
    · rw [hstate]
      decide
    · rw [hstate]
      decide
  have hbody' : (core next).hhook.state ≠ .InBody := hne.1
  have hstep := httpStep_char (E := E) hbody hc
  rw [hchar] at hstep
  have hstep' := httpStep_char (E := E) hbody' hc
  left
  refine ⟨next, hturn, ?_, ?_⟩
  · constructor
    · constructor
      · exact hnul
      · have hclean := h.reads.clean
        have hnext := http_char_state E (core next) c
        rw [← hchar, http_char_state] at hnext
        unfold HeaderClean at hclean ⊢
        rw [hrest, normal_some hc, headerPart, if_neg hbody', ← hnext]
        rw [normal_some hc, headerPart, if_neg hbody] at hclean
        exact hclean
    · intro hst
      exact absurd hst hne.2.1
    · rw [hibuf]
      exact h.ibuf
    · rw [hoffset]
      exact h.offset
    · intro t q hq hend
      apply h.leads t q _ hend
      rw [hrest] at hq
      cases hq with
      | refl =>
        rw [hstep'] at hend
        cases hend
      | head hfirst hq =>
        rw [hstep'] at hfirst
        cases hfirst
        exact .head hstep hq
  · unfold turns
    rw [hrest, if_neg hne.2.2, if_pos heol]
    omega

end WWindowSystem.Http
