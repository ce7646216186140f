import WWindowSystem.Wetscape.HttpReplyRun

namespace WWindowSystem.Http

open List

variable {E : HttpEnv} {s iop iop' : http_io} {r r' : List Byte}

theorem parse_value_frame (E : HttpEnv) (iop : http_io) :
    rest (parse_value E iop) = rest iop ∧ (parse_value E iop).ibuf = iop.ibuf ∧
      (parse_value E iop).ibufoffset = iop.ibufoffset := by
  unfold parse_value
  dsimp only
  cases iop.hhook.option with
  | ContLength => exact ⟨rfl, rfl, rfl⟩
  | ContType => exact ⟨rfl, rfl, rfl⟩
  | Location => exact ⟨rfl, rfl, rfl⟩
  | OptIgnore => exact ⟨rfl, rfl, rfl⟩
  | ContEncoding => exact ⟨rfl, rfl, rfl⟩
  | ContTransEncoding => exact ⟨rfl, rfl, rfl⟩
  | LastModified => exact ⟨rfl, rfl, rfl⟩

theorem isspace_int_toInt (c : Byte) : isspace_int c.toInt = isspace c := by
  revert c
  decide

theorem toInt_ten {c : Byte} : c.toInt = 10 ↔ c = 10 := by
  revert c
  decide

theorem status_turn (h : Replies E s iop) (hst : iop.hhook.state = .InStatus) : TurnSpec E s iop := by
  have hready := h.ready hst
  have hwait : ¬ (iop.ibufoffset = 0 ∧ iop.ibufused < 4) := by
    rintro ⟨hzero, hused⟩
    have hlen := (hready hzero).1
    unfold io_t.ibufused at hused
    omega
  have hold : ¬ (iop.ibufoffset = 0 ∧ strncasecmp (cstring "HTTP") iop.ibuf 4 ≠ 0) := by
    rintro ⟨hzero, hne⟩
    exact hne (hready hzero).2
  apply line_turn h (collects_status hst) (by rw [hst]; decide) fun iop => clear (enter (parse_status E iop) .InOption)
  · rw [replyTurn, hst]
    dsimp only
    rw [if_neg hwait, if_neg hold]
    rfl
  · intro line k
    have hchar : http_char E (putLine iop line) 10 = clear (enter (parse_status E (putLine iop line)) .InOption) := by
      have hst' : (putLine iop line).hhook.state = .InStatus := hst
      rw [http_char, hst']
      rfl
    rw [hchar]
    rfl
  · intro iop
    exact ⟨rfl, rfl, rfl⟩
  · intro iop
    exact state_t.noConfusion

theorem option_turn (h : Replies E s iop) (hst : iop.hhook.state = .InOption) : TurnSpec E s iop := by
  apply line_turn h (collects_option hst) (by rw [hst]; decide) fun iop => clear (enter (parse_option iop) .InValue)
  · rw [replyTurn, hst]
    rfl
  · intro line k
    have hchar : http_char E (putLine iop line) 58 = clear (enter (parse_option (putLine iop line)) .InValue) := by
      have hst' : (putLine iop line).hhook.state = .InOption := hst
      rw [http_char, hst']
      rfl
    rw [hchar]
    rfl
  · intro iop
    exact ⟨rfl, rfl, rfl⟩
  · intro iop
    exact state_t.noConfusion

theorem value_turn (h : Replies E s iop) (hst : iop.hhook.state = .InValue) : TurnSpec E s iop := by
  apply line_turn h (collects_value hst) (by rw [hst]; decide) fun iop => enter iop .InEOL
  · rw [replyTurn, hst]
    rfl
  · intro line k
    have hchar : http_char E (putLine iop line) 10 = enter (putLine iop line) .InEOL := by
      have hst' : (putLine iop line).hhook.state = .InValue := hst
      rw [http_char, hst']
      rfl
    rw [hchar]
    rfl
  · intro iop
    exact ⟨rfl, rfl, rfl⟩
  · intro iop
    exact state_t.noConfusion

theorem eol_turn (h : Replies E s iop) (hst : iop.hhook.state = .InEOL) : TurnSpec E s iop := by
  have hcore : (core iop).hhook.state = .InEOL := hst
  have hbody : (core iop).hhook.state ≠ .InBody := by
    rw [hcore]
    decide
  cases hc : nextChar (rest iop) with
  | none =>
    have hend : httpStep E (core iop) (rest iop) = none := by
      rw [httpStep, hc]
      simp
    right
    refine ⟨iop, ?_, h.ibuf, h.offset, h.leads _ _ (.refl _ _) hend, hend⟩
    rw [replyTurn, hst]
    dsimp only
    rw [io_getc_none hc]
    rfl
  | some p =>
    obtain ⟨c, r'⟩ := p
    obtain ⟨k, _, hgetc, hrest⟩ := io_getc_some hc
    obtain ⟨⟨_, h255⟩, _⟩ := h.reads.clean.step hbody hc
    have hturn : replyTurn E iop =
        if c.toInt = 10 then .inr (some (enter (clear (parse_value E { iop with iptr := iop.iptr + k })) .InBody))
        else if isspace_int c.toInt then .inl (enter iop .InValue)
        else if c.toInt ≠ EOF then .inl (enter (clear (parse_value E iop)) .InOption)
        else .inr (some { iop with iptr := iop.iptr + k }) := by
      rw [replyTurn, hst]
      dsimp only
      rw [hgetc]
    by_cases h10 : c = 10
    · have hstep := httpStep_char (E := E) hbody hc
      have hchar : http_char E (core iop) c = core (enter (clear (parse_value E { iop with iptr := iop.iptr + k })) .InBody) := by
        rw [http_char, hcore]
        dsimp only
        rw [if_pos h10]
        exact congrArg (fun iop => enter (clear iop) .InBody) (core_parse_value E { iop with iptr := iop.iptr + k }).symm
      obtain ⟨hframe, hibuf, hoffset⟩ := parse_value_frame E { iop with iptr := iop.iptr + k }
      rw [if_pos (toInt_ten.mpr h10)] at hturn
      rw [hchar, ← hrest, ← hframe] at hstep
      have hend : httpStep E (core (enter (clear (parse_value E { iop with iptr := iop.iptr + k })) .InBody))
          (rest (parse_value E { iop with iptr := iop.iptr + k })) = none := if_pos rfl
      right
      refine ⟨_, hturn, ?_, ?_, ?_, hend⟩
      · exact hibuf.trans h.ibuf
      · exact hoffset.trans h.offset
      · exact h.leads _ _ (.head hstep (.refl _ _)) hend
    rw [if_neg (fun h => h10 (toInt_ten.mp h)), isspace_int_toInt] at hturn
    by_cases hspace : isspace c = true
    · rw [if_pos hspace] at hturn
      apply again_turn h hst hc hturn rfl rfl rfl h.reads.nul (.inl rfl)
      rw [http_char, hcore]
      dsimp only
      rw [if_neg h10, if_pos hspace]
      exact (if_neg h10).symm
    · rw [if_neg hspace, if_pos (toInt_eof h255)] at hturn
      obtain ⟨hframe, hibuf, hoffset⟩ := parse_value_frame E iop
      apply again_turn h hst hc hturn hframe hibuf hoffset not_mem_nil (.inr rfl)
      rw [http_char, hcore]
      dsimp only
      rw [if_neg h10, if_neg hspace]
      have hcommute : core (enter (clear (parse_value E iop)) .InOption) = enter (clear (parse_value E (core iop))) .InOption :=
        congrArg (fun iop => enter (clear iop) .InOption) (core_parse_value E iop)
      rw [hcommute]
      rfl

theorem reply_turn (h : Replies E s iop) : TurnSpec E s iop := by
  cases hst : iop.hhook.state with
  | InStatus => exact status_turn h hst
  | InOption => exact option_turn h hst
  | InValue => exact value_turn h hst
  | InEOL => exact eol_turn h hst
  | InBody =>
    have hend : httpStep E (core iop) (rest iop) = none := if_pos hst
    right
    refine ⟨iop, ?_, h.ibuf, h.offset, h.leads _ _ (.refl _ _) hend, hend⟩
    rw [replyTurn, hst]

theorem reply_loop (hready : Ready s) (hreads : Reads (core s) (rest s)) :
    ∃ last, (runLoop (replyTurn E) (2 * s.ibuf.length + 2) s).join = some last ∧ Replied E s last := by
  have hrun : ∃ o, runLoop (replyTurn E) (2 * s.ibuf.length + 2) s = some o ∧ ∃ last, o = some last ∧ Replied E s last := by
    apply runLoop_spec (Replies E s) turns
    · intro iop next h hturn
      rcases reply_turn h with ⟨next', hnext, hreplies, hless⟩ | ⟨last, hlast, _⟩
      · rw [hnext] at hturn
        cases hturn
        exact ⟨hreplies, hless⟩
      · rw [hlast] at hturn
        cases hturn
    · intro iop o h hturn
      rcases reply_turn h with ⟨next', hnext, _, _⟩ | ⟨last, hlast, hreplied⟩
      · rw [hnext] at hturn
        cases hturn
      · rw [hlast] at hturn
        cases hturn
        exact ⟨last, rfl, hreplied⟩
    · exact ⟨hreads, hready, rfl, rfl, fun _ _ hq _ => hq⟩
    · have hlen : (rest s).length ≤ s.ibuf.length := by
        unfold rest
        rw [length_drop]
        omega
      unfold turns
      split_ifs <;> omega
  obtain ⟨o, ho, last, rfl, hreplied⟩ := hrun
  exact ⟨last, by rw [ho]; rfl, hreplied⟩

theorem parse_http_reply_feeds (hiptr : s.iptr = 0) (hready : Ready s) (hreads : Reads (core s) s.ibuf) :
    ∃ iop, parse_http_reply E s = some iop ∧ Feeds (httpStep E) (core s) s.ibuf (core iop) iop.ibuf ∧
      httpStep E (core iop) iop.ibuf = none ∧ iop.iptr = 0 ∧
      (iop.hhook.state = .InStatus → iop.ibufoffset = s.ibufoffset + ((s.ibuf.length : Int) - iop.ibuf.length)) := by
  have hrest : rest s = s.ibuf := by rw [rest, hiptr, drop_zero]
  obtain ⟨last, hlast, hreplied⟩ := reply_loop (E := E) hready (by rwa [hrest])
  have heat : (io_eat_input last last.iptr).ibuf = rest last ∧ core (io_eat_input last last.iptr) = core last ∧
      (io_eat_input last last.iptr).hhook = last.hhook ∧
      (io_eat_input last last.iptr).ibufoffset = last.ibufoffset + ((last.ibuf.length : Int) - (rest last).length) := by
    unfold io_eat_input rest io_t.ibufused
    dsimp only
    by_cases hlong : (last.ibuf.length : Int) < last.iptr
    · rw [if_pos hlong]
      by_cases hpos : (last.ibuf.length : Int) > 0
      · rw [if_pos hpos, Int.toNat_natCast, drop_length, drop_of_length_le (by omega)]
        exact ⟨rfl, rfl, rfl, by simp⟩
      · have hnil : last.ibuf = [] := length_eq_zero_iff.mp (by omega)
        rw [if_neg hpos, hnil]
        exact ⟨by simp, rfl, rfl, by simp⟩
    · rw [if_neg hlong]
      by_cases hpos : (last.iptr : Int) > 0
      · rw [if_pos hpos, Int.toNat_natCast]
        refine ⟨rfl, rfl, rfl, ?_⟩
        dsimp only
        rw [length_drop]
        omega
      · have hzero : last.iptr = 0 := by omega
        rw [if_neg hpos, hzero, drop_zero]
        exact ⟨rfl, rfl, rfl, by omega⟩
  obtain ⟨hibuf, hcore, hhook, hoffset⟩ := heat
  have hfeeds := hreplied.feeds
  have hend := hreplied.ends
  rw [hrest] at hfeeds
  refine ⟨eatReply last, by rw [parse_http_reply, hlast]; rfl, ?_⟩
  unfold eatReply
  dsimp only
  split_ifs with hbody
  · refine ⟨?_, ?_, rfl, ?_⟩
    · change Feeds (httpStep E) (core s) s.ibuf (core (io_eat_input last last.iptr)) (io_eat_input last last.iptr).ibuf
      rw [hcore, hibuf]
      exact hfeeds
    · change httpStep E (core (io_eat_input last last.iptr)) (io_eat_input last last.iptr).ibuf = none
      rw [hcore, hibuf]
      exact hend
    · intro hst
      rw [hbody] at hst
      cases hst
  · refine ⟨?_, ?_, rfl, ?_⟩
    · change Feeds (httpStep E) (core s) s.ibuf (core (io_eat_input last last.iptr)) (io_eat_input last last.iptr).ibuf
      rw [hcore, hibuf]
      exact hfeeds
    · change httpStep E (core (io_eat_input last last.iptr)) (io_eat_input last last.iptr).ibuf = none
      rw [hcore, hibuf]
      exact hend
    · intro _
      dsimp only
      rw [hoffset, hibuf, hreplied.offset, hreplied.ibuf]

theorem parse_http_reply_waits (hst : s.hhook.state = .InStatus) (hoffset : s.ibufoffset = 0) (hiptr : s.iptr = 0)
    (hlen : s.ibuf.length < 4) : parse_http_reply E s = some s := by
  have hturn : replyTurn E s = .inr (some s) := by
    rw [replyTurn, hst]
    exact if_pos ⟨hoffset, by unfold io_t.ibufused; omega⟩
  have heat : { io_eat_input s s.iptr with iptr := 0 } = s := by
    have hnothing : io_eat_input s s.iptr = s := by
      unfold io_eat_input io_t.ibufused
      rw [hiptr, if_neg (by omega)]
    rw [hnothing, ← hiptr]
  have hloop : runLoop (replyTurn E) (2 * s.ibuf.length + 2) s = some (some s) := by
    rw [runLoop, hturn]
  rw [parse_http_reply, hloop]
  refine congrArg some ?_
  unfold eatReply
  rw [heat]
  exact if_neg (by rw [hst]; decide)

def Delivered (E : HttpEnv) (d : List Byte) (iop : http_io) : Prop :=
  (d.length < 4 ∧ iop = http_start.read d false) ∨
    (4 ≤ d.length ∧ Feeds (httpStep E) (core http_start) d (core iop) iop.ibuf ∧ httpStep E (core iop) iop.ibuf = none ∧
      iop.iptr = 0 ∧ (iop.hhook.state = .InStatus → 0 < iop.ibufoffset))

theorem nextChar_none {r : List Byte} (h : nextChar r = none) : r.length ≤ 1 := by
  cases r with
  | nil => simp
  | cons d r =>
    by_cases hd : d = 13
    · cases r with
      | nil => simp
      | cons e r =>
        rw [hd, nextChar_cr] at h
        split_ifs at h
    · rw [nextChar_other hd] at h
      cases h

def BeginsHttp (b : List Byte) : Prop := (b.take 4).map tolower = cstring "http"

instance BeginsHttp.decidable (b : List Byte) : Decidable (BeginsHttp b) :=
  inferInstanceAs (Decidable ((b.take 4).map tolower = cstring "http"))

theorem begins_ready {d x : List Byte} (hlen : 4 ≤ d.length) (h : BeginsHttp (d ++ x)) :
    strncasecmp (cstring "HTTP") d 4 = 0 := by
  unfold BeginsHttp at h
  rw [take_append_of_le_length hlen] at h
  unfold strncasecmp strcasecmp
  rw [h]
  decide

variable {b : List Byte}

theorem begins_length (h : BeginsHttp b) : 4 ≤ b.length := by
  have hlen := congrArg List.length h
  rw [length_map, length_take] at hlen
  have hfour : (cstring "http").length = 4 := by decide
  omega

variable {d : List Byte}

theorem start_reads (hclean : HeaderClean .InStatus d) : Reads (core http_start) d :=
  ⟨not_mem_nil, hclean⟩

theorem next_status {st : state_t} (h : st ≠ .InStatus) (c : Byte) : st.next c ≠ .InStatus := by
  unfold state_t.next
  cases st with
  | InStatus => exact absurd rfl h
  | InOption => dsimp only; split_ifs <;> decide
  | InValue => dsimp only; split_ifs <;> decide
  | InEOL => dsimp only; split_ifs <;> decide
  | InBody => exact state_t.noConfusion

variable {t : http_io} {q : List Byte}

theorem feeds_status (h : Feeds (httpStep E) s r t q) (ht : t.hhook.state = .InStatus) :
    s.hhook.state = .InStatus := by
  by_contra hs
  apply h.invariant (fun s _ => s.hhook.state ≠ .InStatus) _ hs ht
  intro s r s' r' hs hstep
  obtain ⟨_, c, _, rfl⟩ := httpStep_some hstep
  rw [http_char_state]
  exact next_status hs c

theorem feeds_length (h : Feeds (httpStep E) s r t q) : q.length ≤ r.length := by
  apply h.invariant (fun _ q => q.length ≤ r.length) _ (le_refl _)
  intro s q s' q' hq hstep
  obtain ⟨_, c, hc, _⟩ := httpStep_some hstep
  have hlen := nextChar_length hc
  omega

theorem delivered_read {d x y : List Byte} (hhttp : BeginsHttp (d ++ x ++ y)) (hclean : HeaderClean .InStatus (d ++ x ++ y))
    (h : Delivered E d iop) : ∃ iop', parse_http_reply E (iop.read x false) = some iop' ∧ Delivered E (d ++ x) iop' := by
  have hreads : Reads (core http_start) (d ++ x) := start_reads hclean.start
  rcases h with ⟨hshort, rfl⟩ | ⟨hlong, hfeeds, hend, hiptr, hoffset⟩
  · have hread : (http_start.read d false).read x false = http_start.read (d ++ x) false := rfl
    rw [hread]
    by_cases hlen : (d ++ x).length < 4
    · refine ⟨_, parse_http_reply_waits rfl rfl rfl hlen, .inl ⟨hlen, rfl⟩⟩
    · have hready : Ready (http_start.read (d ++ x) false) := by
        intro _ _
        exact ⟨not_lt.mp hlen, begins_ready (not_lt.mp hlen) hhttp⟩
      obtain ⟨iop', hparse, hfeeds, hend, hiptr, hoffset⟩ := parse_http_reply_feeds (E := E) rfl hready hreads
      refine ⟨iop', hparse, .inr ⟨not_lt.mp hlen, hfeeds, hend, hiptr, ?_⟩⟩
      intro hst
      have hnone : nextChar iop'.ibuf = none := by
        have hbody : (core iop').hhook.state ≠ .InBody := by
          change iop'.hhook.state ≠ .InBody
          rw [hst]
          decide
        cases hc : nextChar iop'.ibuf with
        | none => rfl
        | some p =>
          obtain ⟨c, r'⟩ := p
          rw [httpStep_char hbody hc] at hend
          cases hend
      have hone := nextChar_none hnone
      have hfour : 4 ≤ (http_start.read (d ++ x) false).ibuf.length := not_lt.mp hlen
      have hzero : (http_start.read (d ++ x) false).ibufoffset = 0 := rfl
      rw [hoffset hst, hzero]
      omega
  · have hready : Ready (iop.read x false) := by
      intro hst hzero
      have hpos := hoffset hst
      have hzero : iop.ibufoffset = 0 := hzero
      omega
    have hextend := hfeeds.extend (httpStep_stable E) x
    have hparse := parse_http_reply_feeds (E := E) (s := iop.read x false) hiptr hready (hreads.feeds hextend)
    obtain ⟨iop', hparse, hfeeds', hend', hiptr', hoffset'⟩ := hparse
    refine ⟨iop', hparse, .inr ⟨by rw [length_append]; omega, hextend.trans hfeeds', hend', hiptr', ?_⟩⟩
    intro hst
    have hst0 : (core (iop.read x false)).hhook.state = .InStatus :=
      feeds_status hfeeds' (by rw [← hst]; rfl)
    have hpos : 0 < iop.ibufoffset := hoffset hst0
    have hless := feeds_length hfeeds'
    have hsame : (iop.read x false).ibufoffset = iop.ibufoffset := rfl
    rw [hoffset' hst, hsame]
    omega

structure SameReply (iop iop' : http_io) : Prop where
  reached : iop.hhook.state = .InBody ↔ iop'.hhook.state = .InBody
  consumed : iop.hhook.state = .InBody → iop.ibuf.length = iop'.ibuf.length
  status : iop.hhook.state = .InBody → iop.hhook.status = iop'.hhook.status
  reason : iop.hhook.state = .InBody → iop.hhook.reason = iop'.hhook.reason
  contentlen : iop.hhook.state = .InBody → iop.hhook.contentlen = iop'.hhook.contentlen
  mimetype : iop.hhook.state = .InBody → iop.mimetype = iop'.mimetype
  newurl : iop.hhook.state = .InBody → iop.hhook.newurl = iop'.hhook.newurl

def KeepsBody (E : HttpEnv) (b : List Byte) (iop : http_io) : Prop :=
  iop.ibuf <:+ b ∧ (iop.hhook.state = .InBody →
    ∀ x, ∃ iop', parse_http_reply E (iop.read x false) = some iop' ∧ iop'.ibuf = iop.ibuf ++ x ∧ iop'.hhook = iop.hhook)

def SplitsAgree (E : HttpEnv) (b : List Byte) : Prop :=
  ∀ reads reads' : List (List Byte), reads.flatten = b → reads'.flatten = b →
    ∃ iop iop', http_deliver E http_start reads = some iop ∧ http_deliver E http_start reads' = some iop' ∧
      SameReply iop iop' ∧ KeepsBody E b iop ∧ KeepsBody E b iop'

theorem http_deliver_delivered {reads : List (List Byte)} (hhttp : BeginsHttp (d ++ reads.flatten))
    (hclean : HeaderClean .InStatus (d ++ reads.flatten)) (h : Delivered E d iop) :
    ∃ iop', http_deliver E iop reads = some iop' ∧ Delivered E (d ++ reads.flatten) iop' := by
  induction reads generalizing d iop with
  | nil => exact ⟨iop, rfl, by simpa using h⟩
  | cons x reads ih =>
    rw [flatten_cons, ← append_assoc] at hhttp hclean
    obtain ⟨iop', hparse, hdelivered⟩ := delivered_read hhttp hclean h
    obtain ⟨iop'', hdeliver, hend⟩ := ih hhttp hclean hdelivered
    refine ⟨iop'', ?_, ?_⟩
    · rw [http_deliver, hparse]
      exact hdeliver
    · rw [flatten_cons, ← append_assoc]
      exact hend

theorem nextChar_suffix {c : Byte} (h : nextChar r = some (c, r')) : r' <:+ r := by
  rcases nextChar_cases h with ⟨_, rfl⟩ | ⟨_, rfl | ⟨e, s, _, rfl, rfl⟩⟩
  · exact suffix_cons _ _
  · exact (suffix_cons _ _).trans (suffix_cons _ _)
  · exact suffix_cons _ _

theorem feeds_suffix (h : Feeds (httpStep E) s r t q) : q <:+ r := by
  apply h.invariant (fun _ q => q <:+ r) _ suffix_rfl
  intro s q s' q' hq hstep
  obtain ⟨_, c, hc, _⟩ := httpStep_some hstep
  exact (nextChar_suffix hc).trans hq

theorem keeps_body (h : Feeds (httpStep E) (core http_start) b (core iop) iop.ibuf) (hiptr : iop.iptr = 0) :
    KeepsBody E b iop := by
  refine ⟨feeds_suffix h, ?_⟩
  intro hbody x
  have hturn : replyTurn E (iop.read x false) = .inr (some (iop.read x false)) := by
    have hbody' : (iop.read x false).hhook.state = .InBody := hbody
    rw [replyTurn, hbody']
  have hnothing : io_eat_input (iop.read x false) (iop.read x false).iptr = iop.read x false := by
    have hzero : ((iop.read x false).iptr : Int) = 0 := by
      change (iop.iptr : Int) = 0
      rw [hiptr]
      rfl
    unfold io_eat_input io_t.ibufused
    rw [hzero, if_neg (by omega)]
  have hloop : runLoop (replyTurn E) (2 * (iop.read x false).ibuf.length + 2) (iop.read x false) = some (some (iop.read x false)) := by
    rw [runLoop, hturn]
  refine ⟨eatReply (iop.read x false), by rw [parse_http_reply, hloop]; rfl, ?_⟩
  unfold eatReply
  rw [hnothing]
  have hif : (iop.read x false).hhook.state = .InBody := hbody
  dsimp only
  rw [if_pos hif]
  exact ⟨rfl, rfl⟩

/-- Without a byte 0 or 255 in its header a reply is read the same in whatever pieces it comes. -/
theorem http_reply_splits (E : HttpEnv) (b : List Byte) (hhttp : BeginsHttp b) (hclean : HeaderClean .InStatus b) :
    SplitsAgree E b := by
  have hrun (reads : List (List Byte)) (hreads : reads.flatten = b) : ∃ iop, http_deliver E http_start reads = some iop ∧
      Feeds (httpStep E) (core http_start) b (core iop) iop.ibuf ∧ httpStep E (core iop) iop.ibuf = none ∧ iop.iptr = 0 := by
    have hbegin : Delivered E [] http_start := .inl ⟨by decide, rfl⟩
    have hhttp' : BeginsHttp ([] ++ reads.flatten) := by rwa [hreads]
    have hclean' : HeaderClean .InStatus ([] ++ reads.flatten) := by rwa [hreads]
    obtain ⟨iop, hdeliver, hend⟩ := http_deliver_delivered hhttp' hclean' hbegin
    rw [List.nil_append, hreads] at hend
    rcases hend with ⟨hshort, _⟩ | ⟨_, hfeeds, hend, hiptr, _⟩
    · have hlen := begins_length hhttp
      omega
    · exact ⟨iop, hdeliver, hfeeds, hend, hiptr⟩
  intro reads reads' hreads hreads'
  obtain ⟨iop, hdeliver, hfeeds, hend, hiptr⟩ := hrun reads hreads
  obtain ⟨iop', hdeliver', hfeeds', hend', hiptr'⟩ := hrun reads' hreads'
  obtain ⟨hcore, hibuf⟩ := hfeeds.unique hend hfeeds' hend'
  have hhook : iop.hhook = iop'.hhook := by
    have hcores : (core iop).hhook = (core iop').hhook := by rw [hcore]
    exact hcores
  have hmime : iop.mimetype = iop'.mimetype := by
    have hcores : (core iop).mimetype = (core iop').mimetype := by rw [hcore]
    exact hcores
  refine ⟨iop, iop', hdeliver, hdeliver', ?_, keeps_body hfeeds hiptr, keeps_body hfeeds' hiptr'⟩
  constructor
  · rw [hhook]
  · intro _
    rw [hibuf]
  · intro _
    rw [hhook]
  · intro _
    rw [hhook]
  · intro _
    rw [hhook]
  · intro _
    exact hmime
  · intro _
    rw [hhook]

theorem http_reply_splits_redirect :
    SplitsAgree ⟨2147483647, fun _ => 0⟩ (cstring "HTTP/1.0 302 Moved
Location: <a>

body") :=
  http_reply_splits _ _ (by simp only [cstring, String.reduceToList, List.map_cons, List.map_nil]; decide +kernel)
    (by simp only [cstring, String.reduceToList, List.map_cons, List.map_nil]; decide +kernel)

/-- A byte 255 in the header stops the parser until the next read. -/
theorem http_reply_stops :
    ¬ SplitsAgree ⟨2147483647, fun _ => 0⟩ (cstring "HTTP/1.0 200 OK
A:" ++ [255] ++ cstring "

") := by
  intro h
  obtain ⟨iop, iop', hdeliver, hdeliver', hsame, _, _⟩ := h [cstring "HTTP/1.0 200 OK
A:" ++ [255] ++ cstring "

"]
    [cstring "HTTP/1.0 200 OK
A:" ++ [255], cstring "

"] rfl rfl
  have hone : (http_deliver ⟨2147483647, fun _ => 0⟩ http_start [cstring "HTTP/1.0 200 OK
A:" ++ [255] ++ cstring "

"]).map
      (fun iop => iop.hhook.state) = some .InValue := by
    simp only [cstring, String.reduceToList, List.map_cons, List.map_nil]
    decide +kernel
  have htwo : (http_deliver ⟨2147483647, fun _ => 0⟩ http_start
      [cstring "HTTP/1.0 200 OK
A:" ++ [255], cstring "

"]).map (fun iop => iop.hhook.state) = some .InBody := by
    simp only [cstring, String.reduceToList, List.map_cons, List.map_nil]
    decide +kernel
  rw [hdeliver] at hone
  rw [hdeliver'] at htwo
  have hvalue : iop.hhook.state = .InValue := Option.some.inj hone
  have hbody : iop.hhook.state = .InBody := hsame.reached.mpr (Option.some.inj htwo)
  rw [hvalue] at hbody
  cases hbody

end WWindowSystem.Http
