import WWindowSystem.Library.Feeding
import WWindowSystem.Library.Loops
import WWindowSystem.Wetscape.Io

namespace WWindowSystem.Http

open List

inductive option_t where
  | OptIgnore
  | ContLength
  | ContType
  | ContEncoding
  | ContTransEncoding
  | LastModified
  | Location
  deriving DecidableEq

inductive state_t where
  | InStatus
  | InOption
  | InValue
  | InEOL
  | InBody
  deriving DecidableEq

def BUFLEN : Nat := 1024

structure http_info_t where
  state : state_t
  option : option_t
  buf : List Byte
  contentlen : Int
  status : Int
  reason : Option (List Byte)
  newurl : Option (List Byte)
  deriving DecidableEq

def http_info_alloc : http_info_t := ⟨.InStatus, .OptIgnore, [], 0, 0, none, none⟩

/-- The largest `long`, and the length that `gettoken` makes of a null pointer where a quoted string is not closed. -/
structure HttpEnv where
  longMax : Int
  unclosed : List Byte → Int

abbrev http_io := io_t Unit http_info_t

def skipspace (cp : List Byte) : List Byte := cp.dropWhile isspace

def skipword (cp : List Byte) : List Byte := skipspace (cp.dropWhile fun c => !isspace c)

def getlineTurn (endc : Int) : List Byte × http_io → (List Byte × http_io) ⊕ (Bool × List Byte × http_io)
  | (line, iop) =>
    let (c, iop) := io_getc iop
    if c ≠ EOF ∧ c ≠ endc then
      .inl (if line.length < BUFLEN - 1 then line ++ [BitVec.ofInt 8 c] else line, iop)
    else .inr (decide (c = EOF), line, iop)

def getline (iop : http_io) (endc : Int) : Option (Bool × http_io) :=
  (runLoop (getlineTurn endc) (iop.ibuf.length + 1) (cstr iop.hhook.buf, iop)).map fun r =>
    (r.1, { r.2.2 with hhook := { r.2.2.hhook with buf := r.2.1 } })

def killTurn : List Byte × List Byte → (List Byte × List Byte) ⊕ List Byte
  | (front, str) =>
    match xstrfind str [40] with
    | none => .inr (front ++ str)
    | some cp =>
      match xstrfind cp [41] with
      | none => .inr (front ++ str)
      | some cp2 => .inl (front ++ str.take (str.length - cp.length), cp2)

def kill_comments (str : List Byte) : List Byte := (runLoop killTurn (str.length + 1) ([], str)).getD str

def gettoken (E : HttpEnv) (str : List Byte) : List Byte × Int :=
  match skipspace str with
  | 34 :: cp => (cp, (xstrfind cp [34]).elim (E.unclosed cp) fun cp2 => (cp.length : Int) - cp2.length)
  | 60 :: cp => (cp, (xstrfind cp [62]).elim (E.unclosed cp) fun cp2 => (cp.length : Int) - cp2.length)
  | cp => (cp, (cp.takeWhile fun c => c ∉ cstring " \n\t").length)

def xstrndup (cp : List Byte) (len : Int) : Option (List Byte) := if len < 0 then none else some (cp.take len.toNat)

def parse_status (E : HttpEnv) (iop : http_io) : http_io :=
  let cp := skipword (cstr iop.hhook.buf)
  { iop with hhook := { iop.hhook with status := short (toint (strtol E.longMax cp)), reason := some (skipword cp) } }

def parse_option (iop : http_io) : http_io :=
  let buf := cstr iop.hhook.buf
  let option : option_t :=
    if strcasecmp buf (cstring "Content-Length") = 0 then .ContLength
    else if strcasecmp buf (cstring "Content-Type") = 0 then .ContType
    else if strcasecmp buf (cstring "Content-Encoding") = 0 then .ContEncoding
    else if strcasecmp buf (cstring "Location") = 0 then .Location
    else .OptIgnore
  { iop with hhook := { iop.hhook with option := option } }

def parse_value (E : HttpEnv) (iop : http_io) : http_io :=
  let buf := kill_comments (cstr iop.hhook.buf)
  match iop.hhook.option with
  | .ContLength =>
    { iop with hhook := { iop.hhook with buf := buf, contentlen := strtol E.longMax (gettoken E buf).1 } }
  | .ContType =>
    let (cp, len) := gettoken E buf
    let cut := (xstrfind cp (cstring " \t\n;")).elim buf fun cp => buf.take (buf.length - cp.length)
    { iop with mimetype := xstrndup cp len, hhook := { iop.hhook with buf := cut } }
  | .Location =>
    let (cp, len) := gettoken E buf
    { iop with hhook := { iop.hhook with buf := buf, newurl := xstrndup cp len } }
  | _ => { iop with hhook := { iop.hhook with buf := buf } }

def enter (iop : http_io) (state : state_t) : http_io := { iop with hhook := { iop.hhook with state := state } }

def clear (iop : http_io) : http_io := { iop with hhook := { iop.hhook with buf := [] } }

def isspace_int (c : Int) : Bool := c = 32 ∨ 9 ≤ c ∧ c ≤ 13

def replyTurn (E : HttpEnv) (iop : http_io) : http_io ⊕ Option http_io :=
  match iop.hhook.state with
  | .InStatus =>
    if iop.ibufoffset = 0 ∧ iop.ibufused < 4 then .inr (some iop)
    else if iop.ibufoffset = 0 ∧ strncasecmp (cstring "HTTP") iop.ibuf 4 ≠ 0 then .inr (some (enter iop .InBody))
    else
      match getline iop 10 with
      | none => .inr none
      | some (true, iop) => .inr (some iop)
      | some (false, iop) => .inl (clear (enter (parse_status E iop) .InOption))
  | .InOption =>
    match getline iop 58 with
    | none => .inr none
    | some (true, iop) => .inr (some iop)
    | some (false, iop) => .inl (clear (enter (parse_option iop) .InValue))
  | .InValue =>
    match getline iop 10 with
    | none => .inr none
    | some (true, iop) => .inr (some iop)
    | some (false, iop) => .inl (enter iop .InEOL)
  | .InEOL =>
    let (c, next) := io_getc iop
    if c = 10 then .inr (some (enter (clear (parse_value E next)) .InBody))
    -- the character is given back in the next two cases
    else if isspace_int c then .inl (enter iop .InValue)
    else if c ≠ EOF then .inl (enter (clear (parse_value E iop)) .InOption)
    else .inr (some next)
  | .InBody => .inr (some iop)

def eatReply (iop : http_io) : http_io :=
  let iop := { io_eat_input iop iop.iptr with iptr := 0 }
  if iop.hhook.state = .InBody then { iop with ibufoffset := 0 } else iop

def parse_http_reply (E : HttpEnv) (iop : http_io) : Option http_io :=
  (runLoop (replyTurn E) (2 * iop.ibuf.length + 2) iop).join.map eatReply

def http_deliver (E : HttpEnv) : http_io → List (List Byte) → Option http_io
  | iop, [] => some iop
  | iop, s :: reads => (parse_http_reply E (iop.read s false)).bind fun iop => http_deliver E iop reads

def http_start : http_io := io_alloc_ibuf 8000 () http_info_alloc

def nextChar : List Byte → Option (Byte × List Byte)
  | [] => none
  | c :: r =>
    if c = 13 then
      match r with
      | [] => none
      | d :: r => if d = 10 then some (10, r) else some (10, d :: r)
    else some (c, r)

theorem nextChar_other {d : Byte} (hd : d ≠ 13) (r : List Byte) : nextChar (d :: r) = some (d, r) := if_neg hd

theorem nextChar_cr (e : Byte) (r : List Byte) :
    nextChar (13 :: e :: r) = if e = 10 then some (10, r) else some (10, e :: r) := rfl

variable {r r' : List Byte} {c : Byte}

theorem nextChar_cases (h : nextChar r = some (c, r')) :
    (c ≠ 13 ∧ r = c :: r') ∨ (c = 10 ∧ (r = 13 :: 10 :: r' ∨ ∃ e s, e ≠ 10 ∧ r' = e :: s ∧ r = 13 :: e :: s)) := by
  cases r with
  | nil => cases h
  | cons d r =>
    by_cases hd : d = 13
    · right
      rw [hd] at h ⊢
      cases r with
      | nil => cases h
      | cons e r =>
        rw [nextChar_cr] at h
        by_cases he : e = 10
        · rw [if_pos he] at h
          cases h
          exact ⟨rfl, .inl (by rw [he])⟩
        · rw [if_neg he] at h
          cases h
          exact ⟨rfl, .inr ⟨e, r, he, rfl, rfl⟩⟩
    · left
      rw [nextChar_other hd] at h
      cases h
      exact ⟨hd, rfl⟩

theorem nextChar_stable (h : nextChar r = some (c, r')) (x : List Byte) :
    nextChar (r ++ x) = some (c, r' ++ x) := by
  rcases nextChar_cases h with ⟨hc, rfl⟩ | ⟨rfl, rfl | ⟨e, s, he, rfl, rfl⟩⟩
  · exact nextChar_other hc _
  · rfl
  · exact if_neg he

theorem nextChar_length (h : nextChar r = some (c, r')) : r'.length < r.length := by
  rcases nextChar_cases h with ⟨hc, rfl⟩ | ⟨rfl, rfl | ⟨e, s, he, rfl, rfl⟩⟩
  · simp
  · simp only [length_cons]
    omega
  · simp

def state_t.next (st : state_t) (c : Byte) : state_t :=
  match st with
  | .InStatus => if c = 10 then .InOption else .InStatus
  | .InOption => if c = 58 then .InValue else .InOption
  | .InValue => if c = 10 then .InEOL else .InValue
  | .InEOL => if c = 10 then .InBody else if isspace c then .InValue else if c = 58 then .InValue else .InOption
  | .InBody => .InBody

def normal : List Byte → List Byte
  | [] => []
  | c :: r => if c = 13 then (if r = [] then [] else if r.head? = some 10 then normal r else 10 :: normal r) else c :: normal r

def headerPart : state_t → List Byte → List Byte
  | _, [] => []
  | st, c :: l => if st = .InBody then [] else c :: headerPart (st.next c) l

def HeaderClean (st : state_t) (b : List Byte) : Prop := ∀ c ∈ headerPart st (normal b), c ≠ 0 ∧ c ≠ 255

instance HeaderClean.decidable (st : state_t) (b : List Byte) : Decidable (HeaderClean st b) :=
  inferInstanceAs (Decidable (∀ c ∈ headerPart st (normal b), c ≠ 0 ∧ c ≠ 255))

theorem normal_some (h : nextChar r = some (c, r')) : normal r = c :: normal r' := by
  rcases nextChar_cases h with ⟨hc, rfl⟩ | ⟨rfl, rfl | ⟨e, s, he, rfl, rfl⟩⟩
  · rw [normal, if_neg hc]
  · simp [normal]
  · rw [normal, if_pos rfl, if_neg (cons_ne_nil _ _), if_neg (by simpa using he)]

theorem normal_none {r : List Byte} (h : nextChar r = none) : normal r = [] := by
  cases r with
  | nil => rfl
  | cons d r =>
    unfold nextChar at h
    dsimp only at h
    split_ifs at h with hd
    cases r with
    | nil => simp [normal, hd]
    | cons e r =>
      dsimp only at h
      split_ifs at h

theorem normal_start (r x : List Byte) : normal r <+: normal (r ++ x) := by
  induction hn : r.length using Nat.strong_induction_on generalizing r with
  | _ n ih =>
    cases hc : nextChar r with
    | none =>
      rw [normal_none hc]
      exact nil_prefix
    | some p =>
      obtain ⟨c, r'⟩ := p
      rw [normal_some hc, normal_some (nextChar_stable hc x), prefix_cons_inj]
      exact ih r'.length (by rw [← hn]; exact nextChar_length hc) r' rfl

theorem headerPart_start {l l' : List Byte} (h : l <+: l') (st : state_t) : headerPart st l <+: headerPart st l' := by
  obtain ⟨x, rfl⟩ := h
  induction l generalizing st with
  | nil => exact nil_prefix
  | cons c l ih =>
    rw [cons_append, headerPart, headerPart]
    split_ifs
    · exact nil_prefix
    · rw [prefix_cons_inj]
      exact ih (st.next c)

theorem HeaderClean.start {st : state_t} {r x : List Byte} (h : HeaderClean st (r ++ x)) : HeaderClean st r := by
  intro c hc
  exact h c ((headerPart_start (normal_start r x) st).subset hc)

theorem HeaderClean.step {st : state_t} (h : HeaderClean st r) (hst : st ≠ .InBody)
    (hc : nextChar r = some (c, r')) : (c ≠ 0 ∧ c ≠ 255) ∧ HeaderClean (st.next c) r' := by
  unfold HeaderClean at h
  rw [normal_some hc, headerPart, if_neg hst, forall_mem_cons] at h
  exact h

def push (iop : http_io) (c : Byte) : http_io :=
  { iop with hhook := { iop.hhook with
      buf := if (cstr iop.hhook.buf).length < BUFLEN - 1 then cstr iop.hhook.buf ++ [c] else cstr iop.hhook.buf } }

def optionChar (iop : http_io) (c : Byte) : http_io :=
  if c = 58 then clear (enter (parse_option iop) .InValue) else push iop c

def http_char (E : HttpEnv) (iop : http_io) (c : Byte) : http_io :=
  match iop.hhook.state with
  | .InStatus => if c = 10 then clear (enter (parse_status E iop) .InOption) else push iop c
  | .InOption => optionChar iop c
  | .InValue => if c = 10 then enter iop .InEOL else push iop c
  | .InEOL =>
    if c = 10 then enter (clear (parse_value E iop)) .InBody
    else if isspace c then push (enter iop .InValue) c
    else optionChar (enter (clear (parse_value E iop)) .InOption) c
  | .InBody => iop

def httpStep (E : HttpEnv) (iop : http_io) (r : List Byte) : Option (http_io × List Byte) :=
  if iop.hhook.state = .InBody then none
  else (nextChar r).map fun p => (http_char E iop p.1, p.2)

variable (E : HttpEnv)

theorem httpStep_stable : Stable (httpStep E) := by
  intro iop r iop' r' x h
  unfold httpStep at h ⊢
  split_ifs at h ⊢ with hbody
  cases hc : nextChar r with
  | none =>
    rw [hc] at h
    cases h
  | some p =>
    rw [hc] at h
    cases h
    rw [nextChar_stable hc x]
    rfl

def core (iop : http_io) : http_io := { iop with ibuf := [], ibufoffset := 0, iptr := 0, eof := false }

theorem core_parse_value (iop : http_io) : core (parse_value E iop) = parse_value E (core iop) := by
  unfold parse_value
  dsimp only [core]
  cases iop.hhook.option with
  | ContLength => rfl
  | ContType => rfl
  | Location => rfl
  | OptIgnore => rfl
  | ContEncoding => rfl
  | ContTransEncoding => rfl
  | LastModified => rfl

theorem core_optionChar (iop : http_io) (c : Byte) : core (optionChar iop c) = optionChar (core iop) c := by
  unfold optionChar
  split_ifs <;> rfl

theorem core_http_char (iop : http_io) (c : Byte) : core (http_char E iop c) = http_char E (core iop) c := by
  unfold http_char
  dsimp only [core]
  cases iop.hhook.state with
  | InStatus => dsimp only; split_ifs <;> rfl
  | InOption => exact core_optionChar iop c
  | InValue => dsimp only; split_ifs <;> rfl
  | InEOL =>
    dsimp only
    split_ifs
    · exact congrArg (fun iop => enter (clear iop) .InBody) (core_parse_value E iop)
    · rfl
    · exact (core_optionChar _ c).trans
        (congrArg (fun iop => optionChar (enter (clear iop) .InOption) c) (core_parse_value E iop))
  | InBody => rfl

structure Reads (iop : http_io) (r : List Byte) : Prop where
  nul : 0 ∉ iop.hhook.buf
  clean : HeaderClean iop.hhook.state r

variable {iop : http_io}

theorem push_nul (hc : c ≠ 0) : 0 ∉ (push iop c).hhook.buf := by
  unfold push
  dsimp only
  split_ifs
  · intro h
    rcases mem_append.mp h with h | h
    · exact cstr_nul_free _ h
    · exact hc (mem_singleton.mp h).symm
  · exact cstr_nul_free _

theorem optionChar_nul (hc : c ≠ 0) : 0 ∉ (optionChar iop c).hhook.buf := by
  unfold optionChar
  split_ifs
  · exact not_mem_nil
  · exact push_nul hc

theorem optionChar_state (h : iop.hhook.state = .InOption) (c : Byte) :
    (optionChar iop c).hhook.state = if c = 58 then .InValue else .InOption := by
  unfold optionChar
  split_ifs
  · rfl
  · exact h

theorem http_char_state (iop : http_io) (c : Byte) :
    (http_char E iop c).hhook.state = iop.hhook.state.next c := by
  unfold http_char state_t.next
  cases hst : iop.hhook.state with
  | InStatus =>
    dsimp only
    split_ifs
    · rfl
    · exact hst
  | InOption => exact optionChar_state hst c
  | InValue =>
    dsimp only
    split_ifs
    · rfl
    · exact hst
  | InEOL =>
    dsimp only
    split_ifs with h10 hspace h58
    · rfl
    · rfl
    · rw [optionChar_state rfl, if_pos h58]
    · rw [optionChar_state rfl, if_neg h58]
  | InBody => exact hst

theorem http_char_nul {E : HttpEnv} (h : 0 ∉ iop.hhook.buf) (hc : c ≠ 0) :
    0 ∉ (http_char E iop c).hhook.buf := by
  unfold http_char
  cases hst : iop.hhook.state with
  | InStatus =>
    dsimp only
    split_ifs
    · exact not_mem_nil
    · exact push_nul hc
  | InOption => exact optionChar_nul hc
  | InValue =>
    dsimp only
    split_ifs
    · exact h
    · exact push_nul hc
  | InEOL =>
    dsimp only
    split_ifs
    · exact not_mem_nil
    · exact push_nul hc
    · exact optionChar_nul hc
  | InBody => exact h

theorem httpStep_some {E : HttpEnv} {iop iop' : http_io} (h : httpStep E iop r = some (iop', r')) :
    iop.hhook.state ≠ .InBody ∧ ∃ c, nextChar r = some (c, r') ∧ iop' = http_char E iop c := by
  unfold httpStep at h
  split_ifs at h with hbody
  cases hc : nextChar r with
  | none =>
    rw [hc] at h
    cases h
  | some p =>
    rw [hc] at h
    cases h
    exact ⟨hbody, p.1, rfl, rfl⟩

theorem httpStep_char {E : HttpEnv} (hbody : iop.hhook.state ≠ .InBody)
    (hc : nextChar r = some (c, r')) : httpStep E iop r = some (http_char E iop c, r') := by
  rw [httpStep, if_neg hbody, hc]
  rfl

theorem Reads.step {E : HttpEnv} {iop iop' : http_io} (h : Reads iop r)
    (hstep : httpStep E iop r = some (iop', r')) : Reads iop' r' := by
  obtain ⟨hbody, c, hc, rfl⟩ := httpStep_some hstep
  obtain ⟨⟨hc0, _⟩, hclean⟩ := h.clean.step hbody hc
  constructor
  · exact http_char_nul h.nul hc0
  · rw [http_char_state]
    exact hclean

end WWindowSystem.Http
