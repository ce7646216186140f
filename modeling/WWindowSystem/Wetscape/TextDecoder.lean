import WWindowSystem.Library.Loops
import WWindowSystem.Library.Feeding
import WWindowSystem.Wetscape.Io

namespace WWindowSystem

variable {H : Type}

def BUFSIZE : Int := 8000

/-- `buf` is what is in the buffer in front of `cp`, `shown` what `html_append` was given. -/
structure text_info_t where
  buf : List Byte
  touched : List Access
  shown : List (List Byte)

def text_decoder_create : text_info_t := ⟨[], [], []⟩

def text_info_t.memcpy (tp : text_info_t) (s : List Byte) : text_info_t :=
  { tp with
    buf := tp.buf ++ s
    touched := (List.range s.length).map (fun k : Nat => (⟨BUFSIZE + 20, tp.buf.length + k⟩ : Access)) ++ tp.touched }

def text_flush (tp : text_info_t) : text_info_t :=
  if tp.buf ≠ [] then
    let full := tp.memcpy (cstring "<X>" ++ [0])
    { full with shown := full.shown ++ [cstr full.buf], buf := [] }
  else tp

def textAppendTurn : text_info_t × List Byte → (text_info_t × List Byte) ⊕ text_info_t
  | (tp, cp) =>
    let len : Int := cp.length
    if len > 0 then
      let cando := if len < 10 then len else min (BUFSIZE - tp.buf.length) len
      let tp := tp.memcpy (cp.take cando.toNat)
      let cp := cp.drop cando.toNat
      if tp.buf.length ≥ BUFSIZE then .inl (text_flush tp, cp) else .inl (tp, cp)
    else .inr tp

def text_append (tp : text_info_t) (cp : List Byte) : Option text_info_t :=
  runLoop textAppendTurn (cp.length + 1) (tp, cp)

def entity (c : Byte) : List Byte :=
  if c = 60 then cstring "&lt;"
  else if c = 62 then cstring "&gt;"
  else if c = 34 then cstring "&quot;"
  else cstring "&amp;"

def textDecodeTurn : text_info_t × List Byte → (text_info_t × List Byte) ⊕ Option text_info_t
  | (tp, cp) =>
    if cp = [] then .inr (some tp)
    else
      match xstrfind cp (cstring "<>\"&") with
      | none => .inr (text_append tp cp)
      | some cp2 =>
        let plain := cp.take (cp.length - cp2.length)
        match if plain ≠ [] then text_append tp plain else some tp with
        | none => .inr none
        | some tp =>
          match text_append tp (entity (cp2.headD 0)) with
          | none => .inr none
          | some tp => .inl (tp, cp2.tail)

def textBegin (iop : io_t text_info_t H) : Option text_info_t :=
  if iop.ibufoffset = 0 then text_append iop.ihook (cstring "<tt><pre>") else some iop.ihook

def textEnd (eof : Bool) (tp : text_info_t) : Option text_info_t :=
  if eof then (text_append tp (cstring "</pre></tt>")).map text_flush else some tp

def text_decoder_decode (iop : io_t text_info_t H) : Option (io_t text_info_t H) :=
  if iop.ibufused = 0 ∧ iop.eof = false then some iop
  else do
    let tp ← textBegin iop
    let cp := cstr iop.ibuf
    let tp ← (runLoop textDecodeTurn (cp.length + 1) (tp, cp)).join
    let tp ← textEnd iop.eof tp
    some (io_eat_input { iop with ihook := tp } iop.ibufused)

def textRoom (n len : Nat) : Nat := if len < 10 ∧ 8000 ≤ n + len then 0 else (n + len) % 8000

def textCount (n run : Nat) : List Byte → Nat
  | [] => textRoom n run
  | c :: s =>
    if c ∈ cstring "<>\"&" then textCount (textRoom (textRoom n run) (entity c).length) 0 s else textCount n (run + 1) s

def textItem (c : Byte) : List Byte := if c ∈ cstring "<>\"&" then entity c else [c]

def textItems (text : List Byte) : List (List Byte) :=
  [cstring "<tt>", cstring "<pre>"] ++ text.map textItem ++ [cstring "</pre>", cstring "</tt>"]

def TextShown (text : List Byte) (tp : text_info_t) : Prop :=
  (∃ bodies, tp.shown = bodies.map (· ++ cstring "<X>") ∧
    bodies.flatten = cstring "<tt><pre>" ++ (text.map textItem).flatten ++ cstring "</pre></tt>" ∧
    Whole (textItems text) bodies) ∧
  ∀ a ∈ tp.touched, a.Inside

def RoomFits (n : Nat) : Prop := n ≤ 7989 ∨ n = 7994

instance RoomFits.decidable (n : Nat) : Decidable (RoomFits n) := inferInstanceAs (Decidable (n ≤ 7989 ∨ n = 7994))

def TextFits (reads : List (List Byte)) : Prop := RoomFits (reads.foldl (fun n s => textCount n 0 s) 9)

instance TextFits.decidable (reads : List (List Byte)) : Decidable (TextFits reads) :=
  inferInstanceAs (Decidable (RoomFits _))

def text_deliver (iop : io_t text_info_t H) : List (List Byte) → List Byte → Option (io_t text_info_t H)
  | [], last => text_decoder_decode (iop.read last true)
  | s :: reads, last => do
    let iop ← text_decoder_decode (iop.read s false)
    text_deliver iop reads last

end WWindowSystem

namespace WWindowSystem

variable {H : Type} {tp : text_info_t} {bodies : List (List Byte)}

/-- The buffer is as `text_append` leaves it, and what was shown are the given strings with their tag. -/
structure text_info_t.Shows (tp : text_info_t) (bodies : List (List Byte)) : Prop where
  shown : tp.shown = bodies.map (· ++ cstring "<X>")
  nul : 0 ∉ tp.buf
  room : tp.buf.length < 8000
  inside : ∀ a ∈ tp.touched, a.Inside

theorem text_decoder_create_shows : text_decoder_create.Shows [] := by
  constructor
  · rfl
  · simp [text_decoder_create]
  · simp [text_decoder_create]
  · simp [text_decoder_create]

theorem memcpy_inside (h : ∀ a ∈ tp.touched, a.Inside) {s : List Byte} (hs : tp.buf.length + s.length ≤ 8020) :
    ∀ a ∈ (tp.memcpy s).touched, a.Inside := by
  intro a ha
  rcases List.mem_append.mp ha with ha | ha
  · obtain ⟨k, hk, rfl⟩ := List.mem_map.mp ha
    have hk := List.mem_range.mp hk
    constructor
    · dsimp only
      omega
    · simp only [BUFSIZE]
      omega
  · exact h a ha

theorem text_flush_shows (tp : text_info_t) (hshown : tp.shown = bodies.map (· ++ cstring "<X>")) (hnul : 0 ∉ tp.buf)
    (hroom : tp.buf.length ≤ 8016) (hinside : ∀ a ∈ tp.touched, a.Inside) (hne : tp.buf ≠ []) :
    (text_flush tp).Shows (bodies ++ [tp.buf]) ∧ (text_flush tp).buf = [] := by
  have hfull : cstr (tp.buf ++ (cstring "<X>" ++ [0])) = tp.buf ++ cstring "<X>" := by
    rw [← List.append_assoc]
    apply cstr_append_nul
    rw [List.mem_append]
    exact not_or.mpr ⟨hnul, by decide⟩
  rw [text_flush, if_pos hne]
  refine ⟨⟨?_, by simp, by simp, ?_⟩, rfl⟩
  · simp only [text_info_t.memcpy, hshown, hfull, List.map_append, List.map_singleton]
  · apply memcpy_inside hinside
    have hlen : (cstring "<X>" ++ [0]).length = 4 := by decide
    omega

def text_info_t.put (tp : text_info_t) (s : List Byte) : text_info_t :=
  if ((tp.memcpy s).buf.length : Int) ≥ BUFSIZE then text_flush (tp.memcpy s) else tp.memcpy s

theorem textAppendTurn_put {cp : List Byte} (hne : cp ≠ []) : textAppendTurn (tp, cp) = .inl
      (tp.put (cp.take (if (cp.length : Int) < 10 then (cp.length : Int) else min (BUFSIZE - tp.buf.length) cp.length).toNat),
        cp.drop (if (cp.length : Int) < 10 then (cp.length : Int) else min (BUFSIZE - tp.buf.length) cp.length).toNat) := by
  have hpos : (cp.length : Int) > 0 := by
    have := List.length_pos_iff.mpr hne
    omega
  unfold textAppendTurn text_info_t.put
  dsimp only
  rw [if_pos hpos]
  split_ifs <;> rfl

theorem put_shows (h : tp.Shows bodies) {s : List Byte} (h0 : 0 ∉ s) (hs : s.length < 10 ∨ tp.buf.length + s.length ≤ 8000) :
    if tp.buf.length + s.length < 8000 then (tp.put s).Shows bodies ∧ (tp.put s).buf = tp.buf ++ s
    else (tp.put s).Shows (bodies ++ [tp.buf ++ s]) ∧ (tp.put s).buf = [] := by
  have hroom := h.room
  have hbuf : (tp.memcpy s).buf = tp.buf ++ s := rfl
  have hlen : (tp.memcpy s).buf.length = tp.buf.length + s.length := by rw [hbuf, List.length_append]
  have hnul : 0 ∉ (tp.memcpy s).buf := by
    rw [hbuf, List.mem_append]
    exact not_or.mpr ⟨h.nul, h0⟩
  have hinside := memcpy_inside h.inside (s := s) (by omega)
  unfold text_info_t.put
  by_cases hlt : tp.buf.length + s.length < 8000
  · rw [if_pos hlt, if_neg (by simp only [BUFSIZE]; omega)]
    exact ⟨⟨h.shown, hnul, by omega, hinside⟩, rfl⟩
  · rw [if_neg hlt, if_pos (by simp only [BUFSIZE]; omega)]
    have hne : (tp.memcpy s).buf ≠ [] := by
      apply List.ne_nil_of_length_pos
      omega
    exact text_flush_shows (tp.memcpy s) h.shown hnul (by omega) hinside hne

def text_info_t.Holds (tp : text_info_t) (items : List (List Byte)) (n : Nat) : Prop :=
  ∃ bodies, tp.Shows bodies ∧ Whole items (bodies ++ [tp.buf]) ∧ tp.buf.length = n

variable {items : List (List Byte)} {n : Nat} {cp : List Byte}

theorem text_info_t.Holds.lt (h : tp.Holds items n) : n < 8000 := by
  obtain ⟨_, hshows, _, rfl⟩ := h
  exact hshows.room

theorem put_holds (h : tp.Holds items n) (more : List (List Byte)) (h0 : 0 ∉ more.flatten)
    (hs : more.flatten.length < 10 ∨ n + more.flatten.length ≤ 8000) :
    (tp.put more.flatten).Holds (items ++ more) (if n + more.flatten.length < 8000 then n + more.flatten.length else 0) := by
  obtain ⟨bodies, hshows, hwhole, rfl⟩ := h
  have hput := put_shows hshows h0 hs
  have hgrow := hwhole.grow more
  split_ifs with hlt
  · rw [if_pos hlt] at hput
    obtain ⟨hput, hbuf⟩ := hput
    refine ⟨bodies, hput, ?_, ?_⟩
    · rw [hbuf]
      exact hgrow
    · rw [hbuf, List.length_append]
  · rw [if_neg hlt] at hput
    obtain ⟨hput, hbuf⟩ := hput
    refine ⟨_, hput, ?_, ?_⟩
    · rw [hbuf]
      exact hgrow.cut
    · rw [hbuf, List.length_nil]

theorem text_info_t.Holds.fill {more : List (List Byte)} (h : tp.Holds items n) (h0 : more.flatten = []) : tp.Holds (items ++ more) n := by
  obtain ⟨bodies, hshows, hwhole, hn⟩ := h
  refine ⟨bodies, hshows, ?_, hn⟩
  have hgrow := hwhole.grow more
  rw [h0, List.append_nil] at hgrow
  exact hgrow

theorem textRoom_zero (hn : n < 8000) : textRoom n 0 = n := by
  unfold textRoom
  rw [if_neg (by omega)]
  exact Nat.mod_eq_of_lt hn

theorem text_append_short (h : tp.Holds items n) (more : List (List Byte)) (h0 : 0 ∉ more.flatten) (hs : more.flatten.length < 10) :
    ∃ tp', text_append tp more.flatten = some tp' ∧ tp'.Holds (items ++ more) (textRoom n more.flatten.length) := by
  have hn := h.lt
  by_cases hne : more.flatten = []
  · refine ⟨tp, by rw [hne]; rfl, ?_⟩
    rw [hne, List.length_nil, textRoom_zero hn]
    exact h.fill hne
  have hput := put_holds h more h0 (.inl hs)
  have hroom : (if n + more.flatten.length < 8000 then n + more.flatten.length else 0) = textRoom n more.flatten.length := by
    unfold textRoom
    split_ifs <;> omega
  rw [hroom] at hput
  refine ⟨tp.put more.flatten, ?_, hput⟩
  have hpos := List.length_pos_iff.mpr hne
  have hturn : textAppendTurn (tp, more.flatten) = .inl (tp.put more.flatten, []) := by
    rw [textAppendTurn_put hne, if_pos (by omega), Int.toNat_natCast, List.take_length, List.drop_length]
  unfold text_append runLoop
  rw [hturn]
  obtain ⟨k, hk⟩ : ∃ k, more.flatten.length = k + 1 := ⟨more.flatten.length - 1, by omega⟩
  rw [hk]
  rfl

theorem textRoom_split {m k len : Nat} (hm : m < 8000) (hshort : len < 10 → k = len)
    (hlong : 10 ≤ len → k = min (8000 - m) len) : textRoom (if m + k < 8000 then m + k else 0) (len - k) = textRoom m len := by
  unfold textRoom
  by_cases hlen : len < 10
  · rw [hshort hlen]
    split_ifs <;> omega
  · have hk := hlong (by omega)
    split_ifs <;> omega

theorem flatten_singletons (s : List Byte) : (s.map fun c => [c]).flatten = s := by
  induction s with
  | nil => rfl
  | cons c s ih => simp [ih]

theorem text_append_plain (h : tp.Holds items n) (h0 : 0 ∉ cp) :
    ∃ tp', text_append tp cp = some tp' ∧ tp'.Holds (items ++ cp.map fun c => [c]) (textRoom n cp.length) := by
  unfold text_append
  apply runLoop_spec (fun s : text_info_t × List Byte => ∃ front m, cp = front ++ s.2 ∧
      s.1.Holds (items ++ front.map fun c => [c]) m ∧ textRoom m s.2.length = textRoom n cp.length) (fun s => s.2.length)
  · rintro ⟨t, rest⟩ s' ⟨front, m, hcp, ht, hroom⟩ hturn
    dsimp only at hcp ht hroom
    have hm := ht.lt
    by_cases hne : rest = []
    · rw [hne] at hturn
      cases hturn
    have hpos := List.length_pos_iff.mpr hne
    obtain ⟨_, _, _, hlen⟩ := id ht
    rw [textAppendTurn_put hne, hlen] at hturn
    cases hturn
    dsimp only
    generalize hk : (if (rest.length : Int) < 10 then (rest.length : Int) else min (BUFSIZE - m) rest.length).toNat = k
    have hk' : k ≤ rest.length ∧ 0 < k ∧ (k < 10 ∨ m + k ≤ 8000) ∧ (rest.length < 10 → k = rest.length) ∧
        (10 ≤ rest.length → k = min (8000 - m) rest.length) := by
      simp only [BUFSIZE] at hk
      split_ifs at hk <;> omega
    obtain ⟨hle, hk0, hfit, hshort, hlong⟩ := hk'
    have htake : (rest.take k).length = k := by rw [List.length_take, Nat.min_eq_left hle]
    have h0' : 0 ∉ rest.take k := fun hmem => h0 (by rw [hcp]; exact List.mem_append_right _ (List.mem_of_mem_take hmem))
    have hput := put_holds ht ((rest.take k).map fun c => [c]) (by rwa [flatten_singletons])
      (by rwa [flatten_singletons, htake])
    rw [flatten_singletons, htake, List.append_assoc, ← List.map_append] at hput
    refine ⟨⟨front ++ rest.take k, _, ?_, hput, ?_⟩, ?_⟩
    · rw [List.append_assoc, List.take_append_drop]
      exact hcp
    · rw [← hroom, List.length_drop]
      exact textRoom_split hm hshort hlong
    · rw [List.length_drop]
      omega
  · rintro ⟨t, rest⟩ r ⟨front, m, hcp, ht, hroom⟩ hturn
    dsimp only at hcp ht hroom
    by_cases hne : rest = []
    · rw [hne] at hturn
      cases hturn
      rw [hne, List.append_nil] at hcp
      rw [hne, List.length_nil, textRoom_zero ht.lt] at hroom
      rw [← hroom, hcp]
      exact ht
    · rw [textAppendTurn_put hne] at hturn
      cases hturn
  · exact ⟨[], n, rfl, by simpa using h, rfl⟩
  · exact Nat.lt_succ_self _

theorem entity_short (c : Byte) : 0 ∉ entity c ∧ (entity c).length < 10 := by
  unfold entity
  split_ifs <;> decide

theorem textCount_plain {plain : List Byte} (hplain : ∀ c ∈ plain, c ∉ cstring "<>\"&") (n k : Nat) (rest : List Byte) :
    textCount n k (plain ++ rest) = textCount n (k + plain.length) rest := by
  induction plain generalizing k with
  | nil => rfl
  | cons c plain ih =>
    obtain ⟨hc, hplain⟩ := List.forall_mem_cons.mp hplain
    rw [List.cons_append, textCount, if_neg hc, ih hplain, List.length_cons]
    congr 1
    omega

theorem map_textItem_plain {plain : List Byte} (hplain : ∀ c ∈ plain, c ∉ cstring "<>\"&") :
    plain.map textItem = plain.map fun c => [c] := by
  apply List.map_congr_left
  intro c hc
  exact if_neg (hplain c hc)

theorem text_append_entity (h : tp.Holds items n) (c : Byte) :
    ∃ tp', text_append tp (entity c) = some tp' ∧ tp'.Holds (items ++ [entity c]) (textRoom n (entity c).length) := by
  obtain ⟨h0, hlen⟩ := entity_short c
  have happend := text_append_short h [entity c] (by simpa using h0) (by simpa using hlen)
  simpa using happend

theorem textDecodeTurn_some (h : tp.Holds items n) (h0 : 0 ∉ cp) {plain s : List Byte} {c : Byte}
    (hcp : cp = plain ++ c :: s) (hfind : xstrfind cp (cstring "<>\"&") = some (c :: s))
    (hplain : ∀ d ∈ plain, d ∉ cstring "<>\"&") (hc : c ∈ cstring "<>\"&") :
    ∃ tp', textDecodeTurn (tp, cp) = .inl (tp', s) ∧
      tp'.Holds (items ++ (plain ++ [c]).map textItem) (textRoom (textRoom n plain.length) (entity c).length) := by
  have hne : cp ≠ [] := by simp [hcp]
  have htake : cp.take (cp.length - (c :: s).length) = plain := by
    rw [hcp, List.length_append, Nat.add_sub_cancel, List.take_left]
  have h0' : 0 ∉ plain := fun hmem => h0 (by rw [hcp]; exact List.mem_append_left _ hmem)
  obtain ⟨t, ht, hholds⟩ : ∃ t, (if plain ≠ [] then text_append tp plain else some tp) = some t ∧
      t.Holds (items ++ plain.map fun c => [c]) (textRoom n plain.length) := by
    by_cases hp : plain = []
    · refine ⟨tp, if_neg (not_not.mpr hp), ?_⟩
      rw [hp, List.length_nil, textRoom_zero h.lt, List.map_nil, List.append_nil]
      exact h
    · rw [if_pos hp]
      exact text_append_plain h h0'
  obtain ⟨t', ht', hholds'⟩ := text_append_entity hholds c
  refine ⟨t', ?_, ?_⟩
  · unfold textDecodeTurn
    dsimp only
    rw [if_neg hne, hfind]
    dsimp only
    rw [htake, ht]
    dsimp only
    rw [List.headD_cons, ht']
    rfl
  · rw [List.map_append, map_textItem_plain hplain, ← List.append_assoc, List.map_singleton, textItem, if_pos hc]
    exact hholds'

theorem textDecodeTurn_none (h : tp.Holds items n) (h0 : 0 ∉ cp) (hne : cp ≠ [])
    (hfind : xstrfind cp (cstring "<>\"&") = none) :
    ∃ tp', textDecodeTurn (tp, cp) = .inr (some tp') ∧ tp'.Holds (items ++ cp.map textItem) (textCount n 0 cp) := by
  have hplain := xstrfind_none hfind
  obtain ⟨t, ht, hholds⟩ := text_append_plain h h0
  refine ⟨t, ?_, ?_⟩
  · unfold textDecodeTurn
    dsimp only
    rw [if_neg hne, hfind, ← ht]
  · have hcount := textCount_plain hplain n 0 []
    rw [List.append_nil, Nat.zero_add] at hcount
    rw [map_textItem_plain hplain, hcount]
    exact hholds

theorem textDecode_loop (h : tp.Holds items n) (h0 : 0 ∉ cp) :
    ∃ tp', (runLoop textDecodeTurn (cp.length + 1) (tp, cp)).join = some tp' ∧
      tp'.Holds (items ++ cp.map textItem) (textCount n 0 cp) := by
  have hrun : ∃ r, runLoop textDecodeTurn (cp.length + 1) (tp, cp) = some r ∧
      ∃ tp', r = some tp' ∧ tp'.Holds (items ++ cp.map textItem) (textCount n 0 cp) := by
    apply runLoop_spec (fun s : text_info_t × List Byte => ∃ front m, cp = front ++ s.2 ∧
        s.1.Holds (items ++ front.map textItem) m ∧ textCount m 0 s.2 = textCount n 0 cp) (fun s => s.2.length)
    · rintro ⟨t, rest⟩ s' ⟨front, m, hcp, ht, hcount⟩ hturn
      dsimp only at hcp ht hcount
      have h0' : 0 ∉ rest := fun hmem => h0 (by rw [hcp]; exact List.mem_append_right _ hmem)
      by_cases hne : rest = []
      · rw [hne] at hturn
        cases hturn
      cases hfind : xstrfind rest (cstring "<>\"&") with
      | none =>
        obtain ⟨t', ht', _⟩ := textDecodeTurn_none ht h0' hne hfind
        rw [ht'] at hturn
        cases hturn
      | some cp2 =>
        obtain ⟨plain, c, s, hrest, rfl, hc, hplain⟩ := xstrfind_some hfind
        obtain ⟨t', ht', hholds⟩ := textDecodeTurn_some ht h0' hrest hfind hplain hc
        rw [ht'] at hturn
        cases hturn
        rw [List.append_assoc, ← List.map_append] at hholds
        refine ⟨⟨front ++ (plain ++ [c]), _, ?_, hholds, ?_⟩, ?_⟩
        · rw [hcp, hrest]
          simp
        · rw [← hcount, hrest, textCount_plain hplain, textCount, if_pos hc, Nat.zero_add]
        · rw [hrest]
          simp
          omega
    · rintro ⟨t, rest⟩ r ⟨front, m, hcp, ht, hcount⟩ hturn
      dsimp only at hcp ht hcount
      have h0' : 0 ∉ rest := fun hmem => h0 (by rw [hcp]; exact List.mem_append_right _ hmem)
      by_cases hne : rest = []
      · rw [hne] at hturn
        cases hturn
        rw [hne, List.append_nil] at hcp
        rw [hne, textCount, textRoom_zero ht.lt] at hcount
        rw [← hcount, hcp]
        exact ⟨t, rfl, ht⟩
      cases hfind : xstrfind rest (cstring "<>\"&") with
      | none =>
        obtain ⟨t', ht', hholds⟩ := textDecodeTurn_none ht h0' hne hfind
        rw [ht'] at hturn
        cases hturn
        rw [List.append_assoc, ← List.map_append, ← hcp, hcount] at hholds
        exact ⟨t', rfl, hholds⟩
      | some cp2 =>
        obtain ⟨plain, c, s, hrest, rfl, hc, hplain⟩ := xstrfind_some hfind
        obtain ⟨t', ht', _⟩ := textDecodeTurn_some ht h0' hrest hfind hplain hc
        rw [ht'] at hturn
        cases hturn
    · exact ⟨[], n, rfl, by simpa using h, rfl⟩
    · exact Nat.lt_succ_self _
  obtain ⟨r, hr, tp', rfl, hholds⟩ := hrun
  exact ⟨tp', by rw [hr]; rfl, hholds⟩

theorem text_flush_end (h : tp.Shows bodies) :
    ∃ bodies', (text_flush tp).Shows bodies' ∧ bodies'.flatten = (bodies ++ [tp.buf]).flatten ∧
      ∀ items : List (List Byte), (∀ i ∈ items, i ≠ []) → (Whole items bodies' ↔ Whole items (bodies ++ [tp.buf])) := by
  by_cases hne : tp.buf = []
  · refine ⟨bodies, ?_, ?_, ?_⟩
    · rw [text_flush, if_neg (not_not.mpr hne)]
      exact h
    · simp [hne]
    · intro items hitems
      rw [hne]
      exact ⟨Whole.cut, fun hw => hw.close hitems⟩
  · have hroom := h.room
    exact ⟨_, (text_flush_shows tp h.shown h.nul (by omega) h.inside hne).1, rfl, fun _ _ => Iff.rfl⟩

theorem length_take_flatten (items : List (List Byte)) (a b : List Byte) (j : Nat) :
    ((items ++ [a, b]).take j).flatten.length ≤ items.flatten.length ∨
      ((items ++ [a, b]).take j).flatten.length = items.flatten.length + a.length ∨
      ((items ++ [a, b]).take j).flatten.length = items.flatten.length + a.length + b.length := by
  by_cases hj : j ≤ items.length
  · left
    rw [List.take_append_of_le_length hj]
    conv_rhs => rw [← List.take_append_drop j items, List.flatten_append, List.length_append]
    omega
  · right
    obtain ⟨i, rfl⟩ := Nat.exists_eq_add_of_lt (not_le.mp hj)
    rw [List.take_append, List.take_of_length_le (by omega), Nat.add_assoc, Nat.add_sub_cancel_left]
    cases i with
    | zero => simp
    | succ i =>
      simp
      omega

theorem text_append_one (hne : cp ≠ []) {k : Nat}
    (hk : (if (cp.length : Int) < 10 then (cp.length : Int) else min (BUFSIZE - tp.buf.length) cp.length).toNat = k)
    (f : Nat) : runLoop textAppendTurn (f + 1) (tp, cp) = runLoop textAppendTurn f (tp.put (cp.take k), cp.drop k) := by
  rw [runLoop, textAppendTurn_put hne, hk]

theorem text_append_end (h : tp.Holds items n) :
    ∃ tp' bodies, text_append tp (cstring "</pre></tt>") = some tp' ∧ tp'.Shows bodies ∧
      (bodies ++ [tp'.buf]).flatten = items.flatten ++ cstring "</pre></tt>" ∧
      (Whole (items ++ [cstring "</pre>", cstring "</tt>"]) (bodies ++ [tp'.buf]) ↔ RoomFits n) := by
  have hn := h.lt
  have hlen : (cstring "</pre></tt>").length = 11 := by decide
  have hne : cstring "</pre></tt>" ≠ [] := by decide
  have hflat : [cstring "</pre>", cstring "</tt>"].flatten = cstring "</pre></tt>" := by decide
  obtain ⟨_, _, _, hbuf⟩ := id h
  by_cases hroom : n ≤ 7989
  · have hk : (if ((cstring "</pre></tt>").length : Int) < 10 then ((cstring "</pre></tt>").length : Int)
        else min (BUFSIZE - tp.buf.length) (cstring "</pre></tt>").length).toNat = 11 := by
      rw [hlen, hbuf, if_neg (by decide)]
      simp only [BUFSIZE]
      omega
    have hput := put_holds h [cstring "</pre>", cstring "</tt>"] (by decide) (.inr (by rw [hflat, hlen]; omega))
    rw [hflat] at hput
    obtain ⟨bodies, hshows, hwhole, _⟩ := hput
    refine ⟨_, bodies, ?_, hshows, ?_, ?_⟩
    · unfold text_append
      rw [text_append_one hne hk, List.take_of_length_le (by omega), List.drop_of_length_le (by omega)]
      rfl
    · rw [hwhole.flatten, List.flatten_append, hflat]
    · exact iff_of_true hwhole (.inl hroom)
  · obtain ⟨k, hk, hk'⟩ : ∃ k, n + k = 8000 ∧ 0 < k ∧ k ≤ 10 := ⟨8000 - n, by omega, by omega, by omega⟩
    obtain ⟨bodies, hshows, hwhole, _⟩ := h
    have htake : ((cstring "</pre></tt>").take k).length = k := by
      rw [List.length_take, hlen]
      omega
    have hdrop : ((cstring "</pre></tt>").drop k).length = 11 - k := by rw [List.length_drop, hlen]
    have h0 : 0 ∉ cstring "</pre></tt>" := by decide
    have hput := put_shows hshows (s := (cstring "</pre></tt>").take k) (fun hmem => h0 (List.mem_of_mem_take hmem))
      (.inr (by omega))
    rw [if_neg (by omega)] at hput
    obtain ⟨hput, hempty⟩ := hput
    have hput' := put_shows hput (s := (cstring "</pre></tt>").drop k) (fun hmem => h0 (List.mem_of_mem_drop hmem))
      (.inr (by rw [hempty, List.length_nil]; omega))
    rw [hempty, List.length_nil, List.nil_append, if_pos (by omega)] at hput'
    obtain ⟨hput', hrest⟩ := hput'
    have hflatten : (bodies ++ [tp.buf]).flatten = items.flatten := hwhole.flatten
    refine ⟨_, _, ?_, hput', ?_, ?_⟩
    · have hne' : (cstring "</pre></tt>").drop k ≠ [] := by
        apply List.ne_nil_of_length_pos
        omega
      have hfirst := text_append_one (k := k) hne (by rw [hlen, hbuf, if_neg (by decide)]; simp only [BUFSIZE]; omega) 11
      have hsecond := text_append_one (k := 11 - k) hne'
        (by rw [hdrop, hempty]; simp only [BUFSIZE, List.length_nil]; split_ifs <;> omega) 10
      rw [List.take_of_length_le (le_of_eq hdrop), List.drop_of_length_le (le_of_eq hdrop)] at hsecond
      unfold text_append
      rw [hlen]
      exact hfirst.trans hsecond
    · rw [hrest, ← hflatten]
      simp
    · rw [hrest]
      constructor
      · intro hw
        obtain ⟨j, hj⟩ := hw.boundary (bodies.length + 1)
        have hj := congrArg List.length hj
        have hfront : ((bodies ++ [tp.buf ++ (cstring "</pre></tt>").take k] ++ [(cstring "</pre></tt>").drop k]).take
            (bodies.length + 1)).flatten.length = items.flatten.length + k := by
          rw [List.take_left' (by simp), ← hflatten]
          simp only [List.flatten_append, List.flatten_singleton, List.length_append, htake]
          omega
        rw [hfront] at hj
        have hcut := length_take_flatten items (cstring "</pre>") (cstring "</tt>") j
        have ha : (cstring "</pre>").length = 6 := by decide
        have hb : (cstring "</tt>").length = 5 := by decide
        right
        omega
      · intro hfits
        have hk6 : k = 6 := by
          rcases hfits with hfits | hfits
          · omega
          · omega
        have hpre : (cstring "</pre></tt>").take 6 = [cstring "</pre>"].flatten := by decide
        have htt : (cstring "</pre></tt>").drop 6 = [] ++ [cstring "</tt>"].flatten := by decide
        have hgrow := ((hwhole.grow [cstring "</pre>"]).cut).grow [cstring "</tt>"]
        rw [List.append_assoc] at hgrow
        rw [hk6, hpre, htt]
        exact hgrow

end WWindowSystem
