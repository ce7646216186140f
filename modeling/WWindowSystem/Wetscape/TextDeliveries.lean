import WWindowSystem.Wetscape.TextDecoder

namespace WWindowSystem

open List

variable {H : Type} {iop : io_t text_info_t H} {text : List Byte} {n : Nat}

structure TextReady (iop : io_t text_info_t H) (text : List Byte) (n : Nat) : Prop where
  empty : iop.ibuf = []
  offset : 0 ≤ iop.ibufoffset
  start : iop.ibufoffset = 0 → iop.ihook = text_decoder_create ∧ text = [] ∧ n = 9
  holds : iop.ibufoffset ≠ 0 → iop.ihook.Holds ([cstring "<tt>", cstring "<pre>"] ++ text.map textItem) n

theorem TextReady.lt (h : TextReady iop text n) : n < 8000 := by
  by_cases ho : iop.ibufoffset = 0
  · obtain ⟨_, _, rfl⟩ := h.start ho
    decide
  · exact (h.holds ho).lt

theorem text_decoder_create_ready (size : Int) (hhook : H) :
    TextReady (io_alloc_ibuf size text_decoder_create hhook) [] 9 := by
  constructor
  · rfl
  · exact le_refl _
  · intro _
    exact ⟨rfl, rfl, rfl⟩
  · intro h
    exact absurd rfl h

theorem text_decoder_create_holds : text_decoder_create.Holds [] 0 :=
  ⟨[], text_decoder_create_shows, Whole.start, rfl⟩

theorem TextReady.begin (h : TextReady iop text n) (s : List Byte) (eof : Bool) :
    ∃ tp, textBegin (iop.read s eof) = some tp ∧
      tp.Holds ([cstring "<tt>", cstring "<pre>"] ++ text.map textItem) n := by
  by_cases ho : iop.ibufoffset = 0
  · obtain ⟨hhook, rfl, rfl⟩ := h.start ho
    have hbegin : textBegin (iop.read s eof) = text_append text_decoder_create (cstring "<tt><pre>") := by
      rw [← hhook]
      exact if_pos ho
    rw [hbegin]
    exact text_append_short text_decoder_create_holds [cstring "<tt>", cstring "<pre>"] (by decide) (by decide)
  · exact ⟨_, if_neg ho, h.holds ho⟩

variable {s : List Byte}

theorem text_decoder_decode_eq (h : TextReady iop text n) (eof : Bool) (h0 : 0 ∉ s) (hs : s ≠ [] ∨ eof = true) :
    ∃ tp, tp.Holds ([cstring "<tt>", cstring "<pre>"] ++ (text ++ s).map textItem) (textCount n 0 s) ∧
      text_decoder_decode (iop.read s eof) =
        (textEnd eof tp).map fun tp =>
          { iop.read s eof with ibufoffset := iop.ibufoffset + s.length, ibuf := [], ihook := tp } := by
  have hbuf : (iop.read s eof).ibuf = s := by simp [io_t.read, h.empty]
  obtain ⟨tp, htp, hholds⟩ := h.begin s eof
  obtain ⟨tp', htp', hholds'⟩ := textDecode_loop hholds h0
  rw [append_assoc, ← map_append] at hholds'
  refine ⟨tp', hholds', ?_⟩
  have hgo : ¬ ((iop.read s eof).ibufused = 0 ∧ (iop.read s eof).eof = false) := by
    rintro ⟨hused, heof⟩
    have heof : eof = false := heof
    rw [io_t.ibufused, hbuf] at hused
    simp_all
  have heat (tp : text_info_t) : io_eat_input { iop.read s eof with ihook := tp } (iop.read s eof).ibufused =
      { iop.read s eof with ibufoffset := iop.ibufoffset + s.length, ibuf := [], ihook := tp } := by
    have hall := io_eat_input_all { iop.read s eof with ihook := tp }
    dsimp only [io_t.ibufused] at hall ⊢
    rw [hall, hbuf]
    rfl
  have hcstr : cstr (iop.read s eof).ibuf = s := by rw [hbuf, cstr_of_nul h0]
  rw [text_decoder_decode, if_neg hgo, htp, hcstr]
  dsimp only [Option.bind_eq_bind, Option.bind_some]
  rw [htp']
  dsimp only [Option.bind_some]
  have heof : textEnd (iop.read s eof).eof tp' = textEnd eof tp' := rfl
  rw [heof]
  cases textEnd eof tp' with
  | none => rfl
  | some t => exact congrArg some (heat t)

theorem text_decoder_decode_read (h : TextReady iop text n) (h0 : 0 ∉ s) :
    ∃ iop', text_decoder_decode (iop.read s false) = some iop' ∧ TextReady iop' (text ++ s) (textCount n 0 s) := by
  by_cases hs : s = []
  · refine ⟨iop.read [] false, ?_, ?_⟩
    · rw [hs, text_decoder_decode, if_pos (by simp [io_t.ibufused, io_t.read, h.empty])]
    · rw [hs, append_nil, textCount, textRoom_zero h.lt]
      constructor
      · simp [io_t.read, h.empty]
      · exact h.offset
      · exact h.start
      · exact h.holds
  · obtain ⟨tp, hholds, hdecode⟩ := text_decoder_decode_eq h false h0 (.inl hs)
    have hlen := length_pos_iff.mpr hs
    have ho := h.offset
    refine ⟨_, hdecode, ?_⟩
    constructor
    · rfl
    · dsimp only
      omega
    · intro hzero
      dsimp only at hzero
      omega
    · intro _
      exact hholds

theorem textItem_ne_nil (c : Byte) : textItem c ≠ [] := by
  unfold textItem entity
  split_ifs
  · decide
  · decide
  · decide
  · decide
  · exact cons_ne_nil _ _

theorem map_append_right_injective (x : List Byte) {l l' : List (List Byte)} (h : l.map (· ++ x) = l'.map (· ++ x)) : l = l' :=
  map_injective_iff.mpr (append_left_injective x) h

theorem text_decoder_decode_eof (h : TextReady iop text n) (h0 : 0 ∉ s) :
    ∃ iop', text_decoder_decode (iop.read s true) = some iop' ∧
      (TextShown (text ++ s) iop'.ihook ↔ RoomFits (textCount n 0 s)) := by
  obtain ⟨tp, hholds, hdecode⟩ := text_decoder_decode_eq h true h0 (.inr rfl)
  obtain ⟨tp', bodies, happend, hshows, hflatten, hwhole⟩ := text_append_end hholds
  obtain ⟨bodies', hshows', hflatten', hwhole'⟩ := text_flush_end hshows
  have hwhole' := hwhole' (textItems (text ++ s)) (by
    intro i hi
    simp only [textItems, mem_append, mem_cons, not_mem_nil, or_false, mem_map] at hi
    rcases hi with (hi | hi) | hi
    · rcases hi with rfl | rfl <;> decide
    · obtain ⟨c, _, rfl⟩ := hi
      exact textItem_ne_nil c
    · rcases hi with rfl | rfl <;> decide)
  rw [textEnd, if_pos rfl, happend] at hdecode
  refine ⟨_, hdecode, ?_⟩
  have hfits : Whole (textItems (text ++ s)) bodies' ↔ RoomFits (textCount n 0 s) := hwhole'.trans hwhole
  rw [← hfits]
  constructor
  · rintro ⟨⟨bodies'', hshown, _, hw⟩, _⟩
    have heq : bodies'' = bodies' := map_append_right_injective _ (hshown.symm.trans hshows'.shown)
    rwa [← heq]
  · intro hw
    refine ⟨⟨bodies', hshows'.shown, ?_, hw⟩, hshows'.inside⟩
    rw [hflatten', hflatten]
    simp [cstring]

theorem text_deliver_shown (h : TextReady iop text n) {reads : List (List Byte)} {last : List Byte}
    (h0 : ∀ s ∈ reads ++ [last], 0 ∉ s) : ∃ iop', text_deliver iop reads last = some iop' ∧
      (TextShown (text ++ (reads ++ [last]).flatten) iop'.ihook ↔
        RoomFits ((reads ++ [last]).foldl (fun n s => textCount n 0 s) n)) := by
  induction reads generalizing iop text n with
  | nil =>
    have hend := text_decoder_decode_eof h (h0 last (by simp))
    simpa [text_deliver] using hend
  | cons s reads ih =>
    rw [cons_append, forall_mem_cons] at h0
    obtain ⟨iop', hdecode, hready⟩ := text_decoder_decode_read h h0.1
    obtain ⟨iop'', hdeliver, hshown⟩ := ih hready h0.2
    refine ⟨iop'', ?_, ?_⟩
    · rw [text_deliver, hdecode]
      exact hdeliver
    · rw [append_assoc, ← flatten_cons] at hshown
      exact hshown

theorem text_decoder_shows_text (size : Int) (hhook : H) (reads : List (List Byte)) (last : List Byte)
    (h0 : ∀ s ∈ reads ++ [last], 0 ∉ s) :
    (∃ iop, text_deliver (io_alloc_ibuf size text_decoder_create hhook) reads last = some iop ∧
      TextShown (reads ++ [last]).flatten iop.ihook) ↔ TextFits (reads ++ [last]) := by
  obtain ⟨iop, hdeliver, hshown⟩ := text_deliver_shown (text_decoder_create_ready size hhook) h0
  rw [List.nil_append] at hshown
  constructor
  · rintro ⟨iop', hdeliver', hshown'⟩
    rw [hdeliver] at hdeliver'
    cases hdeliver'
    exact hshown.mp hshown'
  · intro hfits
    exact ⟨iop, hdeliver, hshown.mpr hfits⟩

theorem text_decoder_shows_two_reads :
    ∃ iop, text_deliver (io_alloc_ibuf 8000 text_decoder_create ()) [cstring "a<b"] [] = some iop ∧
      TextShown (cstring "a<b") iop.ihook :=
  (text_decoder_shows_text 8000 () [cstring "a<b"] [] (by decide)).mpr (by decide)

theorem text_deliver_last (size : Int) (hhook : H) (h0 : 0 ∉ s) {iop' : io_t text_info_t H}
    (hdeliver : text_deliver (io_alloc_ibuf size text_decoder_create hhook) [] s = some iop')
    (hshown : TextShown s iop'.ihook) : RoomFits (textCount 9 0 s) := by
  obtain ⟨iop, hdecode, hiff⟩ := text_decoder_decode_eof (text_decoder_create_ready size hhook) h0
  rw [text_deliver, hdecode] at hdeliver
  cases hdeliver
  exact hiff.mp hshown

/-- One read that leaves ten bytes for the last tags. -/
theorem text_decoder_breaks_tag :
    ¬ ∃ iop, text_deliver (io_alloc_ibuf 8000 text_decoder_create ()) [] (List.replicate 7981 97) = some iop ∧
      TextShown (List.replicate 7981 97) iop.ihook := by
  rintro ⟨iop, hdeliver, hshown⟩
  have hplain : ∀ c ∈ List.replicate 7981 (97 : Byte), c ∉ cstring "<>\"&" := by
    intro c hc
    rw [List.eq_of_mem_replicate hc]
    decide
  have h0 : 0 ∉ List.replicate 7981 (97 : Byte) := by
    intro hmem
    exact absurd (List.eq_of_mem_replicate hmem) (by decide)
  have hcount := textCount_plain hplain 9 0 []
  rw [List.append_nil, List.length_replicate] at hcount
  have hfits := text_deliver_last 8000 () h0 hdeliver hshown
  rw [hcount] at hfits
  exact absurd hfits (by decide)

end WWindowSystem
