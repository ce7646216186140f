import WWindowSystem.Wetscape.GifFeed

namespace WWindowSystem.Gif

variable {E : GifEnv} {s : gif_screen} {d d' : Reading}

structure Readable (s : gif_screen) (d : Reading) : Prop where
  screen : Screen s
  drawn : Drawn s d.out
  block : Block d.block
  table : Table d.table

def left (d : Reading) : Nat := d.block.nbits_left + waiting d.block d.input

def CodeFits (d : Reading) : Prop :=
  d.table.dec_clearing = false → ∀ c block input, get_next_code d.table.curr_size d.block d.input = .code c block input →
    (c : Int) ≠ d.table.ending → (c : Int) ≠ d.table.clear → (c : Int) ≤ d.table.slot

theorem codeTurn_eof (h : get_next_code d.table.curr_size d.block d.input = .eof) : codeTurn E s d = .inr (some (0, d)) := by
  rw [codeTurn, h]

def take_code (E : GifEnv) (s : gif_screen) (c : Int) (d : Reading) : Reading ⊕ Option (Int × Reading) :=
  if c = d.table.ending then .inr (some (1, { d with table := { d.table with dec_clearing := false } }))
  else if c = d.table.clear then
    if d.table.dec_clearing then .inl d else .inl { d with table := cleared d.table }
  else if d.table.dec_clearing then
    let c : Int := if c ≥ d.table.slot then 0 else c
    match put_pixel E s d.out c with
    | none => .inr none
    | some out => .inl { d with table := { d.table with dec_oc := c, dec_fc := c, dec_clearing := false }, out := out }
  else
    match (decode_code c d.table).bind fun p => (put_pixels E s d.out p.1).map fun out => (p.2, out) with
    | none => .inr none
    | some (table, out) => .inl { d with table := table, out := out }

theorem codeTurn_code {c : Nat} {block : gif_block} {input : List Byte}
    (h : get_next_code d.table.curr_size d.block d.input = .code c block input) :
    codeTurn E s d = take_code E s c { d with block := block, input := input } := by
  rw [codeTurn, h]
  rfl

theorem take_code_safe (h : Readable s d) {c : Int} (hc : 0 ≤ c)
    (hfits : d.table.dec_clearing = false → c ≠ d.table.ending → c ≠ d.table.clear → c ≤ d.table.slot) :
    (∃ d', take_code E s c d = .inr (some (1, d'))) ∨
      ∃ d', take_code E s c d = .inl d' ∧ Readable s d' ∧ d'.block = d.block ∧ d'.input = d.input := by
  unfold take_code
  by_cases hending : c = d.table.ending
  · rw [if_pos hending]
    exact .inl ⟨_, rfl⟩
  right
  rw [if_neg hending]
  by_cases hclear : c = d.table.clear
  · rw [if_pos hclear]
    split_ifs
    · exact ⟨d, rfl, h, rfl, rfl⟩
    · exact ⟨_, rfl, ⟨h.screen, h.drawn, h.block, h.table.cleared⟩, rfl, rfl⟩
  rw [if_neg hclear]
  have hlow := h.table.low
  have hnew := h.table.newcodes
  have hrange := h.table.clear_range
  by_cases hclearing : d.table.dec_clearing = true
  · rw [if_pos hclearing]
    have hpos : 0 ≤ (if c ≥ d.table.slot then 0 else c) := by split_ifs <;> omega
    have hless : (if c ≥ d.table.slot then 0 else c) < d.table.slot := by split_ifs <;> omega
    obtain ⟨out, hput, hdrawn, _⟩ := put_pixel_safe (E := E) h.screen h.drawn hpos
    dsimp only
    rw [hput]
    exact ⟨_, rfl, ⟨h.screen, hdrawn, h.block, h.table.begun hpos hless⟩, rfl, rfl⟩
  · rw [if_neg hclearing]
    rw [Bool.not_eq_true] at hclearing
    have hle := hfits hclearing hending hclear
    obtain ⟨hoclow, hochigh⟩ := h.table.oc hclearing
    have hdecode : ∃ l d', decode_code c d.table = some (l, grow (added c d' d.table)) := by
      by_cases hknown : c < d.table.slot
      · obtain ⟨d', l, hchain, _⟩ := chain_exists h.table hknown
        exact ⟨_, d', decode_known h.table hknown hchain⟩
      · obtain ⟨d', l, hchain, _⟩ := chain_exists h.table hochigh
        exact ⟨_, d', decode_next h.table hochigh (by omega) hchain⟩
    obtain ⟨l, last, hdecode⟩ := hdecode
    obtain ⟨out, hput, hdrawn, _⟩ := put_pixels_safe (E := E) h.screen h.drawn l
    rw [hdecode, Option.bind_some]
    dsimp only
    rw [hput]
    exact ⟨_, rfl, ⟨h.screen, hdrawn, h.block, h.table.added hclearing hc hle last⟩, rfl, rfl⟩

theorem codeTurn_safe (h : Readable s d) (hfits : CodeFits d) :
    (codeTurn E s d = .inr (some (0, d)) ∧ get_next_code d.table.curr_size d.block d.input = .eof) ∨
      (∃ d', codeTurn E s d = .inr (some (1, d'))) ∨
      ∃ d', codeTurn E s d = .inl d' ∧ Readable s d' ∧ left d' + 3 ≤ left d := by
  have hwidth := h.table.width
  have hsize := h.table.size
  rcases get_next_code_safe h.block (by omega) hwidth.2 d.input with heof | ⟨c, block, input, hcode, hblock, _, hless⟩
  · exact .inl ⟨codeTurn_eof heof, heof⟩
  · right
    have hread : Readable s { d with block := block, input := input } := ⟨h.screen, h.drawn, hblock, h.table⟩
    have hc : 0 ≤ (c : Int) := Int.natCast_nonneg c
    rw [codeTurn_code hcode]
    rcases take_code_safe (E := E) hread hc (fun hclearing => hfits hclearing c block input hcode) with
      hending | ⟨d', hturn, hread', hsame, hinput⟩
    · exact .inl hending
    · refine .inr ⟨d', hturn, hread', ?_⟩
      unfold left
      rw [hsame, hinput]
      dsimp only
      omega

theorem take_code_input {c : Int} (h : take_code E s c d = .inl d') (input : List Byte) :
    d'.input = d.input ∧ take_code E s c { d with input := input } = .inl { d' with input := input } := by
  unfold take_code at h ⊢
  dsimp only at h ⊢
  split_ifs at h ⊢
  · cases h
    exact ⟨rfl, rfl⟩
  · cases h
    exact ⟨rfl, rfl⟩
  · cases hput : put_pixel E s d.out 0 with
    | none =>
      rw [hput] at h
      cases h
    | some out =>
      rw [hput] at h
      cases h
      exact ⟨rfl, rfl⟩
  · cases hput : put_pixel E s d.out c with
    | none =>
      rw [hput] at h
      cases h
    | some out =>
      rw [hput] at h
      cases h
      exact ⟨rfl, rfl⟩
  · cases hdecode : (decode_code c d.table).bind fun p => (put_pixels E s d.out p.1).map fun out => (p.2, out) with
    | none =>
      rw [hdecode] at h
      cases h
    | some p =>
      rw [hdecode] at h
      cases h
      exact ⟨rfl, rfl⟩

theorem codeTurn_extend (h : codeTurn E s d = .inl d') (x : List Byte) :
    codeTurn E s { d with input := d.input ++ x } = .inl { d' with input := d'.input ++ x } := by
  cases hcode : get_next_code d.table.curr_size d.block d.input with
  | bad =>
    rw [codeTurn, hcode] at h
    cases h
  | eof =>
    rw [codeTurn, hcode] at h
    cases h
  | code c block input =>
    rw [codeTurn_code hcode] at h
    have hmore := codeTurn_code (E := E) (s := s) (d := { d with input := d.input ++ x }) (get_next_code_extend hcode x)
    obtain ⟨hinput, hsame⟩ := take_code_input h (input ++ x)
    dsimp only at hinput hsame
    rw [hmore, hinput]
    exact hsame

theorem take_code_ends {c : Int} {i : Int} (h : take_code E s c d = .inr (some (i, d'))) :
    c = d.table.ending ∧ i = 1 ∧ d' = { d with table := { d.table with dec_clearing := false } } := by
  unfold take_code at h
  dsimp only at h
  split_ifs at h
  · cases h
    exact ⟨by assumption, rfl, rfl⟩
  · cases hput : put_pixel E s d.out 0 with
    | none =>
      rw [hput] at h
      cases h
    | some out =>
      rw [hput] at h
      cases h
  · cases hput : put_pixel E s d.out c with
    | none =>
      rw [hput] at h
      cases h
    | some out =>
      rw [hput] at h
      cases h
  · cases hdecode : (decode_code c d.table).bind fun p => (put_pixels E s d.out p.1).map fun out => (p.2, out) with
    | none =>
      rw [hdecode] at h
      cases h
    | some p =>
      rw [hdecode] at h
      cases h

theorem codeTurn_ends (h : codeTurn E s d = .inr (some (1, d'))) (x : List Byte) :
    codeTurn E s { d with input := d.input ++ x } = .inr (some (1, { d' with input := d'.input ++ x })) := by
  cases hcode : get_next_code d.table.curr_size d.block d.input with
  | bad =>
    rw [codeTurn, hcode] at h
    cases h
  | eof =>
    rw [codeTurn, hcode] at h
    cases h
  | code c block input =>
    rw [codeTurn_code hcode] at h
    obtain ⟨hending, _, hd⟩ := take_code_ends h
    have hmore := codeTurn_code (E := E) (s := s) (d := { d with input := d.input ++ x }) (get_next_code_extend hcode x)
    rw [hmore, take_code, if_pos hending, hd]

end WWindowSystem.Gif

namespace WWindowSystem.Gif

variable {E : GifEnv} {gif gif' : gif_info_t} {cp cp' : List Byte}

def Turn.extend (x : List Byte) : Turn → Turn
  | .next gif input => .next gif (input ++ x)
  | .stop gif input result => .stop gif (input ++ x) result
  | .bad => .bad

def Waits (turn : gif_info_t → List Byte → Turn) (gif : gif_info_t) (cp : List Byte) : Prop :=
  ∃ gif', turn gif cp = .stop gif' cp 1 ∧ gif'.state = gif.state ∧ ∀ x, turn gif' (cp ++ x) = turn gif (cp ++ x)

def Settled : Turn → Prop
  | .stop _ _ result => result ≠ 1
  | _ => True

structure Fixed (turn : gif_info_t → List Byte → Turn) (gif : gif_info_t) (cp : List Byte) : Prop where
  settled : Settled (turn gif cp)
  extend : ∀ x, turn gif (cp ++ x) = (turn gif cp).extend x

theorem failed_settled (gif : gif_info_t) (cp : List Byte) : Settled (failed gif cp) := by
  have hne : (-1 : Int) ≠ 1 := by decide
  exact hne

theorem waits_same {turn : gif_info_t → List Byte → Turn} (h : turn gif cp = .stop gif cp 1) : Waits turn gif cp :=
  ⟨gif, h, rfl, fun _ => rfl⟩

theorem header_turn_extend (gif : gif_info_t) (cp : List Byte) :
    Waits header_turn gif cp ∨ Fixed header_turn gif cp := by
  by_cases hlen : cp.length < 13
  · exact .inl (waits_same (if_pos hlen))
  right
  constructor
  · unfold header_turn
    rw [if_neg hlen]
    dsimp only
    split_ifs
    · exact failed_settled _ _
    · trivial
    · trivial
  · intro x
    have hmore : ¬ (cp ++ x).length < 13 := by
      rw [List.length_append]
      omega
    unfold header_turn
    rw [if_neg hlen, if_neg hmore, List.take_append_of_le_length (by omega), List.drop_append_of_le_length (by omega),
      List.getD_append _ _ _ _ (by omega), List.getD_append _ _ _ _ (by omega), List.getD_append _ _ _ _ (by omega),
      List.getD_append _ _ _ _ (by omega)]
    dsimp only
    split_ifs
    · rfl
    · rfl
    · rfl

theorem greys_append {n : Nat} (hlen : 3 * n ≤ cp.length) (x : List Byte) : greys n (cp ++ x) = greys n cp := by
  induction n generalizing cp with
  | zero => rfl
  | succ n ih =>
    rw [greys, greys, List.getD_append _ _ _ _ (by omega), List.getD_append _ _ _ _ (by omega),
      List.getD_append _ _ _ _ (by omega), List.drop_append_of_le_length (by omega), ih]
    rw [List.length_drop]
    omega

theorem greys_length (n : Nat) (cp : List Byte) : (greys n cp).length = n := by
  induction n generalizing cp with
  | zero => rfl
  | succ n ih => rw [greys, List.length_cons, ih]

theorem getcmap_append (hlen : 3 * gif.cmapsz ≤ cp.length) (x : List Byte) : getcmap (cp ++ x) gif = getcmap cp gif := by
  unfold getcmap
  rw [greys_append (by omega)]

theorem cmap_turn_extend (gif : gif_info_t) (cp : List Byte) : Waits cmap_turn gif cp ∨ Fixed cmap_turn gif cp := by
  by_cases hlen : (cp.length : Int) < 3 * gif.cmapsz
  · exact .inl (waits_same (if_pos hlen))
  right
  constructor
  · unfold cmap_turn
    rw [if_neg hlen]
    trivial
  · intro x
    have hmore : ¬ ((cp ++ x).length : Int) < 3 * gif.cmapsz := by
      rw [List.length_append]
      push_cast
      omega
    unfold cmap_turn
    rw [if_neg hlen, if_neg hmore, List.drop_append_of_le_length (by omega), getcmap_append (by omega)]
    rfl

theorem select_turn_extend (gif : gif_info_t) (cp : List Byte) :
    Waits select_turn gif cp ∨ Fixed select_turn gif cp := by
  cases cp with
  | nil => exact .inl (waits_same rfl)
  | cons c later =>
    by_cases hend : c = 59
    · right
      subst hend
      exact ⟨failed_settled _ _, fun _ => rfl⟩
    by_cases hext : c = 33
    · subst hext
      cases later with
      | nil => exact .inl (waits_same rfl)
      | cons d later => exact .inr ⟨trivial, fun _ => rfl⟩
    by_cases himage : c = 44
    · right
      subst himage
      exact ⟨trivial, fun _ => rfl⟩
    right
    have hturn (more : List Byte) : select_turn gif (c :: more) = failed gif (c :: more) := by
      unfold select_turn
      dsimp only
      rw [if_neg hend, if_neg hext, if_neg himage]
    constructor
    · rw [hturn]
      exact failed_settled _ _
    · intro x
      rw [List.cons_append, hturn, hturn]
      rfl

theorem ext_turn_extend (gif : gif_info_t) (cp : List Byte) : Waits ext_turn gif cp ∨ Fixed ext_turn gif cp := by
  cases cp with
  | nil => exact .inl (waits_same rfl)
  | cons i later =>
    by_cases hzero : i = 0
    · right
      subst hzero
      exact ⟨trivial, fun _ => rfl⟩
    · have hturn (more : List Byte) : ext_turn gif (i :: more) =
          if (i :: more).length < i.toNat + 1 then .stop gif (i :: more) 1
          else .next gif ((i :: more).drop (i.toNat + 1)) := by
        unfold ext_turn
        dsimp only
        rw [if_neg hzero]
      by_cases hlen : (i :: later).length < i.toNat + 1
      · left
        apply waits_same
        rw [hturn, if_pos hlen]
      · right
        constructor
        · rw [hturn, if_neg hlen]
          trivial
        · intro x
          have hmore : ¬ (i :: later ++ x).length < i.toNat + 1 := by
            rw [List.length_append]
            omega
          have hdrop : (i :: later ++ x).drop (i.toNat + 1) = (i :: later).drop (i.toNat + 1) ++ x :=
            List.drop_append_of_le_length (not_lt.mp hlen)
          rw [List.cons_append] at hmore hdrop ⊢
          rw [hturn, hturn, if_neg hlen, if_neg hmore, hdrop]
          rfl

theorem start_image_settled {wd ht : Int} {input : List Byte} : Settled (start_image E wd ht gif input) := by
  unfold start_image
  cases gif.cmap with
  | none => exact failed_settled _ _
  | some cmap =>
    cases getimage E wd ht gif with
    | none => exact failed_settled _ _
    | some gif =>
      cases input with
      | nil => trivial
      | cons size later =>
        dsimp only
        cases decoder_init E size gif with
        | none => exact failed_settled _ _
        | some gif => trivial

theorem start_image_extend {wd ht : Int} {input : List Byte} (hinput : input ≠ []) (x : List Byte) :
    start_image E wd ht gif (input ++ x) = (start_image E wd ht gif input).extend x := by
  cases input with
  | nil => exact absurd rfl hinput
  | cons size later =>
    unfold start_image
    cases gif.cmap with
    | none => rfl
    | some cmap =>
      cases getimage E wd ht gif with
      | none => rfl
      | some gif =>
        dsimp only [List.cons_append]
        cases decoder_init E size gif with
        | none => rfl
        | some gif => rfl

theorem desc_turn_again {n : Int} (hlen : 10 ≤ cp.length) (hflags : (cp.getD 8 0).toNat ≥ 0x80) (ilace : Bool) (x : List Byte) :
    desc_turn E { gif with interlaced := ilace, cmapsz := n } (cp ++ x) = desc_turn E gif (cp ++ x) := by
  have hmore : ¬ (cp ++ x).length < 9 + 1 := by
    rw [List.length_append]
    omega
  have hsame : ((cp ++ x).getD 8 0).toNat ≥ 0x80 := by
    rw [List.getD_append _ _ _ _ (by omega)]
    exact hflags
  unfold desc_turn
  rw [if_neg hmore, if_neg hmore]
  dsimp only
  rw [if_pos hsame, if_pos hsame]

theorem desc_turn_extend (gif : gif_info_t) (cp : List Byte) :
    Waits (desc_turn E) gif cp ∨ Fixed (desc_turn E) gif cp := by
  by_cases hlen : cp.length < 9 + 1
  · exact .inl (waits_same (if_pos hlen))
  have hmore (x : List Byte) : ¬ (cp ++ x).length < 9 + 1 := by
    rw [List.length_append]
    omega
  have hget (x : List Byte) (k : Nat) (hk : k < 10) : (cp ++ x).getD k 0 = cp.getD k 0 :=
    List.getD_append _ _ _ _ (by omega)
  have hdrop (x : List Byte) (k : Nat) (hk : k ≤ cp.length) : (cp ++ x).drop k = cp.drop k ++ x :=
    List.drop_append_of_le_length hk
  by_cases hflags : (cp.getD 8 0).toNat ≥ 0x80
  · have hcolors : 0 < colors (cp.getD 8 0) := by
      unfold colors
      positivity
    by_cases hall : (cp.length : Int) < 9 + 3 * colors (cp.getD 8 0) + 1
    · left
      refine ⟨{ gif with interlaced := (cp.getD 8 0).getLsbD 6, cmapsz := colors (cp.getD 8 0) }, ?_, rfl, ?_⟩
      · unfold desc_turn
        rw [if_neg hlen]
        dsimp only
        rw [if_pos hflags, if_pos hall]
      · exact desc_turn_again (by omega) hflags _
    · right
      constructor
      · unfold desc_turn
        rw [if_neg hlen]
        dsimp only
        rw [if_pos hflags, if_neg hall]
        exact start_image_settled
      intro x
      have hmap : ¬ ((cp ++ x).length : Int) < 9 + 3 * colors (cp.getD 8 0) + 1 := by
        rw [List.length_append, Nat.cast_add]
        omega
      unfold desc_turn
      rw [if_neg hlen, if_neg (hmore x), hget x 8 (by decide), hget x 4 (by decide), hget x 5 (by decide),
        hget x 6 (by decide), hget x 7 (by decide)]
      generalize cp.getD 8 0 = flags at hflags hall hmap hcolors ⊢
      dsimp only
      rw [if_pos hflags, if_pos hflags, if_neg hall, if_neg hmap, hdrop x 9 (by omega), hdrop x _ (by omega), getcmap_append]
      · apply start_image_extend
        rw [← List.length_pos_iff_ne_nil, List.length_drop]
        omega
      · rw [List.length_drop]
        push_cast
        omega
  · right
    constructor
    · unfold desc_turn
      rw [if_neg hlen]
      dsimp only
      rw [if_neg hflags]
      exact start_image_settled
    intro x
    unfold desc_turn
    rw [if_neg hlen, if_neg (hmore x), hget x 8 (by decide), hget x 4 (by decide), hget x 5 (by decide),
      hget x 6 (by decide), hget x 7 (by decide)]
    dsimp only
    rw [if_neg hflags, if_neg hflags, hdrop x 9 (by omega)]
    apply start_image_extend
    rw [← List.length_pos_iff_ne_nil, List.length_drop]
    omega

end WWindowSystem.Gif
