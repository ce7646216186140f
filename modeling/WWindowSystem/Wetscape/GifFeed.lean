import WWindowSystem.Library.Feeding
import WWindowSystem.Wetscape.Gif
import WWindowSystem.Wetscape.GifBlocks
import WWindowSystem.Wetscape.GifTable

namespace WWindowSystem.Gif

open List Option

variable {E : GifEnv} {s : gif_screen} {d d' : Reading} {block block' : gif_block} {input input' : List Byte} {cs c : Nat}

theorem enough_extend {j : Int} (h : enough j input = true) (x : List Byte) : enough j (input ++ x) = true := by
  induction hn : input.length using Nat.strong_induction_on generalizing j input with
  | _ n ih =>
    by_cases hpos : 0 ≤ j
    · exact enough_of_nonneg hpos _
    · cases input with
      | nil =>
        rw [enough_nil (by omega)] at h
        cases h
      | cons i later =>
        rw [enough_cons (by omega)] at h
        rw [cons_append, enough_cons (by omega)]
        split_ifs at h with hlen
        rw [if_neg (by rw [length_append]; omega), drop_append_of_le_length (by omega)]
        apply ih (later.drop i.toNat).length _ h rfl
        rw [← hn, length_drop, length_cons]
        omega

theorem read_block_extend (h : read_block block input = some (block', input')) (x : List Byte) :
    read_block block (input ++ x) = some (block', input' ++ x) := by
  cases input with
  | nil => cases h
  | cons i later =>
    unfold read_block at h
    dsimp only at h
    split_ifs at h with hlen
    rw [not_or] at hlen
    cases h
    unfold read_block
    rw [cons_append]
    dsimp only
    rw [if_neg (by rw [length_append]; omega), take_append_of_le_length (by omega),
      drop_append_of_le_length (by omega)]

theorem next_byte_extend (h : next_byte block input = some (block', input')) (x : List Byte) :
    next_byte block (input ++ x) = some (block', input' ++ x) := by
  unfold next_byte at h ⊢
  split_ifs at h ⊢ with hnavail
  · rw [bind_eq_some_iff] at h
    obtain ⟨⟨last, later⟩, hread, h⟩ := h
    rw [read_block_extend hread, bind_some]
    rw [map_eq_some_iff] at h ⊢
    obtain ⟨b, hb, h⟩ := h
    cases h
    exact ⟨b, hb, rfl⟩
  · rw [bind_some] at h ⊢
    rw [map_eq_some_iff] at h ⊢
    obtain ⟨b, hb, h⟩ := h
    cases h
    exact ⟨b, hb, rfl⟩

theorem first_bits_extend (h : first_bits block input = some (block', input')) (x : List Byte) :
    first_bits block (input ++ x) = some (block', input' ++ x) := by
  unfold first_bits at h ⊢
  split_ifs at h ⊢ with hzero
  · rw [map_eq_some_iff] at h
    obtain ⟨⟨last, later⟩, hnext, h⟩ := h
    cases h
    rw [next_byte_extend hnext]
    rfl
  · cases h
    rfl

theorem more_bits_turn (x : List Byte) (s s' : Nat × gif_block × List Byte) (h : more_bits cs s = .inl s') :
    more_bits cs (s.1, s.2.1, s.2.2 ++ x) = .inl (s'.1, s'.2.1, s'.2.2 ++ x) := by
  unfold more_bits at h ⊢
  dsimp only
  split_ifs at h ⊢ with hmore
  cases hnext : next_byte s.2.1 s.2.2 with
  | none =>
    rw [hnext] at h
    cases h
  | some p =>
    rw [hnext] at h
    cases h
    rw [next_byte_extend hnext]

theorem more_bits_last (x : List Byte) (s : Nat × gif_block × List Byte) (r : Option (Nat × gif_block × List Byte))
    (h : more_bits cs s = .inr r) (hsome : r.isSome = true) :
    more_bits cs (s.1, s.2.1, s.2.2 ++ x) = .inr (r.map fun s => (s.1, s.2.1, s.2.2 ++ x)) := by
  unfold more_bits at h ⊢
  dsimp only
  split_ifs at h ⊢ with hmore
  · cases hnext : next_byte s.2.1 s.2.2 with
    | none =>
      rw [hnext] at h
      cases h
      cases hsome
    | some p =>
      rw [hnext] at h
      cases h
  · cases h
    rfl

theorem more_bits_extend {ret ret' : Nat} (x : List Byte)
    (h : (runLoop (more_bits cs) (cs + 1) (ret, block, input)).join = some (ret', block', input')) :
    (runLoop (more_bits cs) (cs + 1) (ret, block, input ++ x)).join = some (ret', block', input' ++ x) := by
  have hrun : runLoop (more_bits cs) (cs + 1) (ret, block, input) = some (some (ret', block', input')) := by
    rw [join_eq_some_iff] at h
    exact h
  have hmap : runLoop (more_bits cs) (cs + 1) (ret, block, input ++ x) = some (some (ret', block', input' ++ x)) := by
    apply runLoop_map (fun s : Nat × gif_block × List Byte => (s.1, s.2.1, s.2.2 ++ x))
      (Option.map fun s : Nat × gif_block × List Byte => (s.1, s.2.1, s.2.2 ++ x)) (fun r => r.isSome = true)
      (more_bits_turn x) (more_bits_last x) hrun rfl
  rw [hmap]
  rfl

theorem get_next_code_extend (h : get_next_code cs block input = .code c block' input') (x : List Byte) :
    get_next_code cs block (input ++ x) = .code c block' (input' ++ x) := by
  unfold get_next_code at h ⊢
  dsimp only at h ⊢
  split_ifs at h with heof
  have hmore : ¬ ((block.nbits_left : Int) + 8 * block.navail_bytes - cs < 0 ∧
      enough (block.nbits_left + 8 * block.navail_bytes - cs) (input ++ x) = false) := by
    rintro ⟨hneg, hnot⟩
    have henough : enough (block.nbits_left + 8 * block.navail_bytes - cs) input = true := by
      by_contra hno
      exact heof ⟨hneg, by simpa using hno⟩
    rw [enough_extend henough x] at hnot
    cases hnot
  rw [if_neg hmore]
  cases hfirst : first_bits block input with
  | none =>
    rw [hfirst] at h
    cases h
  | some p =>
    rw [hfirst, bind_some] at h
    rw [first_bits_extend hfirst, bind_some]
    cases hloop : (runLoop (more_bits cs) (cs + 1) (p.1.b1.toNat >>> (8 - p.1.nbits_left), p.1, p.2)).join with
    | none =>
      rw [hloop] at h
      cases h
    | some q =>
      rw [hloop] at h
      rw [more_bits_extend x hloop]
      dsimp only at h ⊢
      cases hmask : code_mask[cs]? with
      | none =>
        rw [hmask] at h
        cases h
      | some mask =>
        rw [hmask] at h
        cases h
        rfl

theorem read_block_suffix (h : read_block block input = some (block', input')) : input' <:+ input := by
  cases input with
  | nil => cases h
  | cons i later =>
    unfold read_block at h
    dsimp only at h
    split_ifs at h
    cases h
    exact (drop_suffix _ _).trans (suffix_cons _ _)

theorem next_byte_suffix (h : next_byte block input = some (block', input')) : input' <:+ input := by
  unfold next_byte at h
  split_ifs at h
  · rw [bind_eq_some_iff] at h
    obtain ⟨⟨last, later⟩, hread, h⟩ := h
    rw [map_eq_some_iff] at h
    obtain ⟨b, _, h⟩ := h
    cases h
    exact read_block_suffix hread
  · rw [bind_some, map_eq_some_iff] at h
    obtain ⟨b, _, h⟩ := h
    cases h
    exact suffix_refl _

theorem first_bits_suffix (h : first_bits block input = some (block', input')) : input' <:+ input := by
  unfold first_bits at h
  split_ifs at h
  · rw [map_eq_some_iff] at h
    obtain ⟨p, hnext, h⟩ := h
    cases h
    exact next_byte_suffix hnext
  · cases h
    exact suffix_refl _

theorem more_bits_suffix {n ret ret' : Nat} (h : runLoop (more_bits cs) n (ret, block, input) = some (some (ret', block', input'))) :
    input' <:+ input := by
  have hkeeps : ∀ s, some (ret', block', input') = some s → s.2.2 <:+ input := by
    apply runLoop_keeps (fun s => s.2.2 <:+ input) (fun r => ∀ s, r = some s → s.2.2 <:+ input) _ _ h (suffix_refl input)
    · intro s s' hs hturn
      unfold more_bits at hturn
      split_ifs at hturn
      cases hnext : next_byte s.2.1 s.2.2 with
      | none =>
        rw [hnext] at hturn
        cases hturn
      | some p =>
        rw [hnext] at hturn
        cases hturn
        exact (next_byte_suffix hnext).trans hs
    · intro s r hs hturn last hlast
      unfold more_bits at hturn
      split_ifs at hturn
      · cases hnext : next_byte s.2.1 s.2.2 with
        | none =>
          rw [hnext] at hturn
          cases hturn
          cases hlast
        | some p =>
          rw [hnext] at hturn
          cases hturn
      · cases hturn
        cases hlast
        exact hs
  exact hkeeps _ rfl

theorem get_next_code_suffix (h : get_next_code cs block input = .code c block' input') : input' <:+ input := by
  unfold get_next_code at h
  dsimp only at h
  split_ifs at h
  cases hfirst : first_bits block input with
  | none =>
    rw [hfirst] at h
    cases h
  | some p =>
    rw [hfirst, bind_some] at h
    cases hloop : (runLoop (more_bits cs) (cs + 1) (p.1.b1.toNat >>> (8 - p.1.nbits_left), p.1, p.2)).join with
    | none =>
      rw [hloop] at h
      cases h
    | some q =>
      rw [hloop] at h
      rw [join_eq_some_iff] at hloop
      dsimp only at h
      cases hmask : code_mask[cs]? with
      | none =>
        rw [hmask] at h
        cases h
      | some mask =>
        rw [hmask] at h
        cases h
        exact (more_bits_suffix hloop).trans (first_bits_suffix hfirst)

end WWindowSystem.Gif
