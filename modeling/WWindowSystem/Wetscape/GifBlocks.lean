import WWindowSystem.Library.Bits
import WWindowSystem.Wetscape.GifLzw

namespace WWindowSystem.Gif

open Bits List

variable {block block' : gif_block} {blocks : List (List Byte)} {input input' : List Byte} {b : Byte} {more tail : List Byte}
  {cs c : Nat} {j : Int}

structure Block (block : gif_block) : Prop where
  size : block.byte_buff.length = 257
  navail : -1 ≤ block.navail_bytes
  inside : block.pbytes + block.navail_bytes ≤ 256
  bits : block.nbits_left ≤ 7

theorem read_block_enough (hsize : block.byte_buff.length = 257) {i : Byte} (hlen : i.toNat ≤ input.length) :
    read_block block (i :: input) = some ({ block with
      pbytes := 0, navail_bytes := i.toNat, byte_buff := input.take i.toNat ++ block.byte_buff.drop i.toNat },
      input.drop i.toNat) := by
  have hi : i.toNat < 256 := i.isLt
  unfold read_block
  dsimp only
  rw [if_neg]
  rw [hsize]
  omega

theorem enough_of_nonneg (hj : 0 ≤ j) (input : List Byte) : enough j input = true := by
  have hturn : enoughTurn (j, input) = .inr true := by
    unfold enoughTurn
    exact if_neg (by omega)
  rw [enough, runLoop, hturn]
  rfl

theorem enough_nil (hj : j < 0) : enough j [] = false := by
  have hturn : enoughTurn (j, []) = .inr false := by
    unfold enoughTurn
    exact if_pos hj
  rw [enough, runLoop, hturn]
  rfl

theorem enough_turn_smaller (s s' : Int × List Byte) (h : enoughTurn s = .inl s') : s'.2.length < s.2.length := by
  obtain ⟨j, input⟩ := s
  unfold enoughTurn at h
  dsimp only at h
  split_ifs at h with hj
  cases input with
  | nil => cases h
  | cons i later =>
    dsimp only at h
    split_ifs at h with hlen
    cases h
    dsimp only
    rw [length_drop, length_cons]
    omega

theorem enough_ends {n : Nat} (j : Int) (hn : input.length < n) : ∃ r, runLoop enoughTurn n (j, input) = some r := by
  have hrun : ∃ r, runLoop enoughTurn n (j, input) = some r ∧ True := by
    apply runLoop_spec (fun _ => True) (fun s => s.2.length) (fun _ => True) _ _ trivial hn
    · intro s s' _ hturn
      exact ⟨trivial, enough_turn_smaller s s' hturn⟩
    · intro s r _ _
      trivial
  obtain ⟨r, hr, _⟩ := hrun
  exact ⟨r, hr⟩

theorem enough_cons (hj : j < 0) (i : Byte) (later : List Byte) : enough j (i :: later) =
    if later.length < i.toNat then false else enough (j + 8 * i.toNat) (later.drop i.toNat) := by
  have hturn : enoughTurn (j, i :: later) =
      if later.length < i.toNat then .inr false else .inl (j + 8 * i.toNat, later.drop i.toNat) := by
    unfold enoughTurn
    exact if_pos hj
  rw [enough, enough, runLoop, hturn]
  split_ifs with hlen
  · rfl
  · have hless : (later.drop i.toNat).length < (later.drop i.toNat).length + 1 := by omega
    obtain ⟨r, hr⟩ := enough_ends (j + 8 * i.toNat) hless
    have hmore := runLoop_more hr (m := (i :: later).length) (by rw [length_drop, length_cons]; omega)
    dsimp only
    rw [hmore, hr]

theorem enough_mono {j' : Int} (hj : j ≤ j') (h : enough j input = true) : enough j' input = true := by
  induction hn : input.length using Nat.strong_induction_on generalizing j j' input with
  | _ n ih =>
    by_cases hpos : 0 ≤ j'
    · exact enough_of_nonneg hpos input
    · have hneg : j < 0 := by omega
      cases input with
      | nil =>
        rw [enough_nil hneg] at h
        cases h
      | cons i later =>
        rw [enough_cons hneg] at h
        rw [enough_cons (by omega)]
        split_ifs at h ⊢ with hlen
        apply ih (later.drop i.toNat).length _ _ h rfl
        · rw [← hn, length_drop, length_cons]
          omega
        · omega

structure Filled (block : gif_block) : Prop where
  size : block.byte_buff.length = 257
  navail : -1 ≤ block.navail_bytes
  inside : block.pbytes + block.navail_bytes ≤ 256

theorem Block.filled (h : Block block) : Filled block := ⟨h.size, h.navail, h.inside⟩

def Supplied (cs : Nat) (block : gif_block) (input : List Byte) : Prop :=
  block.nbits_left + 8 * block.navail_bytes - cs < 0 →
    enough (block.nbits_left + 8 * block.navail_bytes - cs) input = true

def waiting (block : gif_block) (input : List Byte) : Nat := 8 * block.navail_bytes.toNat + 8 * input.length

structure Took (cs : Nat) (block : gif_block) (input : List Byte) (block' : gif_block) (input' : List Byte) : Prop where
  filled : Filled block'
  nbits : block'.nbits_left = block.nbits_left
  supplied : Supplied cs { block' with nbits_left := block.nbits_left + 8 } input'
  waiting : waiting block' input' + 8 ≤ Gif.waiting block input

theorem next_byte_here (hnavail : ¬ block.navail_bytes ≤ 0) (hb : block.byte_buff[block.pbytes]? = some b) :
    next_byte block input = some ({ block with
      b1 := b, pbytes := block.pbytes + 1, navail_bytes := block.navail_bytes - 1 }, input) := by
  unfold next_byte
  rw [if_neg hnavail, Option.bind_some]
  dsimp only
  rw [hb]
  rfl

theorem next_byte_block (hnavail : block.navail_bytes ≤ 0) (hsize : block.byte_buff.length = 257) {i : Byte}
    (hlen : i.toNat ≤ input.length) (hb : (input.take i.toNat ++ block.byte_buff.drop i.toNat)[0]? = some b) :
    next_byte block (i :: input) = some ({ block with
      b1 := b, pbytes := 1, navail_bytes := i.toNat - 1,
      byte_buff := input.take i.toNat ++ block.byte_buff.drop i.toNat }, input.drop i.toNat) := by
  unfold next_byte
  rw [if_pos hnavail, read_block_enough hsize hlen, Option.bind_some]
  dsimp only
  rw [hb]
  rfl

theorem next_byte_took (h : Filled block) (hsupplied : Supplied cs block input) (hless : block.nbits_left < cs) :
    ∃ block' input', next_byte block input = some (block', input') ∧ Took cs block input block' input' := by
  have hsize := h.size
  have hinside := h.inside
  by_cases hnavail : block.navail_bytes ≤ 0
  · -- the next block follows
    unfold Supplied at hsupplied
    have henough := hsupplied (by omega)
    cases input with
    | nil =>
      rw [enough_nil (by omega)] at henough
      cases henough
    | cons i later =>
      rw [enough_cons (by omega)] at henough
      split_ifs at henough with hlen
      rw [not_lt] at hlen
      have hi : i.toNat < 256 := i.isLt
      have hbuff : (later.take i.toNat ++ block.byte_buff.drop i.toNat).length = 257 := by
        rw [length_append, length_take, length_drop, hsize]
        omega
      obtain ⟨b, hb⟩ : ∃ b, (later.take i.toNat ++ block.byte_buff.drop i.toNat)[0]? = some b :=
        ⟨_, getElem?_eq_getElem (by omega)⟩
      refine ⟨_, _, next_byte_block hnavail hsize hlen hb, ?_⟩
      constructor
      · exact ⟨hbuff, by dsimp only; omega, by dsimp only; omega⟩
      · rfl
      · intro _
        refine enough_mono ?_ henough
        dsimp only
        push_cast
        omega
      · unfold waiting
        dsimp only
        rw [length_drop, length_cons]
        omega
  · obtain ⟨b, hb⟩ : ∃ b, block.byte_buff[block.pbytes]? = some b := ⟨_, getElem?_eq_getElem (by omega)⟩
    refine ⟨_, _, next_byte_here hnavail hb, ?_⟩
    constructor
    · exact ⟨hsize, by dsimp only; omega, by dsimp only; push_cast; omega⟩
    · rfl
    · have hsame : ((block.nbits_left + 8 : Nat) : Int) + 8 * (block.navail_bytes - 1) - cs =
          block.nbits_left + 8 * block.navail_bytes - cs := by push_cast; omega
      intro hneg
      dsimp only at hneg ⊢
      rw [hsame] at hneg ⊢
      exact hsupplied hneg
    · unfold waiting
      dsimp only
      omega

structure Gathered (cs : Nat) (total : Nat) (block : gif_block) (input : List Byte) : Prop where
  filled : Filled block
  many : cs ≤ block.nbits_left
  few : block.nbits_left ≤ cs + 7
  total : block.nbits_left + waiting block input ≤ total

theorem more_bits_gathered {total : Nat} (ret : Nat) (h : Filled block) (hsupplied : Supplied cs block input)
    (hfew : block.nbits_left ≤ cs + 7) (htotal : block.nbits_left + waiting block input ≤ total) :
    ∃ ret' block' input', (runLoop (more_bits cs) (cs + 1) (ret, block, input)).join = some (ret', block', input') ∧
      Gathered cs total block' input' := by
  have hrun : ∃ r, runLoop (more_bits cs) (cs + 1) (ret, block, input) = some r ∧
      ∃ ret' block' input', r = some (ret', block', input') ∧ Gathered cs total block' input' := by
    apply runLoop_spec (fun s => Filled s.2.1 ∧ Supplied cs s.2.1 s.2.2 ∧ s.2.1.nbits_left ≤ cs + 7 ∧
      s.2.1.nbits_left + waiting s.2.1 s.2.2 ≤ total) (fun s => cs - s.2.1.nbits_left)
    · rintro ⟨ret, block, input⟩ s' ⟨hfilled, hsupplied, hfew, htotal⟩ hturn
      unfold more_bits at hturn
      dsimp only at hturn hfilled hsupplied hfew htotal
      split_ifs at hturn with hmore
      obtain ⟨block', input', hnext, htook⟩ := next_byte_took hfilled hsupplied hmore
      rw [hnext] at hturn
      cases hturn
      have hnbits := htook.nbits
      have hwaiting := htook.waiting
      refine ⟨⟨⟨htook.filled.size, htook.filled.navail, htook.filled.inside⟩, ?_, ?_, ?_⟩, ?_⟩
      · rw [hnbits]
        exact htook.supplied
      · dsimp only
        omega
      · dsimp only
        unfold waiting at hwaiting htotal ⊢
        dsimp only
        omega
      · dsimp only
        omega
    · rintro ⟨ret, block, input⟩ r ⟨hfilled, hsupplied, hfew, htotal⟩ hturn
      unfold more_bits at hturn
      dsimp only at hturn hfilled hsupplied hfew htotal
      split_ifs at hturn with hmore
      · obtain ⟨block', input', hnext, htook⟩ := next_byte_took hfilled hsupplied hmore
        rw [hnext] at hturn
        cases hturn
      · cases hturn
        exact ⟨ret, block, input, rfl, hfilled, by omega, hfew, htotal⟩
    · exact ⟨h, hsupplied, hfew, htotal⟩
    · dsimp only
      omega
  obtain ⟨r, hr, ret', block', input', rfl, hgathered⟩ := hrun
  exact ⟨ret', block', input', by rw [hr]; rfl, hgathered⟩

theorem code_mask_size {cs : Nat} (hcs : cs ≤ 12) : code_mask[cs]? = some (2 ^ cs - 1) := by
  interval_cases cs <;> rfl

theorem get_next_code_safe (h : Block block) (hcs : 3 ≤ cs) (hcs' : cs ≤ 12) (input : List Byte) :
    get_next_code cs block input = .eof ∨ ∃ c block' input', get_next_code cs block input = .code c block' input' ∧
      Block block' ∧ c < 2 ^ cs ∧
      block'.nbits_left + waiting block' input' + cs ≤ block.nbits_left + waiting block input := by
  have hbits := h.bits
  unfold get_next_code
  dsimp only
  split_ifs with heof
  · exact .inl rfl
  right
  have hsupplied : Supplied cs block input := by
    intro hneg
    by_contra hnot
    exact heof ⟨hneg, by simpa using hnot⟩
  have hfirst : ∃ block' input', first_bits block input = some (block', input') ∧ Filled block' ∧
      Supplied cs block' input' ∧ block'.nbits_left ≤ cs + 7 ∧
      block'.nbits_left + waiting block' input' ≤ block.nbits_left + waiting block input := by
    unfold first_bits
    split_ifs with hzero
    · obtain ⟨block', input', hnext, htook⟩ := next_byte_took h.filled hsupplied (by omega)
      have hwaiting := htook.waiting
      have hsup := htook.supplied
      rw [hzero] at hsup
      refine ⟨{ block' with nbits_left := 8 }, input', by rw [hnext]; rfl, ⟨htook.filled.size, htook.filled.navail, htook.filled.inside⟩, hsup, ?_, ?_⟩
      · dsimp only
        omega
      · unfold waiting at hwaiting ⊢
        dsimp only
        omega
    · exact ⟨block, input, rfl, h.filled, hsupplied, by omega, le_refl _⟩
  obtain ⟨block', input', hbegin, hfilled, hsup, hfew, htotal⟩ := hfirst
  obtain ⟨ret, last, later, hloop, hgathered⟩ :=
    more_bits_gathered (block'.b1.toNat >>> (8 - block'.nbits_left)) hfilled hsup hfew htotal
  rw [hbegin, Option.bind_some, hloop, code_mask_size hcs']
  have hmany := hgathered.many
  have hlast := hgathered.few
  have hall := hgathered.total
  refine ⟨_, _, _, rfl, ⟨hgathered.filled.size, hgathered.filled.navail, hgathered.filled.inside, ?_⟩, ?_, ?_⟩
  · dsimp only
    omega
  · rw [Nat.and_two_pow_sub_one_eq_mod]
    exact Nat.mod_lt _ (Nat.two_pow_pos cs)
  · unfold waiting at hall ⊢
    dsimp only
    omega

end WWindowSystem.Gif
