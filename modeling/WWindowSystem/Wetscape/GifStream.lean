import WWindowSystem.Wetscape.GifBlocks

namespace WWindowSystem.Gif

open Bits List

variable {block block' : gif_block} {blocks : List (List Byte)} {b : Byte} {more : List Byte} {cs : Nat}

def pack (blocks : List (List Byte)) : List Byte := blocks.flatMap fun s => BitVec.ofNat 8 s.length :: s

def SubBlock (s : List Byte) : Prop := s ≠ [] ∧ s.length ≤ 255

theorem pack_cons (s : List Byte) (blocks : List (List Byte)) :
    pack (s :: blocks) = BitVec.ofNat 8 s.length :: (s ++ pack blocks) := flatMap_cons

theorem length_toNat {s : List Byte} (h : SubBlock s) : (BitVec.ofNat 8 s.length).toNat = s.length := by
  rw [BitVec.toNat_ofNat, Nat.mod_eq_of_lt]
  have hlen := h.2
  omega

def unread (block : gif_block) : List Byte := (block.byte_buff.drop block.pbytes).take block.navail_bytes.toNat

def held (block : gif_block) : List Bool := (low 8 block.b1.toNat).drop (8 - block.nbits_left)

structure Clean (block : gif_block) : Prop where
  size : block.byte_buff.length = 257
  navail : 0 ≤ block.navail_bytes
  inside : block.pbytes + block.navail_bytes ≤ 256

theorem enough_pack (hblocks : ∀ s ∈ blocks, SubBlock s) {j : Int} (hj : 0 ≤ j + 8 * blocks.flatten.length) (tail : List Byte) :
    enough j (pack blocks ++ tail) = true := by
  induction blocks generalizing j with
  | nil =>
    apply enough_of_nonneg
    simpa using hj
  | cons s blocks ih =>
    rw [forall_mem_cons] at hblocks
    by_cases hpos : 0 ≤ j
    · exact enough_of_nonneg hpos _
    · rw [pack_cons, cons_append, enough_cons (by omega), length_toNat hblocks.1, append_assoc,
        drop_left, if_neg]
      · apply ih hblocks.2
        rw [flatten_cons, length_append] at hj
        push_cast at hj ⊢
        omega
      · rw [length_append]
        omega

theorem next_byte_stream (h : Clean block) (hblocks : ∀ s ∈ blocks, SubBlock s)
    (hbytes : unread block ++ blocks.flatten = b :: more) (tail : List Byte) :
    ∃ block' blocks', next_byte block (pack blocks ++ tail) = some (block', pack blocks' ++ tail) ∧ Clean block' ∧
      (∀ s ∈ blocks', SubBlock s) ∧ unread block' ++ blocks'.flatten = more ∧ block'.b1 = b ∧
      block'.nbits_left = block.nbits_left := by
  have hsize := h.size
  have hinside := h.inside
  have hnavail := h.navail
  by_cases hzero : block.navail_bytes ≤ 0
  · have hnone : unread block = [] := by
      unfold unread
      rw [show block.navail_bytes.toNat = 0 by omega, take_zero]
    rw [hnone, nil_append] at hbytes
    cases blocks with
    | nil => cases hbytes
    | cons s blocks =>
      rw [forall_mem_cons] at hblocks
      obtain ⟨hs, hblocks⟩ := hblocks
      have hlen := length_toNat hs
      have hle := hs.2
      cases s with
      | nil => exact absurd rfl hs.1
      | cons d s =>
        rw [flatten_cons, cons_append] at hbytes
        cases hbytes
        have htake : ((b :: s) ++ (pack blocks ++ tail)).take (BitVec.ofNat 8 (b :: s).length).toNat = b :: s := by
          rw [hlen, take_left]
        have hdrop : ((b :: s) ++ (pack blocks ++ tail)).drop (BitVec.ofNat 8 (b :: s).length).toNat = pack blocks ++ tail := by
          rw [hlen, drop_left]
        have hless : (BitVec.ofNat 8 (b :: s).length).toNat ≤ ((b :: s) ++ (pack blocks ++ tail)).length := by
          rw [hlen, length_append]
          omega
        have hnext := next_byte_block (b := b) hzero hsize hless (by rw [htake]; rfl)
        rw [htake, hdrop, hlen] at hnext
        refine ⟨{ block with
          b1 := b, pbytes := 1, navail_bytes := (b :: s).length - 1,
          byte_buff := (b :: s) ++ block.byte_buff.drop (b :: s).length }, blocks, ?_, ?_, hblocks, ?_, rfl, rfl⟩
        · rw [pack_cons, cons_append, append_assoc]
          exact hnext
        · refine ⟨?_, ?_, ?_⟩
          · dsimp only
            rw [length_append, length_drop, hsize]
            omega
          · dsimp only
            rw [length_cons]
            omega
          · dsimp only
            omega
        · have hcut : (((b :: s) ++ block.byte_buff.drop (b :: s).length).drop 1).take (((b :: s).length : Int) - 1).toNat = s := by
            rw [cons_append, drop_one, tail_cons, length_cons,
              show (((s.length + 1 : Nat) : Int) - 1).toNat = s.length by omega, take_left]
          unfold unread
          dsimp only
          rw [hcut]
  · obtain ⟨d, hd⟩ : ∃ d, block.byte_buff[block.pbytes]? = some d := ⟨_, getElem?_eq_getElem (by omega)⟩
    obtain ⟨hlt, hget⟩ := List.getElem?_eq_some_iff.mp hd
    have hcut : unread block = d :: (block.byte_buff.drop (block.pbytes + 1)).take (block.navail_bytes - 1).toNat := by
      unfold unread
      rw [drop_eq_getElem_cons hlt, hget, show block.navail_bytes.toNat = (block.navail_bytes - 1).toNat + 1 by omega,
        take_succ_cons]
    rw [hcut, cons_append] at hbytes
    cases hbytes
    refine ⟨_, blocks, next_byte_here hzero hd, ⟨hsize, ?_, ?_⟩, hblocks, rfl, rfl, rfl⟩
    · dsimp only
      omega
    · dsimp only
      push_cast
      omega

structure Gathering (bits : List Bool) (ret : Nat) (block : gif_block) (blocks : List (List Byte)) (taken : List Bool) : Prop where
  clean : Clean block
  packed : ∀ s ∈ blocks, SubBlock s
  bits : taken ++ ofBytes (unread block ++ blocks.flatten) = bits
  ret : ret = value taken
  nbits : taken.length = block.nbits_left
  last : taken.drop (taken.length - 8) = (low 8 block.b1.toNat).drop (8 - taken.length)

theorem gathering_next {bits taken : List Bool} {ret : Nat} (h : Gathering bits ret block blocks taken) (hcs : cs ≤ bits.length)
    (hless : block.nbits_left < cs) (tail : List Byte) : ∃ block' blocks', next_byte block (pack blocks ++ tail) = some (block', pack blocks' ++ tail) ∧
      block'.nbits_left = block.nbits_left ∧
      Gathering bits (ret ||| block'.b1.toNat <<< block'.nbits_left) { block' with nbits_left := block'.nbits_left + 8 } blocks'
        (taken ++ low 8 block'.b1.toNat) := by
  have hnbits := h.nbits
  cases hbytes : unread block ++ blocks.flatten with
  | nil =>
    have hbits := h.bits
    rw [hbytes] at hbits
    have hlen := congrArg List.length hbits
    simp [ofBytes] at hlen
    omega
  | cons b more =>
    obtain ⟨block', blocks', hnext, hclean, hblocks, hmore, hb, hsame⟩ := next_byte_stream h.clean h.packed hbytes tail
    refine ⟨block', blocks', hnext, hsame, ⟨hclean.size, hclean.navail, hclean.inside⟩, hblocks, ?_, ?_, ?_, ?_⟩
    · have hbits := h.bits
      rw [hbytes, ofBytes_cons, ← append_assoc] at hbits
      rw [hb]
      unfold unread at hmore ⊢
      rw [hmore]
      exact hbits
    · rw [h.ret, hsame, ← hnbits]
      exact value_or taken block'.b1
    · rw [length_append, low_length, hsame, hnbits]
    · rw [length_append, low_length, Nat.add_sub_cancel, drop_left, Nat.sub_eq_zero_of_le (by omega)]
      rfl

theorem more_bits_stream {bits taken : List Bool} {ret : Nat} (h : Gathering bits ret block blocks taken) (hcs : cs ≤ bits.length)
    (hfew : block.nbits_left ≤ cs + 7) (tail : List Byte) :
    ∃ ret' block' blocks' taken', (runLoop (more_bits cs) (cs + 1) (ret, block, pack blocks ++ tail)).join =
      some (ret', block', pack blocks' ++ tail) ∧ Gathering bits ret' block' blocks' taken' ∧ cs ≤ block'.nbits_left ∧
        block'.nbits_left ≤ cs + 7 := by
  have hrun : ∃ r, runLoop (more_bits cs) (cs + 1) (ret, block, pack blocks ++ tail) = some r ∧
      ∃ ret' block' blocks' taken', r = some (ret', block', pack blocks' ++ tail) ∧ Gathering bits ret' block' blocks' taken' ∧
        cs ≤ block'.nbits_left ∧ block'.nbits_left ≤ cs + 7 := by
    apply runLoop_spec (fun s => ∃ blocks taken, s.2.2 = pack blocks ++ tail ∧ Gathering bits s.1 s.2.1 blocks taken ∧
      s.2.1.nbits_left ≤ cs + 7) (fun s => cs - s.2.1.nbits_left)
    · rintro ⟨ret, block, input⟩ s' ⟨blocks, taken, hinput, hgathering, hfew⟩ hturn
      dsimp only at hinput hgathering hfew
      subst hinput
      unfold more_bits at hturn
      dsimp only at hturn
      split_ifs at hturn with hmore
      obtain ⟨block', blocks', hnext, hsame, hgathering'⟩ := gathering_next hgathering hcs hmore tail
      rw [hnext] at hturn
      cases hturn
      refine ⟨⟨blocks', _, rfl, hgathering', ?_⟩, ?_⟩
      · dsimp only
        omega
      · dsimp only
        omega
    · rintro ⟨ret, block, input⟩ r ⟨blocks, taken, hinput, hgathering, hfew⟩ hturn
      dsimp only at hinput hgathering hfew
      subst hinput
      unfold more_bits at hturn
      dsimp only at hturn
      split_ifs at hturn with hmore
      · obtain ⟨block', blocks', hnext, _, _⟩ := gathering_next hgathering hcs hmore tail
        rw [hnext] at hturn
        cases hturn
      · cases hturn
        exact ⟨ret, block, blocks, taken, rfl, hgathering, by omega, hfew⟩
    · exact ⟨blocks, taken, rfl, h, hfew⟩
    · dsimp only
      omega
  obtain ⟨r, hr, ret', block', blocks', taken', rfl, hgathering, hmany, hlast⟩ := hrun
  exact ⟨ret', block', blocks', taken', by rw [hr]; rfl, hgathering, hmany, hlast⟩

def stream (block : gif_block) (blocks : List (List Byte)) : List Bool :=
  held block ++ ofBytes (unread block ++ blocks.flatten)

theorem held_length (hbits : block.nbits_left ≤ 7) : (held block).length = block.nbits_left := by
  unfold held
  rw [length_drop, low_length]
  omega

theorem stream_length (h : Clean block) (hbits : block.nbits_left ≤ 7) (blocks : List (List Byte)) :
    ((stream block blocks).length : Int) = block.nbits_left + 8 * block.navail_bytes + 8 * blocks.flatten.length := by
  have hsize := h.size
  have hnavail := h.navail
  have hinside := h.inside
  have hunread : (unread block).length = block.navail_bytes.toNat := by
    unfold unread
    rw [length_take, length_drop]
    omega
  rw [stream, length_append, held_length hbits, ofBytes_length, length_append, hunread]
  omega

theorem get_next_code_stream (h : Clean block) (hbits : block.nbits_left ≤ 7) (hblocks : ∀ s ∈ blocks, SubBlock s) (hcs : 3 ≤ cs)
    (hcs' : cs ≤ 12) (hlen : cs ≤ (stream block blocks).length) (tail : List Byte) :
    ∃ block' blocks', get_next_code cs block (pack blocks ++ tail) =
      .code (value ((stream block blocks).take cs)) block' (pack blocks' ++ tail) ∧ Clean block' ∧ block'.nbits_left ≤ 7 ∧
      (∀ s ∈ blocks', SubBlock s) ∧ stream block' blocks' = (stream block blocks).drop cs := by
  have hall := stream_length h hbits blocks
  have heof : ¬ ((block.nbits_left : Int) + 8 * block.navail_bytes - cs < 0 ∧
      enough (block.nbits_left + 8 * block.navail_bytes - cs) (pack blocks ++ tail) = false) := by
    rintro ⟨_, hnot⟩
    rw [enough_pack hblocks (by omega)] at hnot
    cases hnot
  have hfirst : ∃ block' blocks' taken, first_bits block (pack blocks ++ tail) = some (block', pack blocks' ++ tail) ∧
      Gathering (stream block blocks) (block'.b1.toNat >>> (8 - block'.nbits_left)) block' blocks' taken ∧
      block'.nbits_left ≤ 8 := by
    unfold first_bits
    split_ifs with hzero
    · cases hbytes : unread block ++ blocks.flatten with
      | nil =>
        have hnil : held block = [] := by
          rw [← length_eq_zero_iff, held_length hbits, hzero]
        rw [stream, hbytes, hnil] at hlen
        simp [ofBytes] at hlen
        omega
      | cons b more =>
        obtain ⟨block', blocks', hnext, hclean, hpacked, hmore, hb, _⟩ := next_byte_stream h hblocks hbytes tail
        refine ⟨{ block' with nbits_left := 8 }, blocks', low 8 b.toNat, by rw [hnext]; rfl, ?_, le_refl _⟩
        have hnil : held block = [] := by
          rw [← length_eq_zero_iff, held_length hbits, hzero]
        refine ⟨⟨hclean.size, hclean.navail, hclean.inside⟩, hpacked, ?_, ?_, low_length _ _, ?_⟩
        · rw [stream, hnil, hbytes, ofBytes_cons]
          unfold unread at hmore ⊢
          rw [hmore]
          rfl
        · rw [value_low_of_lt b.isLt, hb]
          rfl
        · rw [low_length, hb]
    · refine ⟨block, blocks, held block, rfl, ⟨h, hblocks, rfl, ?_, held_length hbits, ?_⟩, by omega⟩
      · unfold held
        rw [value_drop, value_low_of_lt block.b1.isLt, Nat.shiftRight_eq_div_pow]
      · rw [held_length hbits, Nat.sub_eq_zero_of_le (by omega)]
        rfl
  obtain ⟨begun, blocks₁, taken, hbegin, hgathering, hfew⟩ := hfirst
  obtain ⟨ret, last, blocks', taken', hloop, hend, hmany, hlast⟩ := more_bits_stream hgathering hlen (by omega) tail
  have htaken := hend.nbits
  refine ⟨{ last with nbits_left := last.nbits_left - cs }, blocks', ?_, ?_, ?_, hend.packed, ?_⟩
  · have hvalue : value ((stream block blocks).take cs) = ret &&& (2 ^ cs - 1) := by
      rw [← hend.bits, take_append_of_le_length (by omega), value_take, Nat.and_two_pow_sub_one_eq_mod, hend.ret]
    rw [get_next_code]
    rw [if_neg heof, hbegin, Option.bind_some, hloop]
    dsimp only
    rw [code_mask_size hcs', hvalue]
  · exact ⟨hend.clean.size, hend.clean.navail, hend.clean.inside⟩
  · dsimp only
    omega
  · have hheld : held { last with nbits_left := last.nbits_left - cs } = taken'.drop cs := by
      have hcut : taken'.drop cs = (taken'.drop (taken'.length - 8)).drop (cs - (taken'.length - 8)) := by
        rw [drop_drop]
        congr 1
        omega
      rw [hcut, hend.last, drop_drop]
      unfold held
      dsimp only
      congr 1
      omega
    rw [stream, hheld, ← hend.bits, drop_append_of_le_length (by omega)]
    rfl

end WWindowSystem.Gif
