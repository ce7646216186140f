import Mathlib.Data.List.GetD
import WWindowSystem.Lib.Socket
import WWindowSystem.Server.Transfer

namespace WWindowSystem

open List

def headerSizes (type : BitmapType) (planes : Nat) (width : Int) : Int × Int :=
  match type with
  | .packedmono => (M_UNIT, short ((width + 31).tdiv 32))
  | .packedcolor => (2, short (((width + 15) / 16 * 16 * planes).tdiv 16))
  | .direct8 => (1, short ((width + 3) / 4 * 4))
  | .direct24 => (3, short width)
  | .packedcolormono => (0, 0)

/-- The data of the paket that the library gets after `PAK_GETBLKDATA`. The server swaps the length
before the write and again in the paket; a write of less than a head is no paket, and a paket that
is longer than the buffer never becomes complete. `stale` is what other replies have left in the
paket. -/
def rawAnswer (big : Bool) (out : List Byte) (stale : Nat → Byte) : Option (List Byte) :=
  let len := (ntohs big (BitVec.ofNat 16 (out.length + 4))).toInt
  if PAKET_HEAD ≤ len ∧ len ≤ IBUFSIZE then
    some ((List.range (len - PAKET_HEAD).toNat).map fun i : Nat => out.getD i (stale i))
  else none

/-- A call of `w_getblock` for a live window; `alloc` and `mem` say whether the library and the server
have memory. -/
structure GetCall where
  big : Bool
  D : ScreenDriver
  win : BlockWindow
  x0 : Int
  y0 : Int
  width : Int
  height : Int
  range : width < 32768
  alloc : Bool
  mem : Bool
  pixels : Nat → Byte

def getblockLoop (big : Bool) (stale : Nat → Nat → Byte) :
    Nat → Nat → Int → List Byte → Transfer → Option (Option (List Byte) × Transfer)
  | 0, _, _, _, _ => none
  | fuel + 1, k, todo, data, b =>
    if todo ≤ 0 then some (some data, b)
    else
      let r := b.client_getblockdata PAKET_DATA
      match rawAnswer big r.1 (stale k) with
      | none => none
      | some raw =>
        if todo - raw.length < 0 then some (none, r.2)
        else getblockLoop big stale fuel (k + 1) (todo - raw.length) (data ++ raw) r.2

def w_getblock (c : GetCall) (stale : Nat → Nat → Byte) (fuel : Nat) (b : Transfer) :
    Option (Option (List Byte) × Transfer) :=
  let h := headerSizes c.D.type c.D.planes c.width
  let size := c.height * h.1 * h.2
  if c.alloc = false ∨ c.width < 1 ∨ c.height < 1 ∨ size < 0 then some (none, b)
  else
    let r := c.D.client_getblockreq b (some c.win) c.x0 c.y0 c.width c.height c.mem c.pixels
    if r.1 ≠ size then some (none, r.2) else getblockLoop c.big stale fuel 0 r.1 [] r.2

structure PutCall where
  D : ScreenDriver
  win : BlockWindow
  width : Int
  height : Int
  range : width < 32768
  conv : Bool
  mem : Bool
  data : Nat → Byte
  row : Nat → Nat → Byte

def putPaket (row : Nat → Nat → Byte) (linesize r count : Nat) : List Byte :=
  (List.range (count * linesize)).map fun i => row (r + i / linesize) (i % linesize)

def putblockLoop (lines linesize : Nat) (row : Nat → Nat → Byte) :
    Nat → Int → Nat → List Drawing → Transfer → Option (List Drawing × Transfer)
  | 0, _, _, drawn, b => some (drawn, b)
  | fuel + 1, height, r, drawn, b =>
    if height ≤ 0 then some (drawn, b)
    else
      let count := min lines height.toNat
      if (4 + count * linesize) % 4 ≠ 0 then none
      else
        let q := b.client_putblockdata (putPaket row linesize r count)
        putblockLoop lines linesize row fuel (height - lines) (r + count) (drawn ++ q.1.toList) q.2

def w_putblock (c : PutCall) (b : Transfer) : Option (Int × List Drawing × Transfer) :=
  let h := headerSizes c.D.type c.D.planes c.width
  let size := h.2 * h.1
  if size = 0 then none
  else if size < 0 ∨ size > PAKET_DATA ∨ c.conv = false then some (-1, [], b)
  else
    let r := c.D.client_putblockreq b (some c.win) c.width c.height c.mem c.data
    if r.1 ≠ size * c.height then some (-1, [], r.2)
    else
      (putblockLoop (PAKET_DATA / size).toNat size.toNat c.row c.height.toNat c.height 0 [] r.2).map
        fun q => (0, q)

variable (D : ScreenDriver)

theorem linesize_agrees {width : Int} (h0 : 1 ≤ width) (h : width < 32768) :
    (headerSizes D.type D.planes width).1 * (headerSizes D.type D.planes width).2 = D.unitsize * D.upl width := by
  cases D with
  | monochrome =>
    change 4 * short ((width + 31).tdiv 32) = 4 * short ((width + 31) / 32)
    rw [Int.tdiv_eq_ediv_of_nonneg (by omega)]
  | packed_color planes range =>
    change 2 * short (((width + 15) / 16 * 16 * planes).tdiv 16) = 2 * short ((width + 15) / 16 * 16 * planes / 16)
    rw [Int.tdiv_eq_ediv_of_nonneg (by positivity)]
  | packed_colormono =>
    change 4 * short ((width + 31).tdiv 32) = 2 * short ((width + 31) / 32 * 32 / 16)
    rw [Int.tdiv_eq_ediv_of_nonneg (by omega)]
    unfold short
    omega
  | direct8 => rfl

theorem linesize_even (width : Int) :
    ((headerSizes D.type D.planes width).1 * (headerSizes D.type D.planes width).2) % 2 = 0 := by
  cases D with
  | monochrome =>
    change (4 * short _) % 2 = 0
    omega
  | packed_color planes range =>
    change (2 * short _) % 2 = 0
    omega
  | packed_colormono =>
    change (4 * short _) % 2 = 0
    omega
  | direct8 =>
    change (1 * short ((width + 3) / 4 * 4)) % 2 = 0
    unfold short
    omega

theorem ntohs_little {n : Nat} (h : n < 65536) : (ntohs false (BitVec.ofNat 16 n)).toNat = n % 256 * 256 + n / 256 := by
  have hlo : n * 2 ^ 8 % 2 ^ 16 = 2 ^ 8 * (n % 256) := by omega
  have hhi : n / 2 ^ 8 < 2 ^ 8 := by omega
  unfold ntohs
  rw [if_neg Bool.false_ne_true, BitVec.toNat_or, BitVec.toNat_shiftLeft, BitVec.toNat_ushiftRight,
    BitVec.toNat_ofNat, Nat.mod_eq_of_lt (show n < 2 ^ 16 by omega), Nat.shiftLeft_eq, hlo, Nat.shiftRight_eq_div_pow,
    ← Nat.two_pow_add_eq_or_of_lt hhi]
  omega

theorem ntohs_big {n : Nat} (h : n < 32768) : (ntohs true (BitVec.ofNat 16 n)).toInt = n := by
  unfold ntohs
  rw [if_pos rfl, BitVec.toInt_eq_toNat_cond, BitVec.toNat_ofNat]
  split_ifs <;> omega

variable {out : List Byte}

theorem rawAnswer_big (h : out.length ≤ 4000) (stale : Nat → Byte) :
    rawAnswer true out stale = some out := by
  unfold rawAnswer
  rw [ntohs_big (by omega)]
  dsimp only
  have hin : PAKET_HEAD ≤ ((out.length + 4 : Nat) : Int) ∧ ((out.length + 4 : Nat) : Int) ≤ IBUFSIZE := by
    unfold PAKET_HEAD IBUFSIZE
    omega
  rw [if_pos hin]
  congr 1
  apply ext_getElem
  · rw [length_map, length_range]
    unfold PAKET_HEAD
    omega
  · intro i h1 h2
    rw [getElem_map, getElem_range, getD_eq_getElem _ _ h2]

def misread (n : Nat) : Int := ((n + 4) % 256 * 256 + (n + 4) / 256 : Nat) - 4

theorem rawAnswer_little (h : out.length ≤ 4000) (stale : Nat → Byte) : rawAnswer false out stale =
      if 0 ≤ misread out.length ∧ misread out.length ≤ 4092 then
        some ((List.range (misread out.length).toNat).map fun i : Nat => out.getD i (stale i)) else none := by
  have hn := ntohs_little (n := out.length + 4) (by omega)
  have hi : (ntohs false (BitVec.ofNat 16 (out.length + 4))).toInt =
      if 2 * ((out.length + 4) % 256 * 256 + (out.length + 4) / 256) < 65536 then
        (((out.length + 4) % 256 * 256 + (out.length + 4) / 256 : Nat) : Int)
      else (((out.length + 4) % 256 * 256 + (out.length + 4) / 256 : Nat) : Int) - 65536 := by
    rw [BitVec.toInt_eq_toNat_cond, hn]
    rfl
  unfold rawAnswer
  rw [hi]
  unfold misread PAKET_HEAD IBUFSIZE
  dsimp only
  have hlen : (out.length + 4) % 256 * 256 + (out.length + 4) / 256 < 65536 := by omega
  generalize (out.length + 4) % 256 * 256 + (out.length + 4) / 256 = len at hlen
  split_ifs <;> first | rfl | omega

def bytesUpTo (pixels : Nat → Byte) (n : Int) : List Byte := (List.range n.toNat).map pixels

variable (pixels : Nat → Byte)

theorem bytesUpTo_add {m n : Int} (hm : 0 ≤ m) (hn : 0 ≤ n) : bytesUpTo pixels (m + n) =
      bytesUpTo pixels m ++ (List.range n.toNat).map fun i : Nat => pixels (m + i).toNat := by
  unfold bytesUpTo
  rw [show (m + n).toNat = m.toNat + n.toNat by omega, range_add, map_append, map_map]
  congr 1
  apply map_congr_left
  intro i _
  simp only [Function.comp]
  congr 1
  omega

structure Transfer.Sending (b : Transfer) (bm : BlockBitmap) (todo : Int) : Prop where
  btype : b.btype = if 0 < todo then .get else .none
  bsize : 0 < todo → b.bsize = todo
  bptr : 0 < todo → b.bptr = bm.size - todo
  bbm : b.bbm = bm
  range : 0 ≤ todo ∧ todo ≤ bm.size

variable {b : Transfer} {bm : BlockBitmap} {todo : Int}

theorem Transfer.Sending.next (h : b.Sending bm todo) (ht : 0 < todo) :
    ∃ n, 0 < n ∧ n ≤ 4000 ∧ n ≤ todo ∧ (n < todo → n = 4000) ∧
      (b.client_getblockdata PAKET_DATA).1 = (List.range n.toNat).map (fun i : Nat => bm.data (bm.size - todo + i).toNat) ∧
      (b.client_getblockdata PAKET_DATA).2.Sending bm (todo - n) := by
  have hb := h.btype
  have hs := h.bsize ht
  have hp := h.bptr ht
  have hr := h.range
  rw [if_pos ht] at hb
  have hc : 0 < b.count PAKET_DATA ∧ b.count PAKET_DATA ≤ 4000 ∧ b.count PAKET_DATA ≤ todo ∧
      (b.count PAKET_DATA < todo → b.count PAKET_DATA = 4000) := by
    unfold Transfer.count PAKET_DATA
    rw [hs]
    split_ifs <;> omega
  unfold Transfer.client_getblockdata
  rw [if_neg (by rw [hb]; decide)]
  dsimp only
  generalize b.count PAKET_DATA = n at hc
  obtain ⟨h1, h2, h3, h4⟩ := hc
  refine ⟨n, h1, h2, h3, h4, by rw [h.bbm, hp], ?_, fun _ => ?_, fun _ => ?_, h.bbm, by omega⟩
  · unfold Transfer.advance
    dsimp only
    rw [hs, hb]
    split_ifs <;> first | rfl | omega
  · exact congrArg (· - n) hs
  · change b.bptr + n = _
    omega

variable {r : Option (List Byte) × Transfer} {fuel k : Nat} {stale : Nat → Nat → Byte}

theorem getblockLoop_big (h : b.Sending bm todo)
    (hr : getblockLoop true stale fuel k todo (bytesUpTo bm.data (bm.size - todo)) b = some r) :
    r.2.btype = .none ∧ r.2.bbm = bm ∧ r.1 = some (bytesUpTo bm.data bm.size) := by
  induction fuel generalizing b k todo with
  | zero => cases hr
  | succ fuel ih =>
    rw [getblockLoop] at hr
    by_cases ht : todo ≤ 0
    · have hz : todo = 0 := by
        have := h.range
        omega
      rw [if_pos ht] at hr
      obtain rfl := Option.some.inj hr
      rw [hz, Int.sub_zero]
      refine ⟨?_, h.bbm, rfl⟩
      have hb := h.btype
      rwa [if_neg (by omega)] at hb
    · obtain ⟨n, h1, h2, h3, -, hout, hnext⟩ := h.next (by omega)
      rw [if_neg ht] at hr
      dsimp only at hr
      rw [hout, rawAnswer_big (by rw [length_map, length_range]; omega)] at hr
      dsimp only at hr
      rw [length_map, length_range, Int.toNat_of_nonneg (by omega), if_neg (by omega)] at hr
      have hrange := h.range
      have hdata : bytesUpTo bm.data (bm.size - (todo - n)) = bytesUpTo bm.data (bm.size - todo) ++
          (List.range n.toNat).map fun i : Nat => bm.data (bm.size - todo + i).toNat := by
        rw [show bm.size - (todo - n) = bm.size - todo + n by omega, bytesUpTo_add bm.data (by omega) (by omega)]
      rw [← hdata] at hr
      exact ih hnext hr

theorem getblockdata_none (h : b.btype = .none) (space : Int) : b.client_getblockdata space = ([], b) := by
  unfold Transfer.client_getblockdata
  rw [if_pos (by rw [h]; decide)]

theorem rawAnswer_idle (stale : Nat → Byte) : rawAnswer false [] stale = some ((List.range 1020).map stale) := by
  rw [rawAnswer_little (by decide)]
  rfl

theorem getblockLoop_idle {data : List Byte} (hb : b.btype = .none)
    (ht : 0 ≤ todo) (hr : getblockLoop false stale fuel k todo data b = some r) :
    r.2 = b ∧ ∀ d, r.1 = some d → (todo = 0 ∧ d = data) ∨ ∃ j : Nat, 1 ≤ j ∧ todo = 1020 * j := by
  induction fuel generalizing k todo data with
  | zero => cases hr
  | succ fuel ih =>
    rw [getblockLoop] at hr
    by_cases h0 : todo ≤ 0
    · rw [if_pos h0] at hr
      obtain rfl := Option.some.inj hr
      refine ⟨rfl, fun d hd => Or.inl ⟨by omega, ?_⟩⟩
      exact (Option.some.inj hd).symm
    · rw [if_neg h0] at hr
      dsimp only at hr
      rw [getblockdata_none hb] at hr
      dsimp only at hr
      rw [rawAnswer_idle] at hr
      dsimp only at hr
      rw [length_map, length_range] at hr
      split_ifs at hr with hneg
      · obtain rfl := Option.some.inj hr
        exact ⟨rfl, fun d hd => by cases hd⟩
      · obtain ⟨h1, h2⟩ := ih (by omega) hr
        refine ⟨h1, fun d hd => Or.inr ?_⟩
        obtain ⟨hz, -⟩ | ⟨j, hj, he⟩ := h2 d hd
        · exact ⟨1, le_refl 1, by omega⟩
        · exact ⟨j + 1, by omega, by omega⟩

theorem getblockLoop_stale (c : Byte) (j k : Nat) (data : List Byte) (hb : b.btype = .none) :
    getblockLoop false (fun _ _ => c) (j + 1) k (1020 * j) data b =
      some (some (data ++ List.replicate (1020 * j) c), b) := by
  induction j generalizing k data with
  | zero => rw [getblockLoop, if_pos (by omega), Nat.mul_zero, replicate_zero, append_nil]
  | succ j ih =>
    have hold : (List.range 1020).map (fun _ => c) = List.replicate 1020 c := by
      rw [map_const', length_range]
    rw [getblockLoop, if_neg (by omega)]
    dsimp only
    rw [getblockdata_none hb, rawAnswer_idle, hold]
    dsimp only
    rw [length_replicate, if_neg (by omega),
      show (1020 * ((j + 1 : Nat) : Int) - ((1020 : Nat) : Int)) = 1020 * (j : Int) by omega, ih,
      append_assoc, ← replicate_add, show 1020 + 1020 * j = 1020 * (j + 1) by omega]

/-- A size for which the library gets as many bytes as it wants, but other ones: after the swapped
length a whole number of empty answers fills the rest. -/
def Garbled (size : Int) : Prop := size ≤ 4000 ∧ ∃ j : Nat, 1 ≤ j ∧ (size + 4) / 256 = (size + 4) % 256 + 4 * j

theorem first_little (h : b.Sending bm bm.size) (h0 : 0 < bm.size) (stale : Nat → Byte) :
    (rawAnswer false (b.client_getblockdata PAKET_DATA).1 stale).isSome → bm.size ≤ 4000 ∧
      (b.client_getblockdata PAKET_DATA).1 = bytesUpTo bm.data bm.size ∧
      (b.client_getblockdata PAKET_DATA).2.btype = .none ∧ (b.client_getblockdata PAKET_DATA).2.bbm = bm := by
  obtain ⟨n, h1, h2, h3, h4, hout, hnext⟩ := h.next h0
  intro hsome
  have hsmall : bm.size ≤ 4000 := by
    by_contra hlarge
    have hn : n = 4000 := h4 (by omega)
    rw [hout, rawAnswer_little (by rw [length_map, length_range]; omega), length_map,
      length_range, hn, if_neg (by decide)] at hsome
    cases hsome
  have hn : n = bm.size := by omega
  refine ⟨hsmall, ?_, ?_, hnext.bbm⟩
  · rw [hout, hn, Int.sub_self]
    apply map_congr_left
    intro i _
    congr 1
    omega
  · have hb := hnext.btype
    rwa [hn, Int.sub_self, if_neg (by omega)] at hb

theorem misread_eq {size : Int} (h0 : 0 ≤ size) :
    misread size.toNat = (size + 4) % 256 * 256 + (size + 4) / 256 - 4 := by
  unfold misread
  omega

theorem length_bytesUpTo (n : Int) : (bytesUpTo pixels n).length = n.toNat := by
  unfold bytesUpTo
  rw [length_map, length_range]

theorem getblockLoop_little (h : b.Sending bm bm.size)
    (h0 : 0 < bm.size) (hg : ¬ Garbled bm.size)
    (hr : getblockLoop false stale fuel k bm.size [] b = some r) :
    r.2.btype = .none ∧ r.2.bbm = bm ∧ ∀ d, r.1 = some d → d = bytesUpTo bm.data bm.size := by
  cases fuel with
  | zero => cases hr
  | succ fuel =>
    rw [getblockLoop, if_neg (by omega)] at hr
    dsimp only at hr
    have hfirst := first_little h h0 (stale k)
    generalize b.client_getblockdata PAKET_DATA = q at hr hfirst
    cases hans : rawAnswer false q.1 (stale k) with
    | none =>
      rw [hans] at hr
      cases hr
    | some raw =>
      rw [hans] at hr hfirst
      obtain ⟨hsmall, hout, hbt, hbm⟩ := hfirst rfl
      dsimp only at hr
      rw [hout, rawAnswer_little (by rw [length_bytesUpTo]; omega), length_bytesUpTo, misread_eq h0.le] at hans
      split_ifs at hans with hin
      obtain rfl := Option.some.inj hans
      rw [length_map, length_range, Int.toNat_of_nonneg hin.1, nil_append] at hr
      split_ifs at hr with hneg
      · obtain rfl := Option.some.inj hr
        exact ⟨hbt, hbm, fun d hd => by cases hd⟩
      · obtain ⟨he, hd⟩ := getblockLoop_idle hbt (by omega) hr
        rw [he]
        refine ⟨hbt, hbm, fun d hs => ?_⟩
        obtain ⟨hz, rfl⟩ | ⟨j, hj, hlen⟩ := hd d hs
        · apply ext_getElem
          · rw [length_map, length_range, length_bytesUpTo]
            omega
          · intro i h1 h2
            rw [getElem_map, getElem_range, getD_eq_getElem _ _ h2]
        · exact absurd ⟨hsmall, j, hj, by omega⟩ hg

theorem getblockLoop_garbled (h : b.Sending bm bm.size) (h0 : 0 < bm.size) (hg : Garbled bm.size) (c : Byte) :
    ∃ fuel d r, getblockLoop false (fun _ _ => c) fuel 0 bm.size [] b = some (some d, r) ∧
      r.bbm = bm ∧ d.getLast? = some c := by
  obtain ⟨hsmall, j, hj, he⟩ := hg
  obtain ⟨n, h1, h2, h3, h4, hout, hnext⟩ := h.next h0
  have hn : n = bm.size := by omega
  have hbt := hnext.btype
  rw [hn, Int.sub_self, if_neg (by omega)] at hbt
  obtain ⟨raw, hraw, hlen⟩ : ∃ raw, rawAnswer false (b.client_getblockdata PAKET_DATA).1 (fun _ => c) = some raw ∧
      (raw.length : Int) = (bm.size + 4) % 256 * 256 + (bm.size + 4) / 256 - 4 := by
    rw [hout, rawAnswer_little (by rw [length_map, length_range]; omega), length_map,
      length_range, hn, misread_eq h0.le, if_pos (by omega)]
    refine ⟨_, rfl, ?_⟩
    rw [length_map, length_range]
    omega
  have hrun : getblockLoop false (fun _ _ => c) (j + 1 + 1) 0 bm.size [] b =
      some (some (raw ++ List.replicate (1020 * j) c), (b.client_getblockdata PAKET_DATA).2) := by
    rw [getblockLoop, if_neg (by omega)]
    dsimp only
    rw [hraw]
    dsimp only
    rw [if_neg (by omega), show bm.size - (raw.length : Int) = 1020 * (j : Int) by omega,
      getblockLoop_stale c j _ _ hbt, nil_append]
  refine ⟨_, _, _, hrun, hnext.bbm, ?_⟩
  rw [getLast?_append, getLast?_replicate, if_neg (by omega)]
  rfl

end WWindowSystem
