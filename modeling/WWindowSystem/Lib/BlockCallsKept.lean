import WWindowSystem.Lib.BlockCalls

namespace WWindowSystem

open List

variable {b : Transfer}

variable (D : ScreenDriver)

theorem upl_ne_zero {width : Int} (h0 : 1 ≤ width) (h : width < 32768) : D.upl width ≠ 0 := by
  cases D with
  | monochrome =>
    change short ((width + 31) / 32) ≠ 0
    rw [short_of_range (by omega) (by omega)]
    omega
  | packed_color planes range =>
    obtain ⟨h1, h8⟩ := range
    change short ((width + 15) / 16 * 16 * planes / 16) ≠ 0
    obtain ⟨q, hq, hq1, hq2⟩ : ∃ q, (width + 15) / 16 = q ∧ 1 ≤ q ∧ q ≤ 2048 := ⟨_, rfl, by omega, by omega⟩
    have hwords : q * 16 * planes / 16 = q * planes := by
      rw [Int.mul_right_comm]
      exact Int.mul_ediv_cancel _ (by decide)
    have hlow : 1 * 1 ≤ q * (planes : Int) := Int.mul_le_mul hq1 (by omega) (by decide) (by omega)
    have hhigh : q * (planes : Int) ≤ 2048 * 8 := Int.mul_le_mul hq2 (by omega) (by omega) (by decide)
    rw [hq, hwords, short_of_range (by omega) (by omega)]
    omega
  | packed_colormono =>
    change short ((width + 31) / 32 * 32 / 16) ≠ 0
    rw [short_of_range (by omega) (by omega)]
    omega
  | direct8 =>
    change short ((width + 3) / 4 * 4) ≠ 0
    by_cases hfits : (width + 3) / 4 * 4 < 32768
    · rw [short_of_range (by omega) hfits]
      omega
    · rw [show (width + 3) / 4 * 4 = 32768 by omega]
      decide

theorem unitsize_pos : 0 < D.unitsize := by
  cases D with
  | monochrome => decide
  | packed_color planes range => exact (by decide : (0 : Int) < 2)
  | packed_colormono => decide
  | direct8 => decide

def GetCall.size (c : GetCall) : Int := c.height * c.D.unitsize * c.D.upl c.width

structure GetCall.Accepted (c : GetCall) : Prop where
  memory : c.alloc = true ∧ c.mem = true ∧ 0 ≤ c.size
  container : c.win.container = false
  positive : 1 ≤ c.width ∧ 1 ≤ c.height
  inside : (0 ≤ c.x0 ∧ c.x0 + c.width ≤ c.win.w) ∧ 0 ≤ c.y0 ∧ c.y0 + c.height ≤ c.win.h

def GetCall.bitmap (c : GetCall) : BlockBitmap :=
  { width := c.width, height := c.height, unitsize := c.D.unitsize, upl := c.D.upl c.width, data := c.pixels }

variable (c : GetCall)

theorem createbm_eq : c.D.createbm c.width c.height c.mem c.pixels =
    (c.bitmap, c.mem && decide (0 ≤ c.size)) :=
  rfl

theorem GetCall.Accepted.size_pos {c : GetCall} (h : c.Accepted) : 0 < c.size := by
  have hne : c.size ≠ 0 := by
    apply mul_ne_zero
    · apply mul_ne_zero
      · have := h.positive.2
        omega
      · exact (unitsize_pos c.D).ne'
    · exact upl_ne_zero c.D h.positive.1 c.range
  have := h.memory.2.2
  omega

theorem client_getblockreq_cases (hb : b.btype = .none) (hpos : 1 ≤ c.width ∧ 1 ≤ c.height)
    (ha : c.alloc = true) :
    (c.Accepted ∧ (c.D.client_getblockreq b (some c.win) c.x0 c.y0 c.width c.height c.mem c.pixels).1 = c.size ∧
      (c.D.client_getblockreq b (some c.win) c.x0 c.y0 c.width c.height c.mem c.pixels).2.Sending c.bitmap c.size) ∨
    (¬ c.Accepted ∧ (c.D.client_getblockreq b (some c.win) c.x0 c.y0 c.width c.height c.mem c.pixels).1 < 0 ∧
      (c.D.client_getblockreq b (some c.win) c.x0 c.y0 c.width c.height c.mem c.pixels).2.btype = .none) := by
  unfold ScreenDriver.client_getblockreq
  dsimp only
  split_ifs with hneg hcont hout hmem
  · refine Or.inr ⟨fun h => ?_, Int.neg_of_sign_eq_neg_one rfl, hb⟩
    have := h.inside
    rcases hneg with hne | hneg
    · exact hne hb
    · omega
  · refine Or.inr ⟨fun h => ?_, Int.neg_of_sign_eq_neg_one rfl, hb⟩
    rw [h.container] at hcont
    cases hcont
  · refine Or.inr ⟨fun h => ?_, Int.neg_of_sign_eq_neg_one rfl, hb⟩
    have := h.inside
    omega
  · refine Or.inr ⟨fun h => ?_, Int.neg_of_sign_eq_neg_one rfl, hb⟩
    have hm := h.memory.2
    rw [createbm_eq, hm.1, Bool.true_and, decide_eq_true hm.2] at hmem
    cases hmem
  · have hm : c.mem = true ∧ 0 ≤ c.size := by
      rw [createbm_eq] at hmem
      simpa using hmem
    have hacc : c.Accepted := by
      refine ⟨⟨ha, hm⟩, ?_, hpos, ?_⟩
      · simpa using hcont
      · omega
    have hsize := hacc.size_pos
    refine Or.inl ⟨hacc, rfl, ?_, fun _ => rfl, fun _ => (Int.sub_self c.size).symm, rfl, hm.2, le_refl c.size⟩
    rw [if_pos hsize]

def GetCall.Kept (c : GetCall) (b : Transfer) : Prop :=
  ∀ stale fuel r, w_getblock c stale fuel b = some r →
    r.2.btype = .none ∧ ∀ d, r.1 = some d → d = bytesUpTo r.2.bbm.data r.2.bbm.size

theorem lib_size (hpos : 1 ≤ c.width) :
    c.height * (headerSizes c.D.type c.D.planes c.width).1 * (headerSizes c.D.type c.D.planes c.width).2 = c.size := by
  unfold GetCall.size
  rw [Int.mul_assoc, linesize_agrees c.D hpos c.range, ← Int.mul_assoc]

theorem w_getblock_accepted (h : c.Accepted) (hb : b.btype = .none) :
    ∃ b' : Transfer, b'.Sending c.bitmap c.size ∧ ∀ stale fuel,
      w_getblock c stale fuel b = getblockLoop c.big stale fuel 0 c.size [] b' := by
  obtain ⟨-, hret, hs⟩ | ⟨hno, -⟩ := client_getblockreq_cases c hb h.positive h.memory.1
  · refine ⟨_, hs, fun stale fuel => ?_⟩
    unfold w_getblock
    dsimp only
    have hm := h.memory
    have hp := h.positive
    rw [lib_size c h.positive.1, hret, if_neg, if_neg (not_not_intro rfl)]
    rw [hm.1]
    simp only [Bool.true_eq_false, false_or]
    omega
  · exact absurd h hno

theorem w_getblock_refused (stale : Nat → Nat → Byte) (fuel : Nat) (h : ¬ c.Accepted)
    (hb : b.btype = .none) : ∃ b', w_getblock c stale fuel b = some (none, b') ∧ b'.btype = .none := by
  unfold w_getblock
  dsimp only
  split_ifs with hbad hret
  · exact ⟨b, rfl, hb⟩
  · have hpos : 1 ≤ c.width ∧ 1 ≤ c.height := by omega
    have ha : c.alloc = true := by simpa using fun h => hbad (Or.inl h)
    obtain ⟨hacc, -⟩ | ⟨-, -, hbt⟩ := client_getblockreq_cases c hb hpos ha
    · exact absurd hacc h
    · exact ⟨_, rfl, hbt⟩
  · have hpos : 1 ≤ c.width ∧ 1 ≤ c.height := by omega
    have ha : c.alloc = true := by simpa using fun h => hbad (Or.inl h)
    obtain ⟨hacc, -⟩ | ⟨-, hneg, -⟩ := client_getblockreq_cases c hb hpos ha
    · exact absurd hacc h
    · omega

theorem getLast_bytesUpTo (pixels : Nat → Byte) {n : Int} (h : 0 < n) :
    (bytesUpTo pixels n).getLast? = some (pixels (n.toNat - 1)) := by
  unfold bytesUpTo
  rw [getLast?_map, getLast?_range, if_neg (by omega)]
  rfl

theorem getblock_kept_iff (hb : b.btype = .none) :
    c.Kept b ↔ c.big = true ∨ ¬ c.Accepted ∨ ¬ Garbled c.size := by
  constructor
  · intro hk
    by_contra hno
    rw [not_or, not_or, not_not, not_not] at hno
    obtain ⟨hbig, hacc, hg⟩ := hno
    -- old bytes that differ from the last one of the bitmap
    have hdiffer : c.pixels (c.size.toNat - 1) + 1 ≠ c.pixels (c.size.toNat - 1) := by
      generalize c.pixels _ = x
      revert x
      decide
    obtain ⟨b', hs, he⟩ := w_getblock_accepted c hacc hb
    obtain ⟨fuel, d, r, hrun, hbm, hlast⟩ := getblockLoop_garbled hs hacc.size_pos hg
      (c.pixels (c.size.toNat - 1) + 1)
    have hfalse : c.big = false := by simpa using hbig
    have hrun' := he (fun _ _ => c.pixels (c.size.toNat - 1) + 1) fuel
    rw [hfalse] at hrun'
    obtain ⟨-, hd⟩ := hk _ fuel _ (hrun'.trans hrun)
    have hd' := hd d rfl
    dsimp only at hd'
    rw [hbm] at hd'
    rw [hd'] at hlast
    have hsame := (getLast_bytesUpTo c.pixels hacc.size_pos).symm.trans hlast
    exact hdiffer (Option.some.inj hsame).symm
  · intro hc stale fuel r hr
    by_cases hacc : c.Accepted
    · obtain ⟨b', hs, he⟩ := w_getblock_accepted c hacc hb
      rw [he] at hr
      cases hbig : c.big with
      | true =>
        rw [hbig] at hr
        have hstart : getblockLoop true stale fuel 0 c.size (bytesUpTo c.bitmap.data (c.bitmap.size - c.size)) b' =
            some r := by
          rw [show c.bitmap.size - c.size = 0 from Int.sub_self _]
          exact hr
        obtain ⟨h1, h2, h3⟩ := getblockLoop_big hs hstart
        refine ⟨h1, fun d hd => ?_⟩
        rw [h2]
        exact Option.some.inj (hd.symm.trans h3)
      | false =>
        rw [hbig] at hr
        have hg : ¬ Garbled c.size := by
          rcases hc with h | h | h
          · rw [hbig] at h
            cases h
          · exact absurd hacc h
          · exact h
        obtain ⟨h1, h2, h3⟩ := getblockLoop_little hs hacc.size_pos hg hr
        refine ⟨h1, fun d hd => ?_⟩
        rw [h2]
        exact h3 d hd
    · obtain ⟨b', he, hbt⟩ := w_getblock_refused c stale fuel hacc hb
      rw [he] at hr
      obtain rfl := Option.some.inj hr
      exact ⟨hbt, fun d hd => by cases hd⟩

variable (row : Nat → Nat → Byte)

theorem length_putPaket (linesize r count : Nat) :
    (putPaket row linesize r count).length = count * linesize := by
  unfold putPaket
  rw [length_map, length_range]

theorem putPaket_byte {linesize r count i : Nat} (hl : 0 < linesize)
    (h0 : r * linesize ≤ i) (hi : i < (r + count) * linesize) :
    (putPaket row linesize r count).getD (i - r * linesize) 0 = row (i / linesize) (i % linesize) := by
  obtain ⟨k, rfl⟩ := Nat.exists_eq_add_of_le h0
  have hk : k < count * linesize := by
    rw [Nat.add_mul] at hi
    omega
  have hlen := length_putPaket row linesize r count
  rw [Nat.add_sub_cancel_left, getD_eq_getElem _ _ (by omega)]
  unfold putPaket
  rw [getElem_map, getElem_range, Nat.add_comm (r * linesize), Nat.add_mul_div_right _ _ hl,
    Nat.add_mul_mod_self_right, Nat.add_comm r]

structure Transfer.Receiving (b : Transfer) (linesize : Nat) (row : Nat → Nat → Byte) (r : Nat) (height : Int) :
    Prop where
  btype : b.btype = .put
  bsize : b.bsize = height * linesize
  bptr : b.bptr = r * linesize
  data : ∀ i, i < r * linesize → b.bbm.data i = row (i / linesize) (i % linesize)

structure Drawing.Whole (d : Drawing) (linesize : Nat) (row : Nat → Nat → Byte) (height : Int) : Prop where
  sent : d.sent = height * linesize
  data : ∀ i : Nat, (i : Int) < d.sent → d.data i = row (i / linesize) (i % linesize)

theorem client_putblockdata_eq {linesize r : Nat} (count : Nat) {row : Nat → Nat → Byte} {height : Int}
    (h : b.Receiving linesize row r height) (hl : 0 < linesize) (hc : (count : Int) ≤ height) : ∃ data : Nat → Byte,
      (∀ i, i < (r + count) * linesize → data i = row (i / linesize) (i % linesize)) ∧
      b.client_putblockdata (putPaket row linesize r count) =
        (if (height - count) * linesize < 1 then some ⟨((r + count) * linesize : Nat), data⟩ else none,
          ({ b with bbm := { b.bbm with data } }).advance (count * linesize)) := by
  have hmul : (height - count) * linesize = height * linesize - count * linesize := Int.sub_mul ..
  have hcount : b.count ((putPaket row linesize r count).length : Int) = count * linesize := by
    have hle : 0 ≤ (height - count) * linesize := mul_nonneg (by omega) (by omega)
    unfold Transfer.count
    rw [length_putPaket, h.bsize, Int.natCast_mul]
    split_ifs <;> omega
  have hptr : b.bptr = ((r * linesize : Nat) : Int) := by
    rw [h.bptr, Int.natCast_mul]
  have hsum : b.bptr + (count : Int) * linesize = ((r + count) * linesize : Nat) := by
    rw [h.bptr]
    push_cast
    ring
  refine ⟨fun i => if b.bptr ≤ i ∧ (i : Int) < b.bptr + count * linesize then
    (putPaket row linesize r count).getD (i - b.bptr).toNat 0 else b.bbm.data i, fun i hi => ?_, ?_⟩
  · dsimp only
    rw [hsum, hptr]
    by_cases hlow : r * linesize ≤ i
    · rw [if_pos ⟨by omega, by omega⟩, show ((i : Int) - ((r * linesize : Nat) : Int)).toNat = i - r * linesize by omega]
      exact putPaket_byte row hl hlow hi
    · rw [if_neg (by omega)]
      exact h.data i (by omega)
  · unfold Transfer.client_putblockdata
    rw [if_neg (by rw [h.btype]; decide)]
    dsimp only
    rw [hcount, hsum, h.bsize, ← hmul]

theorem putblockLoop_spec {lines linesize : Nat} {row : Nat → Nat → Byte} (hl : 0 < linesize) (hn : 0 < lines)
    {fuel r : Nat} {height : Int} {drawn : List Drawing} (h : b.Receiving linesize row r height)
    (hh : 0 < height) (hf : height ≤ fuel) {q : List Drawing × Transfer}
    (hq : putblockLoop lines linesize row fuel height r drawn b = some q) :
    q.2.btype = .none ∧ ∃ d : Drawing, q.1 = drawn ++ [d] ∧ d.Whole linesize row (r + height) := by
  induction fuel generalizing b r height drawn with
  | zero => omega
  | succ fuel ih =>
    rw [putblockLoop, if_neg (by omega)] at hq
    dsimp only at hq
    obtain ⟨data, hdata, he⟩ := client_putblockdata_eq (min lines height.toNat) h hl (by omega)
    split_ifs at hq
    rw [he] at hq
    dsimp only at hq
    by_cases hlast : height ≤ lines
    · -- the rest fits in the paket
      have hcount : ((min lines height.toNat : Nat) : Int) = height := by omega
      rw [hcount, Int.sub_self, Int.zero_mul, if_pos Int.zero_lt_one] at hq
      have hstop (fuel' : Nat) (d : List Drawing) (b' : Transfer) (r' : Nat) :
          putblockLoop lines linesize row fuel' (height - lines) r' d b' = some (d, b') := by
        cases fuel' with
        | zero => rfl
        | succ fuel' => rw [putblockLoop, if_pos (by omega)]
      rw [hstop] at hq
      obtain rfl := Option.some.inj hq
      refine ⟨?_, _, rfl, ?_, fun i hi => hdata i (Int.ofNat_lt.mp hi)⟩
      · unfold Transfer.advance
        dsimp only
        rw [h.bsize, Int.sub_self, if_pos Int.zero_lt_one]
      · rw [Int.natCast_mul, Int.natCast_add, hcount]
    · have hcount : min lines height.toNat = lines := by omega
      have hpos : 0 < (height - lines) * linesize := mul_pos (by omega) (by omega)
      rw [hcount] at hq hdata
      rw [if_neg (by omega)] at hq
      have hmul : (height - lines) * linesize = height * linesize - lines * linesize := Int.sub_mul ..
      have hnext : Transfer.Receiving (Transfer.advance { b with bbm := { b.bbm with data } } (lines * linesize))
          linesize row (r + lines) (height - lines) := by
        refine ⟨?_, ?_, ?_, hdata⟩
        · unfold Transfer.advance
          dsimp only
          rw [h.bsize, if_neg (by omega), h.btype]
        · change b.bsize - lines * linesize = _
          rw [h.bsize, hmul]
        · change b.bptr + lines * linesize = _
          rw [h.bptr]
          push_cast
          ring
      obtain ⟨h1, d, h2, h3⟩ := ih hnext (by omega) (by omega) hq
      refine ⟨h1, d, ?_, ?_⟩
      · rw [h2, Option.toList_none, append_nil]
      · have hsum : ((r + lines : Nat) : Int) + (height - lines) = r + height := by omega
        rwa [hsum] at h3

theorem client_putblockreq_cases (c : PutCall) (hb : b.btype = .none) (hcont : c.win.container = false) :
    (1 ≤ c.width ∧ 1 ≤ c.height ∧
      (c.D.client_putblockreq b (some c.win) c.width c.height c.mem c.data).1 = c.height * c.D.unitsize * c.D.upl c.width ∧
      (c.D.client_putblockreq b (some c.win) c.width c.height c.mem c.data).2 =
        { btype := .put, bsize := c.height * c.D.unitsize * c.D.upl c.width, bptr := 0
          bbm := (c.D.createbm c.width c.height c.mem c.data).1 }) ∨
    ((c.D.client_putblockreq b (some c.win) c.width c.height c.mem c.data).2.btype = .none ∧
      ((c.D.client_putblockreq b (some c.win) c.width c.height c.mem c.data).1 = -3 ∨
        1 ≤ c.height ∧ (c.D.client_putblockreq b (some c.win) c.width c.height c.mem c.data).1 = -4)) := by
  unfold ScreenDriver.client_putblockreq
  dsimp only
  rw [if_neg (by rw [hcont]; exact Bool.false_ne_true)]
  split_ifs with hbad hmem
  · exact Or.inr ⟨hb, Or.inl rfl⟩
  · exact Or.inr ⟨rfl, Or.inr ⟨by omega, rfl⟩⟩
  · exact Or.inl ⟨by omega, by omega, rfl, rfl⟩

def PutCall.Kept (c : PutCall) (b : Transfer) : Prop :=
  ∀ r, w_putblock c b = some r → r.2.2.btype = .none ∧
    (r.1 = 0 → ∃ d : Drawing, r.2.1 = [d] ∧
      d.Whole (c.D.unitsize * c.D.upl c.width).toNat c.row c.height)

theorem putblock_kept (c : PutCall) (hb : b.btype = .none) (hcont : c.win.container = false) : c.Kept b := by
  intro r hr
  have heven := linesize_even c.D c.width
  rw [Int.mul_comm] at heven
  unfold w_putblock at hr
  dsimp only at hr
  have hcases := client_putblockreq_cases c hb hcont
  have hsize (h1 : 1 ≤ c.width) := linesize_agrees c.D h1 c.range
  rw [Int.mul_comm] at hsize
  generalize (headerSizes c.D.type c.D.planes c.width).2 * (headerSizes c.D.type c.D.planes c.width).1 = size at hr heven hsize
  split_ifs at hr with h0 hbad hret
  · obtain rfl := Option.some.inj hr
    exact ⟨hb, fun h => absurd (show (-1 : Int) = 0 from h) (by decide)⟩
  · obtain rfl := Option.some.inj hr
    refine ⟨?_, fun h => absurd (show (-1 : Int) = 0 from h) (by decide)⟩
    obtain ⟨h1, -, he, -⟩ | ⟨hbt, -⟩ := hcases
    · refine absurd (he.trans ?_) hret
      rw [hsize h1]
      ring
    · exact hbt
  · rw [not_not] at hret
    obtain ⟨h1, h2, he, hb'⟩ | ⟨-, herr | ⟨hh, herr⟩⟩ := hcases
    · have hpos : 0 < size := by omega
      have hlines : 0 < (PAKET_DATA / size).toNat := by
        have : 1 ≤ PAKET_DATA / size := (Int.le_ediv_iff_mul_le hpos).mpr (by omega)
        omega
      have hrec : Transfer.Receiving
          (c.D.client_putblockreq b (some c.win) c.width c.height c.mem c.data).2 size.toNat c.row 0 c.height := by
        rw [hb']
        refine ⟨rfl, ?_, ?_, fun i hi => ?_⟩
        · change c.height * c.D.unitsize * c.D.upl c.width = _
          rw [Int.toNat_of_nonneg hpos.le, hsize h1]
          ring
        · rw [Int.natCast_zero, Int.zero_mul]
        · omega
      obtain ⟨q, hq, rfl⟩ := Option.map_eq_some_iff.mp hr
      obtain ⟨hbt, d, hd, hwhole⟩ := putblockLoop_spec (by omega) hlines hrec (by omega) (by omega) hq
      refine ⟨hbt, fun _ => ⟨d, hd, ?_⟩⟩
      rw [← hsize h1]
      rwa [Int.natCast_zero, Int.zero_add] at hwhole
    · -- a line has an even number of bytes
      rw [herr] at hret
      have := Int.emod_emod_of_dvd (size * c.height) (show (2 : Int) ∣ 2 from dvd_rfl)
      have hodd : (size * c.height) % 2 = 0 := by
        rw [Int.mul_emod, heven, Int.zero_mul, Int.zero_emod]
      omega
    · have : 0 < size * c.height := mul_pos (by omega) (by omega)
      omega

/-- The block calls keep their promise exactly when the size of a `w_getblock` is not garbled. -/
theorem block_calls_kept_iff (hb : b.btype = .none) (g : GetCall) (p : PutCall) (hp : p.win.container = false) :
    g.Kept b ∧ p.Kept b ↔ g.big = true ∨ ¬ g.Accepted ∨ ¬ Garbled g.size := by
  rw [and_iff_left (putblock_kept p hb hp)]
  exact getblock_kept_iff g hb

def noTransfer : Transfer := { btype := .none, bsize := 0, bptr := 0, bbm := ⟨0, 0, 0, 0, fun _ => 0⟩ }

def blockOf2044 (big : Bool) : GetCall where
  big := big
  D := .direct8
  win := ⟨false, 8, 600⟩
  x0 := 2
  y0 := 0
  width := 4
  height := 511
  range := by decide
  alloc := true
  mem := true
  pixels := fun i => BitVec.ofNat 8 i

def threeLines : PutCall where
  D := .packed_color 4 (by decide)
  win := ⟨false, 8, 600⟩
  width := 20
  height := 3
  range := by decide
  conv := true
  mem := true
  data := fun _ => 0
  row := fun y x => BitVec.ofNat 8 (y + x)

theorem block_calls_kept_big : (blockOf2044 true).Kept noTransfer ∧ threeLines.Kept noTransfer :=
  (block_calls_kept_iff rfl (blockOf2044 true) threeLines rfl).mpr (Or.inl rfl)

theorem getblock_garbled : ¬ (blockOf2044 false).Kept noTransfer := by
  rw [getblock_kept_iff (blockOf2044 false) rfl, not_or, not_or, not_not, not_not]
  refine ⟨Bool.false_ne_true, ⟨⟨rfl, rfl, by decide⟩, rfl, by decide, by decide⟩, by decide, 2, by decide, by decide⟩

end WWindowSystem
