import WWindowSystem.Library.Snapshot

namespace WWindowSystem.Graph.Packed

abbrev Memory := Int → BitVec 16

def bfmask16 : List (List (BitVec 16)) :=
  [[0x8000, 0xC000, 0xE000, 0xF000, 0xF800, 0xFC00, 0xFE00, 0xFF00, 0xFF80, 0xFFC0, 0xFFE0, 0xFFF0, 0xFFF8, 0xFFFC, 0xFFFE, 0xFFFF],
    [0x4000, 0x6000, 0x7000, 0x7800, 0x7C00, 0x7E00, 0x7F00, 0x7F80, 0x7FC0, 0x7FE0, 0x7FF0, 0x7FF8, 0x7FFC, 0x7FFE, 0x7FFF, 0x0000],
    [0x2000, 0x3000, 0x3800, 0x3C00, 0x3E00, 0x3F00, 0x3F80, 0x3FC0, 0x3FE0, 0x3FF0, 0x3FF8, 0x3FFC, 0x3FFE, 0x3FFF, 0x0000, 0x0000],
    [0x1000, 0x1800, 0x1C00, 0x1E00, 0x1F00, 0x1F80, 0x1FC0, 0x1FE0, 0x1FF0, 0x1FF8, 0x1FFC, 0x1FFE, 0x1FFF, 0x0000, 0x0000, 0x0000],
    [0x0800, 0x0C00, 0x0E00, 0x0F00, 0x0F80, 0x0FC0, 0x0FE0, 0x0FF0, 0x0FF8, 0x0FFC, 0x0FFE, 0x0FFF, 0x0000, 0x0000, 0x0000, 0x0000],
    [0x0400, 0x0600, 0x0700, 0x0780, 0x07C0, 0x07E0, 0x07F0, 0x07F8, 0x07FC, 0x07FE, 0x07FF, 0x0000, 0x0000, 0x0000, 0x0000, 0x0000],
    [0x0200, 0x0300, 0x0380, 0x03C0, 0x03E0, 0x03F0, 0x03F8, 0x03FC, 0x03FE, 0x03FF, 0x0000, 0x0000, 0x0000, 0x0000, 0x0000, 0x0000],
    [0x0100, 0x0180, 0x01C0, 0x01E0, 0x01F0, 0x01F8, 0x01FC, 0x01FE, 0x01FF, 0x0000, 0x0000, 0x0000, 0x0000, 0x0000, 0x0000, 0x0000],
    [0x0080, 0x00C0, 0x00E0, 0x00F0, 0x00F8, 0x00FC, 0x00FE, 0x00FF, 0x0000, 0x0000, 0x0000, 0x0000, 0x0000, 0x0000, 0x0000, 0x0000],
    [0x0040, 0x0060, 0x0070, 0x0078, 0x007C, 0x007E, 0x007F, 0x0000, 0x0000, 0x0000, 0x0000, 0x0000, 0x0000, 0x0000, 0x0000, 0x0000],
    [0x0020, 0x0030, 0x0038, 0x003C, 0x003E, 0x003F, 0x0000, 0x0000, 0x0000, 0x0000, 0x0000, 0x0000, 0x0000, 0x0000, 0x0000, 0x0000],
    [0x0010, 0x0018, 0x001C, 0x001E, 0x001F, 0x0000, 0x0000, 0x0000, 0x0000, 0x0000, 0x0000, 0x0000, 0x0000, 0x0000, 0x0000, 0x0000],
    [0x0008, 0x000C, 0x000E, 0x000F, 0x0000, 0x0000, 0x0000, 0x0000, 0x0000, 0x0000, 0x0000, 0x0000, 0x0000, 0x0000, 0x0000, 0x0000],
    [0x0004, 0x0006, 0x0007, 0x0000, 0x0000, 0x0000, 0x0000, 0x0000, 0x0000, 0x0000, 0x0000, 0x0000, 0x0000, 0x0000, 0x0000, 0x0000],
    [0x0002, 0x0003, 0x0000, 0x0000, 0x0000, 0x0000, 0x0000, 0x0000, 0x0000, 0x0000, 0x0000, 0x0000, 0x0000, 0x0000, 0x0000, 0x0000],
    [0x0001, 0x0000, 0x0000, 0x0000, 0x0000, 0x0000, 0x0000, 0x0000, 0x0000, 0x0000, 0x0000, 0x0000, 0x0000, 0x0000, 0x0000, 0x0000]]

def bfmask (dbit todo : Int) : BitVec 16 := (bfmask16.getD dbit.toNat []).getD todo.toNat 0

def shl (x : BitVec 16) (n : Int) : BitVec 16 := x <<< n.toNat

def shr (x : BitVec 16) (n : Int) : BitVec 16 := x >>> n.toNat

def aligned (m : Memory) (sptr sbit splanes dbit todo : Int) : BitVec 16 :=
  if sbit ≠ 0 then
    if sbit + todo > 16 then shl (m sptr) (sbit - dbit) ||| shr (m (sptr + splanes)) (16 - sbit + dbit)
    else if sbit ≥ dbit then shl (m sptr) (sbit - dbit)
    else shr (m sptr) (dbit - sbit)
  else shr (m sptr) dbit

def whole (m : Memory) (sptr sbit splanes dbit : Int) : BitVec 16 :=
  if sbit ≠ 0 then shl (m sptr) sbit ||| shr (m (sptr + splanes)) dbit else m sptr

def shorts2right (splanes dplanes sbit dbit : Int) : Nat → Int → Int → Memory → Int × Int × Memory
  | 0, sptr, dptr, m => (sptr, dptr, m)
  | todo + 1, sptr, dptr, m =>
    shorts2right splanes dplanes sbit dbit todo (sptr + splanes) (dptr + dplanes)
      (Function.update m dptr (whole m sptr sbit splanes dbit))

def last2right (sbit splanes dbit width : Int) : Int × Int × Memory → Memory
  | (sptr, dptr, m) =>
    if width = 0 then m
    else blendAt m dptr (bfmask 0 (width - 1))
      (if sbit + width > 16 then shl (m sptr) sbit ||| shr (m (sptr + splanes)) dbit else shl (m sptr) sbit)

def rest2right (sptr sbit splanes dptr dplanes width : Int) (m : Memory) : Memory :=
  last2right sbit splanes (16 - sbit) (width % 16)
    (shorts2right splanes dplanes sbit (16 - sbit) (width / 16).toNat sptr dptr m)

def bitline2right (sptr sbit splanes dptr dbit dplanes width : Int) (m : Memory) : Memory :=
  if dbit ≠ 0 then
    let todo := if 16 - dbit > width then width else 16 - dbit
    let m := blendAt m dptr (bfmask dbit (todo - 1)) (aligned m sptr sbit splanes dbit todo)
    let width := width - todo
    if width ≤ 0 then m
    else if (sbit + todo) / 16 % 2 = 1 then
      rest2right (sptr + splanes) ((sbit + todo) % 16) splanes (dptr + dplanes) dplanes width m
    else rest2right sptr (sbit + todo) splanes (dptr + dplanes) dplanes width m
  else rest2right sptr sbit splanes dptr dplanes width m

def shorts2left (splanes dplanes sbit dbit : Int) : Nat → Int → Int → Memory → Int × Int × Memory
  | 0, sptr, dptr, m => (sptr, dptr, m)
  | todo + 1, sptr, dptr, m =>
    shorts2left splanes dplanes sbit dbit todo (sptr - splanes) (dptr - dplanes)
      (Function.update m (dptr - dplanes) (whole m (sptr - splanes) sbit splanes dbit))

def part2left (sptr sbit splanes dptr dbit todo : Int) (m : Memory) : Int × Int × Memory :=
  let back := sbit - todo < 0
  let sbit := if back then sbit - todo + 16 else sbit - todo
  let sptr := if back then sptr - splanes else sptr
  (sptr, sbit, blendAt m dptr (bfmask dbit (todo - 1)) (aligned m sptr sbit splanes dbit todo))

def last2left (sbit splanes dplanes width : Int) : Int × Int × Memory → Memory
  | (sptr, dptr, m) =>
    if width = 0 then m else (part2left sptr sbit splanes (dptr - dplanes) (16 - width) width m).2.2

def rest2left (sptr sbit splanes dptr dplanes width : Int) (m : Memory) : Memory :=
  last2left sbit splanes dplanes (width % 16)
    (shorts2left splanes dplanes sbit (16 - sbit) (width / 16).toNat sptr dptr m)

def bitline2left (sptr sbit splanes dptr dbit dplanes width : Int) (m : Memory) : Memory :=
  if dbit ≠ 0 then
    let todo := if dbit > width then width else dbit
    let p := part2left sptr sbit splanes dptr (dbit - todo) todo m
    if width - todo ≤ 0 then p.2.2
    else rest2left p.1 p.2.1 splanes dptr dplanes (width - todo) p.2.2
  else rest2left sptr sbit splanes dptr dplanes width m

theorem bfmask_bit {dbit todo : Int} (hd : 0 ≤ dbit) (ht : 1 ≤ todo) (h : dbit + todo ≤ 16) {j : Nat} (hj : j < 16) :
    (bfmask dbit (todo - 1)).getMsbD j = decide (dbit.toNat ≤ j ∧ j < dbit.toNat + todo.toNat) := by
  have htable : ∀ d t : Fin 16, d.val + t.val < 16 →
      (bfmask16.getD d.val []).getD t.val 0 = (BitVec.allOnes 16 >>> d.val) &&& (BitVec.allOnes 16 <<< (15 - d.val - t.val)) := by
    decide +kernel
  unfold bfmask
  rw [htable ⟨dbit.toNat, by omega⟩ ⟨(todo - 1).toNat, by omega⟩ (by simp only; omega)]
  rw [BitVec.getMsbD_and, BitVec.getMsbD_ushiftRight, BitVec.getMsbD_shiftLeft, BitVec.getMsbD_allOnes,
    BitVec.getMsbD_allOnes, Bool.eq_iff_iff]
  simp only [Bool.and_eq_true, Bool.not_eq_true', decide_eq_true_eq, decide_eq_false_iff_not]
  omega

abbrev cell (ptr planes i : Int) : Int × Nat := bitCell 16 ptr planes i

theorem cell_next (ptr planes i : Int) : cell (ptr + planes) planes i = cell ptr planes (i + 16) := by
  unfold cell bitCell
  rw [show (i + 16) / ((16 : Nat) : Int) = i / ((16 : Nat) : Int) + 1 by omega,
    show (i + 16) % ((16 : Nat) : Int) = i % ((16 : Nat) : Int) by omega, add_mul, one_mul]
  congr 1
  omega

theorem cell_prev (ptr planes i : Int) : cell (ptr - planes) planes i = cell ptr planes (i - 16) := by
  have := cell_next (ptr - planes) planes (i - 16)
  rw [sub_add_cancel, sub_add_cancel] at this
  exact this.symm

theorem cell_first {ptr planes i : Int} (h0 : 0 ≤ i) (hi : i < 16) : cell ptr planes i = (ptr, i.toNat) := by
  unfold cell bitCell
  rw [show i / ((16 : Nat) : Int) = 0 by omega, show i % ((16 : Nat) : Int) = i by omega, zero_mul, add_zero]

theorem bitOf_first (m : Memory) {ptr planes i : Int} (h0 : 0 ≤ i) (hi : i < 16) :
    bitOf m (cell ptr planes i) = (m ptr).getMsbD i.toNat := by
  rw [cell_first h0 hi, bitOf]

theorem bitOf_second (m : Memory) {ptr planes i : Int} (h0 : 16 ≤ i) (hi : i < 32) :
    bitOf m (cell ptr planes i) = (m (ptr + planes)).getMsbD (i - 16).toNat := by
  rw [show i = i - 16 + 16 by omega, ← cell_next, cell_first (by omega) (by omega), bitOf]
  simp only [add_sub_cancel_right]

theorem aligned_bit (m : Memory) {sptr sbit splanes dbit todo i : Int} (hs : 0 ≤ sbit) (hs' : sbit < 16) (hd : 0 ≤ dbit)
    (h : dbit + todo ≤ 16) (hi : 0 ≤ i) (hi' : i < todo) :
    (aligned m sptr sbit splanes dbit todo).getMsbD (dbit + i).toNat = bitOf m (cell sptr splanes (sbit + i)) := by
  unfold aligned shl shr
  split_ifs with h0 htwo hge
  · rw [BitVec.getMsbD_or, BitVec.getMsbD_shiftLeft, BitVec.getMsbD_ushiftRight]
    by_cases hw : sbit + i < 16
    · rw [bitOf_first m (by omega) hw, show (dbit + i).toNat + (sbit - dbit).toNat = (sbit + i).toNat by omega]
      have : (dbit + i).toNat < (16 - sbit + dbit).toNat := by omega
      simp [this]
    · rw [bitOf_second m (by omega) (by omega), BitVec.getMsbD_of_ge _ _ (by omega),
        show (dbit + i).toNat - (16 - sbit + dbit).toNat = (sbit + i - 16).toNat by omega]
      have : ¬ (dbit + i).toNat < (16 - sbit + dbit).toNat := by omega
      have : (dbit + i).toNat < 16 := by omega
      simp [*]
  · rw [BitVec.getMsbD_shiftLeft, bitOf_first m (by omega) (by omega)]
    congr 1
    omega
  · rw [BitVec.getMsbD_ushiftRight, bitOf_first m (by omega) (by omega),
      show (dbit + i).toNat - (dbit - sbit).toNat = (sbit + i).toNat by omega]
    have : ¬ (dbit + i).toNat < (dbit - sbit).toNat := by omega
    have : (dbit + i).toNat < 16 := by omega
    simp [*]
  · rw [BitVec.getMsbD_ushiftRight, bitOf_first m (by omega) (by omega),
      show (dbit + i).toNat - dbit.toNat = (sbit + i).toNat by omega]
    have : ¬ (dbit + i).toNat < dbit.toNat := by omega
    have : (dbit + i).toNat < 16 := by omega
    simp [*]

theorem whole_aligned (m : Memory) {sptr sbit splanes : Int} (hs : 0 ≤ sbit) :
    whole m sptr sbit splanes (16 - sbit) = aligned m sptr sbit splanes 0 16 := by
  unfold whole aligned
  by_cases h0 : sbit = 0
  · rw [if_neg (not_not.mpr h0), if_neg (not_not.mpr h0)]
    exact (BitVec.ushiftRight_zero _).symm
  · rw [if_pos h0, if_pos h0, if_pos (by omega), sub_zero, add_zero]

theorem last_aligned (m : Memory) {sptr sbit splanes width : Int} (hs : 0 ≤ sbit) (hw : width < 16) :
    (if sbit + width > 16 then shl (m sptr) sbit ||| shr (m (sptr + splanes)) (16 - sbit) else shl (m sptr) sbit) =
      aligned m sptr sbit splanes 0 width := by
  unfold aligned
  by_cases h0 : sbit = 0
  · subst h0
    rw [if_neg (by omega), if_neg (by omega)]
    exact (BitVec.shiftLeft_zero _).trans (BitVec.ushiftRight_zero _).symm
  · rw [if_pos h0, sub_zero, add_zero, if_pos (by omega : sbit ≥ 0)]

def At (ptr planes bit : Int) (line : Int → Int × Nat) (k : Int) : Prop := ∀ i, cell ptr planes (bit + i) = line (k + i)

def ReadsAhead (src dst : Int → Int × Nat) (lo hi : Int) : Prop := ∀ i k, lo ≤ i → i < k → k < hi → src k ≠ dst i

def ReadsBehind (src dst : Int → Int × Nat) (lo hi : Int) : Prop := ∀ i k, lo ≤ i → i < k → k < hi → src i ≠ dst k

variable {src dst line : Int → Int × Nat} {sptr sbit splanes dptr dbit dplanes ptr planes bit k lo hi todo width : Int} {m : Memory}

theorem ReadsAhead.mono {lo' hi' : Int} (h : ReadsAhead src dst lo hi) (hlo : lo ≤ lo') (hhi : hi' ≤ hi) :
    ReadsAhead src dst lo' hi' :=
  fun i k h1 h2 h3 => h i k (by omega) h2 (by omega)

theorem ReadsBehind.mono {lo' hi' : Int} (h : ReadsBehind src dst lo hi) (hlo : lo ≤ lo') (hhi : hi' ≤ hi) :
    ReadsBehind src dst lo' hi' :=
  fun i k h1 h2 h3 => h i k (by omega) h2 (by omega)

theorem At.next (h : At ptr planes bit line k) : At (ptr + planes) planes bit line (k + 16) := by
  intro i
  rw [cell_next, add_assoc, h, add_assoc, add_comm i]

theorem At.prev (h : At ptr planes bit line k) : At (ptr - planes) planes bit line (k - 16) := by
  intro i
  rw [cell_prev, show bit + i - 16 = bit + (i - 16) by omega, h]
  congr 1
  omega

theorem At.step (h : At ptr planes bit line k) (t : Int) : At ptr planes (bit + t) line (k + t) := by
  intro i
  rw [add_assoc, h, add_assoc]

theorem At.injective (h : At ptr planes bit line k) (hp : planes ≠ 0) : Function.Injective line := by
  intro i j he
  have hi := h (i - k)
  have hj := h (j - k)
  rw [show k + (i - k) = i by omega] at hi
  rw [show k + (j - k) = j by omega] at hj
  have := bitCell_inj (by decide) hp (hi.trans (he.trans hj.symm))
  omega

theorem At.first (h : At ptr planes bit line k) {i : Int} (h0 : 0 ≤ bit + (i - k)) (h1 : bit + (i - k) < 16) :
    line i = (ptr, (bit + (i - k)).toNat) := by
  have := h (i - k)
  rw [cell_first h0 h1] at this
  rw [this]
  congr 1
  omega

theorem part_snapshot {mask new : BitVec 16} (hd : At dptr dplanes dbit dst k) (hdbit : 0 ≤ dbit) (ht : 0 ≤ todo)
    (h16 : dbit + todo ≤ 16) (hmask : ∀ j < 16, mask.getMsbD j = decide (dbit.toNat ≤ j ∧ j < dbit.toNat + todo.toNat))
    (hnew : ∀ i, 0 ≤ i → i < todo → new.getMsbD (dbit + i).toNat = bitOf m (src (k + i))) :
    Snapshot src dst (Set.Ico k (k + todo)) (bitOf m) (bitOf (blendAt m dptr mask new)) := by
  have hcast : ((todo.toNat : Nat) : Int) = todo := Int.toNat_of_nonneg ht
  rw [← hcast]
  apply blendAt_snapshot (d := dbit.toNat) (by omega) hmask
  · intro i hi hi'
    rw [hd.first (by omega) (by omega)]
    congr 2
    omega
  · intro i hi hi'
    have := hnew (i - k) (by omega) (by omega)
    rw [show k + (i - k) = i by omega] at this
    rw [← this]
    congr 2
    omega

theorem aligned_snapshot (hs : At sptr splanes sbit src k) (hsbit : 0 ≤ sbit) (hsbit' : sbit < 16)
    (hd : At dptr dplanes dbit dst k) (hdbit : 0 ≤ dbit) (ht : 1 ≤ todo) (h16 : dbit + todo ≤ 16) :
    Snapshot src dst (Set.Ico k (k + todo)) (bitOf m)
      (bitOf (blendAt m dptr (bfmask dbit (todo - 1)) (aligned m sptr sbit splanes dbit todo))) := by
  apply part_snapshot hd hdbit (by omega) h16
  · intro j hj
    exact bfmask_bit hdbit ht h16 hj
  · intro i hi hi'
    rw [aligned_bit m hsbit hsbit' hdbit h16 hi hi', hs]

theorem whole_snapshot (hs : At sptr splanes sbit src k) (hsbit : 0 ≤ sbit) (hsbit' : sbit < 16)
    (hd : At dptr dplanes 0 dst k) : Snapshot src dst (Set.Ico k (k + 16)) (bitOf m)
      (bitOf (Function.update m dptr (whole m sptr sbit splanes (16 - sbit)))) := by
  rw [← blendAt_allOnes, whole_aligned m hsbit]
  apply part_snapshot hd le_rfl (by omega) le_rfl
  · intro j hj
    rw [BitVec.getMsbD_allOnes]
    simp [hj]
  · intro i hi hi'
    rw [aligned_bit m hsbit hsbit' le_rfl le_rfl hi hi', hs]

theorem shorts2right_snapshot (hsbit : 0 ≤ sbit) (hsbit' : sbit < 16) (hp : dplanes ≠ 0) (n : Nat)
    (hs : At sptr splanes sbit src k) (hd : At dptr dplanes 0 dst k) (hr : ReadsAhead src dst k (k + 16 * n)) :
    At (shorts2right splanes dplanes sbit (16 - sbit) n sptr dptr m).1 splanes sbit src (k + 16 * n) ∧
      At (shorts2right splanes dplanes sbit (16 - sbit) n sptr dptr m).2.1 dplanes 0 dst (k + 16 * n) ∧
      Snapshot src dst (Set.Ico k (k + 16 * n)) (bitOf m)
        (bitOf (shorts2right splanes dplanes sbit (16 - sbit) n sptr dptr m).2.2) := by
  induction n generalizing sptr dptr k m with
  | zero =>
    simp only [Nat.cast_zero, mul_zero, add_zero]
    exact ⟨hs, hd, .nothing le_rfl⟩
  | succ n ih =>
    have he : k + 16 * ((n + 1 : Nat) : Int) = k + 16 + 16 * n := by
      push_cast
      omega
    rw [he] at hr ⊢
    obtain ⟨h1, h2, h3⟩ := ih (m := Function.update m dptr (whole m sptr sbit splanes (16 - sbit))) hs.next hd.next
      (hr.mono (by omega) le_rfl)
    exact ⟨h1, h2, (whole_snapshot hs hsbit hsbit' hd).forward h3 (by omega) (by omega) hr (hd.injective hp)⟩

theorem rest2right_snapshot (hsbit : 0 ≤ sbit) (hsbit' : sbit < 16) (hp : dplanes ≠ 0) (hw : 0 ≤ width)
    (hs : At sptr splanes sbit src k) (hd : At dptr dplanes 0 dst k) (hr : ReadsAhead src dst k (k + width)) :
    Snapshot src dst (Set.Ico k (k + width)) (bitOf m) (bitOf (rest2right sptr sbit splanes dptr dplanes width m)) := by
  unfold rest2right
  obtain ⟨h1, h2, h3⟩ := shorts2right_snapshot hsbit hsbit' hp (width / 16).toNat hs hd (hr.mono le_rfl (by omega)) (m := m)
  revert h1 h2 h3
  generalize shorts2right splanes dplanes sbit (16 - sbit) (width / 16).toNat sptr dptr m = r
  obtain ⟨sptr', dptr', m'⟩ := r
  intro h1 h2 h3
  simp only [last2right] at h1 h2 h3 ⊢
  by_cases h0 : width % 16 = 0
  · rwa [if_pos h0, ← show k + 16 * ((width / 16).toNat : Int) = k + width by omega]
  · rw [if_neg h0]
    have hlast := aligned_snapshot h1 hsbit hsbit' h2 le_rfl (show 1 ≤ width % 16 by omega) (by omega) (m := m')
    rw [← last_aligned m' hsbit (by omega), show k + 16 * ((width / 16).toNat : Int) + width % 16 = k + width by omega] at hlast
    exact h3.forward hlast (by omega) (by omega) hr (hd.injective hp)

theorem bitline2right_snapshot (hsbit : 0 ≤ sbit) (hsbit' : sbit < 16) (hdbit : 0 ≤ dbit) (hdbit' : dbit < 16)
    (hp : dplanes ≠ 0) (hw : 1 ≤ width) (hs : At sptr splanes sbit src k) (hd : At dptr dplanes dbit dst k)
    (hr : ReadsAhead src dst k (k + width)) : Snapshot src dst (Set.Ico k (k + width)) (bitOf m)
      (bitOf (bitline2right sptr sbit splanes dptr dbit dplanes width m)) := by
  unfold bitline2right
  by_cases h0 : dbit = 0
  · subst h0
    rw [if_neg (by simp)]
    exact rest2right_snapshot hsbit hsbit' hp (by omega) hs hd hr
  rw [if_pos h0]
  extract_lets todo m' width'
  have htodo : 1 ≤ todo ∧ dbit + todo ≤ 16 ∧ todo ≤ width ∧ (todo < width → dbit + todo = 16) := by
    simp only [todo]
    split_ifs <;> omega
  obtain ⟨ht1, ht2, ht3, ht4⟩ := htodo
  have hpart : Snapshot src dst (Set.Ico k (k + todo)) (bitOf m) (bitOf m') :=
    aligned_snapshot hs hsbit hsbit' hd hdbit ht1 ht2
  have hinj := hd.injective hp
  split_ifs with hdone hwrap
  · rwa [show todo = width by omega] at hpart
  · have hd' : At (dptr + dplanes) dplanes 0 dst (k + todo) := by
      have := (hd.step todo).next.step (-16)
      rwa [ht4 (by omega), show (16 : Int) + -16 = 0 by omega, show k + todo + 16 + -16 = k + todo by omega] at this
    have hs' : At (sptr + splanes) splanes ((sbit + todo) % 16) src (k + todo) := by
      have := (hs.step todo).next.step (-16)
      rwa [show sbit + todo + -16 = (sbit + todo) % 16 by omega, show k + todo + 16 + -16 = k + todo by omega] at this
    have hrest := rest2right_snapshot (m := m') (show 0 ≤ (sbit + todo) % 16 by omega) (by omega) hp (show 0 ≤ width' by omega) hs' hd'
      (hr.mono (by omega) (by omega))
    rw [show k + todo + width' = k + width by omega] at hrest
    exact hpart.forward hrest (by omega) (by omega) hr hinj
  · have hd' : At (dptr + dplanes) dplanes 0 dst (k + todo) := by
      have := (hd.step todo).next.step (-16)
      rwa [ht4 (by omega), show (16 : Int) + -16 = 0 by omega, show k + todo + 16 + -16 = k + todo by omega] at this
    have hrest := rest2right_snapshot (m := m') (show 0 ≤ sbit + todo by omega) (by omega) hp (show 0 ≤ width' by omega) (hs.step todo) hd'
      (hr.mono (by omega) (by omega))
    rw [show k + todo + width' = k + width by omega] at hrest
    exact hpart.forward hrest (by omega) (by omega) hr hinj

theorem shorts2left_snapshot (hsbit : 0 ≤ sbit) (hsbit' : sbit < 16) (hp : dplanes ≠ 0) (n : Nat)
    (hs : At sptr splanes sbit src k) (hd : At dptr dplanes 0 dst k) (hr : ReadsBehind src dst (k - 16 * n) k) :
    At (shorts2left splanes dplanes sbit (16 - sbit) n sptr dptr m).1 splanes sbit src (k - 16 * n) ∧
      At (shorts2left splanes dplanes sbit (16 - sbit) n sptr dptr m).2.1 dplanes 0 dst (k - 16 * n) ∧
      Snapshot src dst (Set.Ico (k - 16 * n) k) (bitOf m)
        (bitOf (shorts2left splanes dplanes sbit (16 - sbit) n sptr dptr m).2.2) := by
  induction n generalizing sptr dptr k m with
  | zero =>
    simp only [Nat.cast_zero, mul_zero, sub_zero]
    exact ⟨hs, hd, .nothing le_rfl⟩
  | succ n ih =>
    have he : k - 16 * ((n + 1 : Nat) : Int) = k - 16 - 16 * n := by
      push_cast
      omega
    rw [he] at hr ⊢
    obtain ⟨h1, h2, h3⟩ := ih (m := Function.update m (dptr - dplanes) (whole m (sptr - splanes) sbit splanes (16 - sbit)))
      hs.prev hd.prev (hr.mono le_rfl (by omega))
    have hfirst := whole_snapshot hs.prev hsbit hsbit' hd.prev (m := m)
    rw [sub_add_cancel] at hfirst
    exact ⟨h1, h2, hfirst.backward h3 (by omega) (by omega) hr (hd.injective hp)⟩

theorem part2left_snapshot (hsbit : 0 ≤ sbit) (hsbit' : sbit < 16) (hdbit : 0 ≤ dbit) (ht : 1 ≤ todo)
    (h16 : dbit + todo ≤ 16) (hs : At sptr splanes sbit src k) (hd : At dptr dplanes dbit dst (k - todo)) :
    At (part2left sptr sbit splanes dptr dbit todo m).1 splanes (part2left sptr sbit splanes dptr dbit todo m).2.1 src (k - todo) ∧
      0 ≤ (part2left sptr sbit splanes dptr dbit todo m).2.1 ∧ (part2left sptr sbit splanes dptr dbit todo m).2.1 < 16 ∧
      Snapshot src dst (Set.Ico (k - todo) k) (bitOf m) (bitOf (part2left sptr sbit splanes dptr dbit todo m).2.2) := by
  have hback : At (part2left sptr sbit splanes dptr dbit todo m).1 splanes (part2left sptr sbit splanes dptr dbit todo m).2.1 src
        (k - todo) ∧
      0 ≤ (part2left sptr sbit splanes dptr dbit todo m).2.1 ∧ (part2left sptr sbit splanes dptr dbit todo m).2.1 < 16 := by
    simp only [part2left]
    split_ifs with hneg
    · have := hs.prev.step (16 - todo)
      rw [show sbit + (16 - todo) = sbit - todo + 16 by omega, show k - 16 + (16 - todo) = k - todo by omega] at this
      exact ⟨this, by omega, by omega⟩
    · exact ⟨hs.step (-todo), by omega, by omega⟩
  obtain ⟨h1, h2, h3⟩ := hback
  refine ⟨h1, h2, h3, ?_⟩
  have := aligned_snapshot h1 h2 h3 hd hdbit ht h16 (m := m)
  rwa [sub_add_cancel] at this

theorem rest2left_snapshot (hsbit : 0 ≤ sbit) (hsbit' : sbit < 16) (hp : dplanes ≠ 0) (hw : 0 ≤ width)
    (hs : At sptr splanes sbit src k) (hd : At dptr dplanes 0 dst k) (hr : ReadsBehind src dst (k - width) k) :
    Snapshot src dst (Set.Ico (k - width) k) (bitOf m) (bitOf (rest2left sptr sbit splanes dptr dplanes width m)) := by
  unfold rest2left
  obtain ⟨h1, h2, h3⟩ := shorts2left_snapshot hsbit hsbit' hp (width / 16).toNat hs hd (hr.mono (by omega) le_rfl) (m := m)
  revert h1 h2 h3
  generalize shorts2left splanes dplanes sbit (16 - sbit) (width / 16).toNat sptr dptr m = r
  obtain ⟨sptr', dptr', m'⟩ := r
  intro h1 h2 h3
  simp only [last2left] at h1 h2 h3 ⊢
  by_cases h0 : width % 16 = 0
  · rwa [if_pos h0, ← show k - 16 * ((width / 16).toNat : Int) = k - width by omega]
  · rw [if_neg h0]
    have hd' := h2.prev.step (16 - width % 16)
    rw [zero_add, show k - 16 * ((width / 16).toNat : Int) - 16 + (16 - width % 16) =
      k - 16 * ((width / 16).toNat : Int) - width % 16 by omega] at hd'
    obtain ⟨-, -, -, hlast⟩ := part2left_snapshot hsbit hsbit' (by omega) (show 1 ≤ width % 16 by omega) (by omega) h1 hd' (m := m')
    rw [show k - 16 * ((width / 16).toNat : Int) - width % 16 = k - width by omega] at hlast
    exact h3.backward hlast (by omega) (by omega) hr (hd.injective hp)

theorem bitline2left_snapshot (hsbit : 0 ≤ sbit) (hsbit' : sbit < 16) (hdbit : 0 ≤ dbit) (hdbit' : dbit < 16)
    (hp : dplanes ≠ 0) (hw : 1 ≤ width) (hs : At sptr splanes sbit src k) (hd : At dptr dplanes dbit dst k)
    (hr : ReadsBehind src dst (k - width) k) : Snapshot src dst (Set.Ico (k - width) k) (bitOf m)
      (bitOf (bitline2left sptr sbit splanes dptr dbit dplanes width m)) := by
  unfold bitline2left
  by_cases h0 : dbit = 0
  · subst h0
    rw [if_neg (by simp)]
    exact rest2left_snapshot hsbit hsbit' hp (by omega) hs hd hr
  rw [if_pos h0]
  extract_lets todo p
  have htodo : 1 ≤ todo ∧ todo ≤ dbit ∧ todo ≤ width ∧ (todo < width → todo = dbit) := by
    simp only [todo]
    split_ifs <;> omega
  obtain ⟨ht1, ht2, ht3, ht4⟩ := htodo
  have hd' : At dptr dplanes (dbit - todo) dst (k - todo) := hd.step (-todo)
  obtain ⟨h1, h2, h3, hpart⟩ :=
    part2left_snapshot hsbit hsbit' (show 0 ≤ dbit - todo by omega) ht1 (by omega) hs hd' (m := m)
  split_ifs with hdone
  · rw [show k - todo = k - width by omega] at hpart
    exact hpart
  · rw [ht4 (by omega), sub_self] at hd'
    rw [← ht4 (by omega)] at hd'
    have hrest := rest2left_snapshot h2 h3 hp (show 0 ≤ width - todo by omega) h1 hd' (hr.mono (by omega) (by omega))
      (m := (part2left sptr sbit splanes dptr (dbit - todo) todo m).2.2)
    rw [show k - todo - (width - todo) = k - width by omega] at hrest
    exact hpart.backward hrest (by omega) (by omega) hr (hd.injective hp)

end WWindowSystem.Graph.Packed
