import WWindowSystem.Lib.Rows

namespace WWindowSystem

open List Function Option

def inShort (z : Int) : Option Int := if -32768 ≤ z ∧ z ≤ 32767 then some z else none

structure Levels where
  mingray : Int
  maxgray : Int
  threshold : Int

/-- The variables of the inner loop of `FSditherDirect` and `FSditherTruecolor`. -/
structure DitherState where
  FSerrors : Nat → Int
  errorptr : Nat
  color : List Byte
  cur : Int
  belowerr : Int
  bpreverr : Int

def errorGet (size : Nat) (FSerrors : Nat → Int) (i : Nat) : Option Int := if i < size then some (FSerrors i) else none

def errorSet (size : Nat) (FSerrors : Nat → Int) (i : Nat) (z : Int) : Option (Nat → Int) :=
  if i < size then some (Function.update FSerrors i z) else none

section Code

variable (size : Nat) (gray : List Byte → Option (Byte × List Byte)) (L : Levels)

def Levels.clamp (L : Levels) (cur : Int) : Int := if cur < 0 then 0 else if cur > L.maxgray then L.maxgray else cur

def ditherPixel (s : DitherState) : Option (Bool × DitherState) := do
  let err ← errorGet size s.FSerrors (s.errorptr + 1)
  let cur ← inShort ((s.cur + err + 8) / 16)
  let (value, color) ← gray s.color
  let cur ← inShort (cur + ((value.toNat : Int) - L.mingray))
  let cur := L.clamp cur
  let black := decide (cur < L.threshold)
  let cur ← inShort (if black then cur else cur - L.maxgray)
  -- propagate error fractions
  let bnexterr := cur
  let delta ← inShort (2 * cur)
  let cur ← inShort (cur + delta)
  let below ← inShort (s.bpreverr + cur)
  let FSerrors ← errorSet size s.FSerrors s.errorptr below
  let cur ← inShort (cur + delta)
  let bpreverr ← inShort (s.belowerr + cur)
  let cur ← inShort (cur + delta)
  some (black, ⟨FSerrors, s.errorptr + 1, color, cur, bnexterr, bpreverr⟩)

def ditherBits : Nat → BitVec 32 → BitVec 32 → DitherState → Option (BitVec 32 × DitherState)
  | 0, _, result, s => some (result, s)
  | bits + 1, bit, result, s => do
    let (black, s) ← ditherPixel size gray L s
    ditherBits bits (bit >>> 1) (if black then result ||| bit else result) s

def ditherLongs (big : Bool) (unit last : Nat) : Nat → DitherState → Option (List (BitVec 32) × DitherState)
  | 0, s => some ([], s)
  | x + 1, s => do
    let (result, s) ← ditherBits size gray L (if x ≠ 0 then unit else last) 0x80000000#32 0#32 s
    let (mono, s) ← ditherLongs big unit last x s
    some (ntohl big result :: mono, s)

def ditherRow (big : Bool) (unit last longs : Nat) (FSerrors : Nat → Int) (color : List Byte) :
    Option (List (BitVec 32) × (Nat → Int) × List Byte) := do
  let (mono, s) ← ditherLongs size gray L big unit last longs ⟨FSerrors, 0, color, 0, 0, 0⟩
  let FSerrors ← errorSet size s.FSerrors s.errorptr s.bpreverr
  some (mono, FSerrors, s.color)

def ditherRows (big : Bool) (unit last longs : Nat) : Nat → (Nat → Int) → List Byte → Option (List (BitVec 32) × List Byte)
  | 0, _, color => some ([], color)
  | height + 1, FSerrors, color => do
    let (mono, FSerrors, color) ← ditherRow size gray L big unit last longs FSerrors color
    let (rest, color) ← ditherRows big unit last longs height FSerrors color
    some (mono ++ rest, color)

end Code

def grayRange (l : List Int) : Int × Int :=
  l.foldl (fun r g => (if g < r.1 then g else r.1, if g > r.2 then g else r.2)) (255, 0)

def expandedLevels (l : List Int) : Levels :=
  let (mingray, maxgray) := grayRange l
  let maxgray := maxgray - mingray
  ⟨mingray, maxgray, if maxgray < 2 then 1 else maxgray / 2⟩

def readGrays (gray : List Byte → Option (Byte × List Byte)) : Nat → List Byte → Option (List Int)
  | 0, _ => some []
  | n + 1, s => do
    let (value, s) ← gray s
    let rest ← readGrays gray n s
    some ((value.toNat : Int) :: rest)

def grayDirect (mapping : Byte → Byte) (s : List Byte) : Option (Byte × List Byte) := (getByte s).map fun p => (mapping p.1, p.2)

def pixelGray (bm : BITMAP) (mapping : Byte → Byte) : List Byte → Option (Byte × List Byte) :=
  if bm.type = .direct24 then grayTruecolor else grayDirect mapping

def ditherLevels (expand : Bool) (bm : BITMAP) (mapping : Byte → Byte) (data : List Byte) : Option Levels :=
  if expand then
    if bm.type = .direct24 then (readGrays grayTruecolor (bm.height * bm.width) data).map expandedLevels
    else some (expandedLevels ((List.range bm.colors.toNat).reverse.map fun cur => ((mapping (BitVec.ofNat 8 cur)).toNat : Int)))
  else some ⟨0, 255, 127⟩

/-- `fs_direct2mono` that allocates its result, up to the data of the destination; also the rest of the source. The tests
are those of the type and the palette and of `w_allocbm`. -/
def fs_direct2mono (big expand : Bool) (mapping : Byte → Byte) (bm : BITMAP) (data : List Byte) : Option (List (BitVec 32) × List Byte) := do
  if bm.type ≠ .direct8 ∧ bm.type ≠ .direct24 ∨ bm.type = .direct8 ∧ bm.palette.isNone ∨ bm.width < 1 ∨ bm.height < 1 then none
  else
    let unit := M_UNIT * 8
    let longs := ((bm.width : Int) + (unit - 1)) / unit - 1
    let last := (if bm.type = .direct24 then bm.upl else bm.upl * bm.unitsize) - longs * unit
    let L ← ditherLevels expand bm mapping data
    ditherRows (bm.upl * bm.unitsize + 1).toNat (pixelGray bm mapping) L big unit.toNat last.toNat (longs + 1).toNat bm.height (fun _ => 0) data

/-! Floyd-Steinberg dithering of `n` columns with the errors of all rows. -/

section Floyd

variable (L : Levels) (n : Nat)

def before (f : Nat → Int) : Nat → Int
  | 0 => 0
  | c + 1 => f c

def carried (above : Nat → Int) (c : Nat) : Int := before above c + 5 * above c + 3 * (if c + 1 < n then above (c + 1) else 0)

def Levels.level (total g : Int) : Int := L.clamp ((total + 8) / 16 + (g - L.mingray))

def Levels.rest (v : Int) : Int := if v < L.threshold then v else v - L.maxgray

def rowErrors (g above : Nat → Int) : Nat → Int
  | 0 => L.rest (L.level (7 * 0 + carried n above 0) (g 0))
  | c + 1 => L.rest (L.level (7 * rowErrors g above c + carried n above (c + 1)) (g (c + 1)))

def fsErrors (g : Nat → Nat → Int) : Nat → Nat → Int
  | 0 => fun _ => 0
  | r + 1 => rowErrors L n (g r) (fsErrors g r)

def fsLevel (g : Nat → Nat → Int) (r c : Nat) : Int :=
  L.level (7 * before (fsErrors L n g (r + 1)) c + carried n (fsErrors L n g r) c) (g r c)

def fsBlack (g : Nat → Nat → Int) (r c : Nat) : Bool := decide (fsLevel L n g r c < L.threshold)

theorem fsErrors_succ (g : Nat → Nat → Int) (r c : Nat) : fsErrors L n g (r + 1) c = L.rest (fsLevel L n g r c) := by
  cases c <;> rfl

end Floyd

theorem inShort_of {z : Int} (h : -32768 ≤ z) (h' : z ≤ 32767) : inShort z = some z := if_pos ⟨h, h'⟩

structure Levels.Fits (L : Levels) : Prop where
  min : 0 ≤ L.mingray ∧ L.mingray ≤ 255
  max : 0 ≤ L.maxgray ∧ L.maxgray ≤ 255

section Bounds

variable {L : Levels} (hL : L.Fits) (n : Nat) (g : Nat → Nat → Int)
include hL

theorem Levels.Fits.clamp (cur : Int) : 0 ≤ L.clamp cur ∧ L.clamp cur ≤ L.maxgray := by
  have := hL.max
  unfold Levels.clamp
  split_ifs <;> omega

theorem Levels.Fits.rest (total v : Int) : -255 ≤ L.rest (L.level total v) ∧ L.rest (L.level total v) ≤ 255 := by
  have := hL.clamp ((total + 8) / 16 + (v - L.mingray))
  have := hL.max
  unfold Levels.rest Levels.level
  split_ifs <;> omega

theorem fsErrors_range (r c : Nat) : -255 ≤ fsErrors L n g r c ∧ fsErrors L n g r c ≤ 255 := by
  cases r with
  | zero => simp [fsErrors]
  | succ r =>
    rw [fsErrors_succ]
    exact hL.rest _ _

theorem before_range (r c : Nat) : -255 ≤ before (fsErrors L n g r) c ∧ before (fsErrors L n g r) c ≤ 255 := by
  cases c with
  | zero => simp [before]
  | succ c => exact fsErrors_range hL n g r c

theorem carried_range (r c : Nat) : -2295 ≤ carried n (fsErrors L n g r) c ∧ carried n (fsErrors L n g r) c ≤ 2295 := by
  have h1 := before_range hL n g r c
  have h2 := fsErrors_range hL n g r c
  have h3 := fsErrors_range hL n g r (c + 1)
  unfold carried
  split_ifs <;> omega

end Bounds

def leaves (f : Nat → Int) : Nat → Int
  | 0 => 0
  | c + 1 => before f c + 5 * f c

/-- The inner loop in the `r`-th row in front of the `x`-th column: behind `errorptr` the array has what the row above
has left, and up to it what this row leaves. -/
structure InRow (L : Levels) (n : Nat) (g : Nat → Nat → Int) (u : Nat) (data : List Byte) (r x : Nat) (s : DitherState) : Prop where
  ptr : s.errorptr = x
  color : s.color = data.drop (u * (r * n + x))
  cur : s.cur = 7 * before (fsErrors L n g (r + 1)) x
  below : s.belowerr = before (fsErrors L n g (r + 1)) x
  prev : s.bpreverr = leaves (fsErrors L n g (r + 1)) x
  old : ∀ c, x ≤ c → c < n → s.FSerrors (c + 1) = carried n (fsErrors L n g r) c
  new : ∀ c, c + 1 < x → s.FSerrors (c + 1) = carried n (fsErrors L n g (r + 1)) c

def Pictures (n : Nat) (g : Nat → Nat → Int) (gray : List Byte → Option (Byte × List Byte)) (u height : Nat) (data : List Byte) : Prop :=
  ∀ r < height, ∀ x < n, ∃ b : Byte, gray (data.drop (u * (r * n + x))) = some (b, data.drop (u * (r * n + x + 1))) ∧ g r x = b.toNat

section Rows

variable {L : Levels} {n : Nat} {g : Nat → Nat → Int} {gray : List Byte → Option (Byte × List Byte)} {u height size : Nat} {data : List Byte}

variable (f : Nat → Int)

theorem leaves_carried {x : Nat} (hx : x + 1 < n) : leaves f (x + 1) + 3 * f (x + 1) = carried n f x := by
  rw [carried, if_pos hx]
  rfl

theorem leaves_last {x : Nat} (hx : x + 1 = n) : leaves f (x + 1) = carried n f x := by
  rw [carried, if_neg (by omega)]
  simp [leaves]

variable {s : DitherState}

theorem pixel_step (hsize : n < size) (hL : L.Fits) (hg : Pictures n g gray u height data) {r x : Nat} (hr : r < height) (hx : x < n)
    (hs : InRow L n g u data r x s) :
    ∃ s', ditherPixel size gray L s = some (fsBlack L n g r x, s') ∧ InRow L n g u data r (x + 1) s' := by
  obtain ⟨b, hread, hgb⟩ := hg r hr x hx
  have hbyte : (b.toNat : Int) ≤ 255 := by
    have := b.isLt
    omega
  have hold := hs.old x (Nat.le_refl x) hx
  have hcarried := carried_range hL n g r x
  have hbefore := before_range hL n g (r + 1) x
  have herr := fsErrors_range hL n g (r + 1) x
  have hrest := fsErrors_succ L n g r x
  have hleaves : -1530 ≤ leaves (fsErrors L n g (r + 1)) x ∧ leaves (fsErrors L n g (r + 1)) x ≤ 1530 := by
    cases x with
    | zero => simp [leaves]
    | succ x =>
      have h1 := before_range hL n g (r + 1) x
      have h2 := fsErrors_range hL n g (r + 1) x
      simp only [leaves]
      omega
  have hmin := hL.min
  have hmax := hL.max
  have hclamp := hL.clamp ((7 * before (fsErrors L n g (r + 1)) x + carried n (fsErrors L n g r) x + 8) / 16 + (b.toNat - L.mingray))
  have hlevel : L.clamp ((7 * before (fsErrors L n g (r + 1)) x + carried n (fsErrors L n g r) x + 8) / 16 + (b.toNat - L.mingray)) =
      fsLevel L n g r x := by
    rw [fsLevel, Levels.level, hgb]
  have hget : errorGet size s.FSerrors (s.errorptr + 1) = some (carried n (fsErrors L n g r) x) := by
    rw [errorGet, hs.ptr, if_pos (by omega), hold]
  have hif : (if decide (fsLevel L n g r x < L.threshold) = true then fsLevel L n g r x else fsLevel L n g r x - L.maxgray) =
      fsErrors L n g (r + 1) x := by
    rw [hrest, Levels.rest]
    simp only [decide_eq_true_eq]
  have hset : errorSet size s.FSerrors s.errorptr (leaves (fsErrors L n g (r + 1)) x + (fsErrors L n g (r + 1) x + 2 * fsErrors L n g (r + 1) x)) =
      some (Function.update s.FSerrors x (leaves (fsErrors L n g (r + 1)) x + (fsErrors L n g (r + 1) x + 2 * fsErrors L n g (r + 1) x))) := by
    rw [errorSet, hs.ptr, if_pos (by omega)]
  unfold ditherPixel
  rw [hget, hs.cur, hs.below, hs.prev, hs.color]
  simp only [bind_eq_bind, bind_some]
  rw [inShort_of (by omega) (by omega), bind_some, hread, bind_some, inShort_of (by omega) (by omega), bind_some,
    hlevel, hif, inShort_of (by omega) (by omega), bind_some, inShort_of (by omega) (by omega), bind_some,
    inShort_of (by omega) (by omega), bind_some, inShort_of (by omega) (by omega), bind_some, hset, bind_some,
    inShort_of (by omega) (by omega), bind_some, inShort_of (by omega) (by omega), bind_some,
    inShort_of (by omega) (by omega), bind_some]
  refine ⟨_, rfl, ⟨by rw [hs.ptr], by rw [Nat.add_assoc], ?_, rfl, ?_, ?_, ?_⟩⟩
  · simp only [before]
    omega
  · simp only [leaves]
    omega
  · intro c hc hcn
    simp only
    rw [update_of_ne (by omega)]
    exact hs.old c (by omega) hcn
  · intro c hc
    simp only
    by_cases hlast : c + 1 = x
    · subst hlast
      rw [update_self, ← leaves_carried _ hx]
      omega
    · rw [update_of_ne hlast]
      exact hs.new c (by omega)

theorem hibit_at : ∀ i < 32, ∀ j < 32, (0x80000000#32 >>> i).getMsbD j = decide (j = i) := by decide +kernel

variable {r : Nat}

theorem bits_run (hsize : n < size) (hL : L.Fits) (hg : Pictures n g gray u height data) (hr : r < height) {m i x : Nat} (hx : x + m ≤ n) (hi : i + m ≤ 32)
    (result : BitVec 32) (hs : InRow L n g u data r x s) :
    ∃ w s', ditherBits size gray L m (0x80000000#32 >>> i) result s = some (w, s') ∧ InRow L n g u data r (x + m) s' ∧
      ∀ j < 32, w.getMsbD j = (result.getMsbD j || (decide (i ≤ j ∧ j < i + m) && fsBlack L n g r (x + (j - i)))) := by
  induction m generalizing i x result s with
  | zero =>
    refine ⟨result, s, rfl, hs, fun j _ => ?_⟩
    have hno : ¬ (i ≤ j ∧ j < i + 0) := by omega
    rw [decide_eq_false hno, Bool.false_and, Bool.or_false]
  | succ m ih =>
    obtain ⟨s1, hpixel, hs1⟩ := pixel_step hsize hL hg hr (show x < n by omega) hs
    obtain ⟨w, s2, hrun, hs2, hbits⟩ := ih (i := i + 1) (x := x + 1) (by omega) (by omega)
      (if fsBlack L n g r x = true then result ||| 0x80000000#32 >>> i else result) hs1
    refine ⟨w, s2, ?_, by rwa [show x + (m + 1) = x + 1 + m by omega], fun j hj => ?_⟩
    · rw [ditherBits, hpixel, bind_eq_bind, bind_some]
      simp only
      rw [← BitVec.shiftRight_add]
      exact hrun
    · have hfirst : (if fsBlack L n g r x = true then result ||| 0x80000000#32 >>> i else result).getMsbD j =
          (result.getMsbD j || (decide (j = i) && fsBlack L n g r x)) := by
        have hat := hibit_at i (by omega) j hj
        by_cases hb : fsBlack L n g r x = true
        · rw [if_pos hb, BitVec.getMsbD_or, hb, Bool.and_true]
          exact congrArg _ hat
        · rw [if_neg hb, Bool.eq_false_iff.mpr hb, Bool.and_false, Bool.or_false]
      rw [hbits j hj, hfirst, Bool.or_assoc]
      congr 1
      rcases Nat.lt_trichotomy j i with h | rfl | h
      · simp [show ¬ i ≤ j by omega, show ¬ i + 1 ≤ j by omega, show ¬ j = i by omega]
      · simp [show ¬ j + 1 ≤ j by omega, show j < j + (m + 1) by omega]
      · rw [show x + 1 + (j - (i + 1)) = x + (j - i) by omega]
        simp [show ¬ j = i by omega, show i ≤ j by omega, show i + 1 ≤ j by omega, show i + 1 + m = i + (m + 1) by omega]

def LongOf (L : Levels) (n : Nat) (g : Nat → Nat → Int) (r x : Nat) (w : BitVec 32) : Prop :=
  ∀ j < 32, w.getMsbD j = (decide (x + j < n) && fsBlack L n g r (x + j))

theorem longs_run (hsize : n < size) (hL : L.Fits) (hg : Pictures n g gray u height data) (big : Bool) (hr : r < height) {last k x : Nat} (hlast : last ≤ 32)
    (hx : x + (if k = 0 then 0 else 32 * (k - 1) + last) = n) (hs : InRow L n g u data r x s) :
    ∃ mono s', ditherLongs size gray L big 32 last k s = some (mono, s') ∧ InRow L n g u data r n s' ∧ mono.length = k ∧
      ∀ i < k, ∃ w, mono[i]? = some (ntohl big w) ∧ LongOf L n g r (x + 32 * i) w := by
  induction k generalizing x s with
  | zero =>
    rw [if_pos rfl, Nat.add_zero] at hx
    subst hx
    exact ⟨[], s, rfl, hs, rfl, by simp⟩
  | succ k ih =>
    rw [if_neg (Nat.succ_ne_zero k), Nat.add_sub_cancel] at hx
    have hbits : (if k ≠ 0 then 32 else last) ≤ 32 ∧ x + (if k ≠ 0 then 32 else last) ≤ n := by
      split_ifs with hk
      · obtain ⟨k, rfl⟩ := Nat.exists_eq_succ_of_ne_zero hk
        omega
      · omega
    obtain ⟨w, s1, hrun, hs1, hw⟩ := bits_run hsize hL hg hr hbits.2 (i := 0) (by omega) 0#32 hs
    have hrest : x + (if k ≠ 0 then 32 else last) + (if k = 0 then 0 else 32 * (k - 1) + last) = n := by
      by_cases hk : k = 0
      · subst hk
        simpa using hx
      · rw [if_pos hk, if_neg hk]
        omega
    obtain ⟨mono, s2, hlongs, hs2, hlen, hall⟩ := ih hrest hs1
    refine ⟨ntohl big w :: mono, s2, ?_, hs2, by rw [length_cons, hlen], ?_⟩
    · have hstart : ditherBits size gray L (if k ≠ 0 then 32 else last) 0x80000000#32 0#32 s = some (w, s1) := hrun
      rw [ditherLongs, hstart, bind_eq_bind, bind_some]
      simp only
      rw [hlongs, bind_eq_bind, bind_some]
    · intro i hi
      cases i with
      | zero =>
        refine ⟨w, rfl, fun j hj => ?_⟩
        rw [hw j hj, Nat.mul_zero, Nat.add_zero, Nat.sub_zero, BitVec.getMsbD_zero, Bool.false_or]
        congr 1
        simp only [decide_eq_decide]
        split_ifs with hk <;> omega
      | succ i =>
        obtain ⟨w', hw', hlong⟩ := hall i (by omega)
        refine ⟨w', hw', ?_⟩
        have hk : k ≠ 0 := by omega
        rw [if_pos hk] at hlong
        rwa [show x + 32 * (i + 1) = x + 32 + 32 * i by omega]

variable {F : Nat → Int}

theorem row_run (hsize : n < size) (hL : L.Fits) (hg : Pictures n g gray u height data) (big : Bool) (hr : r < height) {last longs : Nat} (hlast : last ≤ 32)
    (hpos : 0 < n) (hlongs : 0 < longs) (hn : 32 * (longs - 1) + last = n)
    (hF : ∀ c < n, F (c + 1) = carried n (fsErrors L n g r) c) :
    ∃ mono F', ditherRow size gray L big 32 last longs F (data.drop (u * (r * n))) = some (mono, F', data.drop (u * ((r + 1) * n))) ∧
      mono.length = longs ∧ (∀ i < longs, ∃ w, mono[i]? = some (ntohl big w) ∧ LongOf L n g r (32 * i) w) ∧
      ∀ c < n, F' (c + 1) = carried n (fsErrors L n g (r + 1)) c := by
  have hstart : InRow L n g u data r 0 ⟨F, 0, data.drop (u * (r * n)), 0, 0, 0⟩ :=
    ⟨rfl, rfl, rfl, rfl, rfl, fun c _ hc => hF c hc, fun c hc => by omega⟩
  obtain ⟨mono, s, hrun, hs, hlen, hall⟩ := longs_run hsize hL hg big hr (k := longs) hlast (by rw [if_neg (by omega)]; omega) hstart
  have hset : errorSet size s.FSerrors s.errorptr s.bpreverr = some (Function.update s.FSerrors n (leaves (fsErrors L n g (r + 1)) n)) := by
    rw [errorSet, hs.ptr, hs.prev, if_pos (by omega)]
  refine ⟨mono, Function.update s.FSerrors n (leaves (fsErrors L n g (r + 1)) n), ?_, hlen, fun i hi => by simpa using hall i hi,
    fun c hc => ?_⟩
  · rw [ditherRow, hrun, bind_eq_bind, bind_some]
    simp only
    rw [hset, bind_eq_bind, bind_some, hs.color, Nat.succ_mul]
  · by_cases hend : c + 1 = n
    · subst hend
      rw [update_self]
      exact leaves_last _ rfl
    · rw [update_of_ne hend]
      exact hs.new c (by omega)

theorem rows_run (hsize : n < size) (hL : L.Fits) (hg : Pictures n g gray u height data) (big : Bool) (last longs : Nat) (hlast : last ≤ 32) (hpos : 0 < n)
    (hlongs : 0 < longs) (hn : 32 * (longs - 1) + last = n) {h r : Nat} (hr : r + h = height)
    (hF : ∀ c < n, F (c + 1) = carried n (fsErrors L n g r) c) :
    ∃ mono, ditherRows size gray L big 32 last longs h F (data.drop (u * (r * n))) = some (mono, data.drop (u * (height * n))) ∧
      mono.length = h * longs ∧
      ∀ k < h, ∀ i < longs, ∃ w, mono[k * longs + i]? = some (ntohl big w) ∧ LongOf L n g (r + k) (32 * i) w := by
  induction h generalizing r F with
  | zero =>
    obtain rfl : r = height := by omega
    exact ⟨[], rfl, by simp, by simp⟩
  | succ h ih =>
    obtain ⟨row, F', hrow, hlen, hrows, hF'⟩ := row_run hsize hL hg big (show r < height by omega) hlast hpos hlongs hn hF
    obtain ⟨rest, hrest, hlen', hall⟩ := ih (r := r + 1) (by omega) hF'
    refine ⟨row ++ rest, ?_, by rw [length_append, hlen, hlen', Nat.succ_mul, Nat.add_comm], ?_⟩
    · rw [ditherRows, hrow, bind_eq_bind, bind_some]
      simp only
      rw [hrest, bind_eq_bind, bind_some]
    · intro k hk i hi
      cases k with
      | zero =>
        obtain ⟨w, hw, hlong⟩ := hrows i hi
        refine ⟨w, ?_, hlong⟩
        rw [Nat.zero_mul, Nat.zero_add, getElem?_append_left (by omega), hw]
      | succ k =>
        obtain ⟨w, hw, hlong⟩ := hall k (by omega) i hi
        refine ⟨w, ?_, ?_⟩
        · rw [getElem?_append_right (by rw [hlen, Nat.succ_mul]; omega), hlen,
            show (k + 1) * longs + i - longs = k * longs + i by rw [Nat.succ_mul]; omega, hw]
        · rwa [show r + (k + 1) = r + 1 + k by omega]

end Rows

theorem grayRange_fold (l : List Int) (r : Int × Int) :
    (l.foldl (fun r g => (if g < r.1 then g else r.1, if g > r.2 then g else r.2)) r).1 ≤ r.1 ∧
      r.2 ≤ (l.foldl (fun r g => (if g < r.1 then g else r.1, if g > r.2 then g else r.2)) r).2 ∧
      ∀ v ∈ l, (l.foldl (fun r g => (if g < r.1 then g else r.1, if g > r.2 then g else r.2)) r).1 ≤ v ∧
        v ≤ (l.foldl (fun r g => (if g < r.1 then g else r.1, if g > r.2 then g else r.2)) r).2 := by
  induction l generalizing r with
  | nil => simp
  | cons v l ih =>
    rw [foldl_cons]
    obtain ⟨h1, h2, h3⟩ := ih (if v < r.1 then v else r.1, if v > r.2 then v else r.2)
    have hlo : (if v < r.1 then v else r.1) ≤ r.1 ∧ (if v < r.1 then v else r.1) ≤ v := by
      split_ifs <;> omega
    have hhi : r.2 ≤ (if v > r.2 then v else r.2) ∧ v ≤ (if v > r.2 then v else r.2) := by
      split_ifs <;> omega
    simp only at h1 h2
    refine ⟨by omega, by omega, fun w hw => ?_⟩
    rcases mem_cons.mp hw with rfl | hw
    · exact ⟨by omega, by omega⟩
    · exact h3 w hw

theorem grayRange_bytes {l : List Int} (hl : ∀ v ∈ l, 0 ≤ v ∧ v ≤ 255) : 0 ≤ (grayRange l).1 ∧ (grayRange l).2 ≤ 255 := by
  have hinv : ∀ r : Int × Int, 0 ≤ r.1 ∧ r.2 ≤ 255 →
      0 ≤ (l.foldl (fun r g => (if g < r.1 then g else r.1, if g > r.2 then g else r.2)) r).1 ∧
        (l.foldl (fun r g => (if g < r.1 then g else r.1, if g > r.2 then g else r.2)) r).2 ≤ 255 := by
    induction l with
    | nil => exact fun r hr => hr
    | cons v l ih =>
      intro r hr
      have hv := hl v (by simp)
      refine ih (fun w hw => hl w (by simp [hw])) _ ⟨?_, ?_⟩
      · simp only
        split_ifs <;> omega
      · simp only
        split_ifs <;> omega
  exact hinv (255, 0) ⟨by decide, by decide⟩

theorem expandedLevels_fits {l : List Int} (hne : l ≠ []) (hl : ∀ v ∈ l, 0 ≤ v ∧ v ≤ 255) : (expandedLevels l).Fits := by
  obtain ⟨v, l', rfl⟩ := exists_cons_of_ne_nil hne
  have hfold := (grayRange_fold (v :: l') (255, 0)).2.2 v (by simp)
  have hv : (grayRange (v :: l')).1 ≤ v ∧ v ≤ (grayRange (v :: l')).2 := hfold
  have hrange := grayRange_bytes hl
  have := hl v (by simp)
  exact ⟨⟨hrange.1, by change (grayRange (v :: l')).1 ≤ 255; omega⟩,
    ⟨by change 0 ≤ (grayRange (v :: l')).2 - (grayRange (v :: l')).1; omega,
      by change (grayRange (v :: l')).2 - (grayRange (v :: l')).1 ≤ 255; omega⟩⟩

theorem Reads.at {u : Nat} {gray : List Byte → Option (Byte × List Byte)} (hg : Reads u gray) (data : List Byte) {k : Nat}
    (hk : u * (k + 1) ≤ data.length) : ∃ b, gray (data.drop (u * k)) = some (b, data.drop (u * (k + 1))) := by
  rw [Nat.mul_succ] at hk ⊢
  obtain ⟨b, hb⟩ := hg ((data.drop (u * k)).take u) (by rw [length_take, length_drop]; omega)
  refine ⟨b, ?_⟩
  have h := hb (data.drop (u * k + u))
  rwa [← drop_drop, take_append_drop, drop_drop] at h

theorem grayDirect_reads (mapping : Byte → Byte) : Reads 1 (grayDirect mapping) := by
  intro s hs
  obtain ⟨b, hb⟩ := getByte_reads s hs
  exact ⟨mapping b, fun rest => by rw [grayDirect, hb rest]; rfl⟩

theorem readGrays_some {u : Nat} {gray : List Byte → Option (Byte × List Byte)} (hg : Reads u gray) (data : List Byte) {n j : Nat}
    (hn : u * (j + n) ≤ data.length) :
    ∃ l, readGrays gray n (data.drop (u * j)) = some l ∧ l.length = n ∧ ∀ v ∈ l, 0 ≤ v ∧ v ≤ 255 := by
  induction n generalizing j with
  | zero => exact ⟨[], rfl, rfl, by simp⟩
  | succ n ih =>
    have hle : u * (j + 1) ≤ u * (j + (n + 1)) := Nat.mul_le_mul_left u (by omega)
    obtain ⟨b, hb⟩ := hg.at data (k := j) (by omega)
    obtain ⟨l, hl, hlen, hall⟩ := ih (j := j + 1) (by rwa [show j + 1 + n = j + (n + 1) by omega])
    refine ⟨(b.toNat : Int) :: l, ?_, by rw [length_cons, hlen], ?_⟩
    · rw [readGrays, hb, bind_eq_bind, bind_some]
      simp only
      rw [hl, bind_eq_bind, bind_some]
    · intro v hv
      rcases mem_cons.mp hv with rfl | hv
      · have := b.isLt
        omega
      · exact hall v hv

def storedGray (gray : List Byte → Option (Byte × List Byte)) (u n : Nat) (data : List Byte) (r c : Nat) : Int :=
  (gray (data.drop (u * (r * n + c)))).elim 0 fun p => p.1.toNat

theorem stored_pictures {u n height : Nat} {gray : List Byte → Option (Byte × List Byte)} (hg : Reads u gray) {data : List Byte}
    (hdata : u * (height * n) ≤ data.length) : Pictures n (storedGray gray u n data) gray u height data := by
  intro r hr x hx
  have hle : r * n + x + 1 ≤ height * n := by
    calc r * n + x + 1 ≤ r * n + n := by omega
      _ = (r + 1) * n := (Nat.succ_mul r n).symm
      _ ≤ height * n := Nat.mul_le_mul_right n hr
  obtain ⟨b, hb⟩ := hg.at data (k := r * n + x) ((Nat.mul_le_mul_left u hle).trans hdata)
  exact ⟨b, hb, by rw [storedGray, hb]; rfl⟩

def HeaderSet (planes : Nat) (bm : BITMAP) : Prop :=
  ∃ hdr, w_bmheader planes bm = some hdr ∧ bm.upl = hdr.upl ∧ bm.unitsize = hdr.unitsize ∧ bm.colors = hdr.colors

theorem header_lines {planes : Nat} {bm : BITMAP} (hbm : HeaderSet planes bm) (htype : bm.type = .direct8 ∨ bm.type = .direct24)
    (hw : 1 ≤ bm.width ∧ bm.width ≤ 32767) (hfs : 0 ≤ bm.upl) :
    ∃ u n : Nat, bm.unitsize = u ∧ bm.upl = n ∧ 0 < u ∧ (bm.width : Int) ≤ n ∧ n ≤ 32 * ((bm.width + 31) / 32) ∧
      (∀ mapping, Reads u (pixelGray bm mapping)) ∧ (bm.type = .direct8 → u = 1 ∧ 2 ≤ bm.colors) ∧
      (bm.type = .direct24 → u = 3 ∧ n = bm.width) := by
  obtain ⟨hdr, hhdr, hupl, hunit, hcolors⟩ := hbm
  rcases htype with ht | ht
  · rw [w_bmheader, ht] at hhdr
    cases hhdr
    simp only at hupl hunit hcolors
    have hsmall : bm.width ≤ 32764 := by
      unfold short at hupl
      omega
    rw [short_of_range (by omega) (by omega)] at hupl
    refine ⟨1, (bm.width + 3) / 4 * 4, hunit, by omega, by omega, by omega, by omega, fun mapping => ?_, fun _ => ⟨rfl, ?_⟩, fun h => by rw [ht] at h; cases h⟩
    · rw [pixelGray, if_neg (by rw [ht]; simp)]
      exact grayDirect_reads mapping
    · rw [hcolors]
      split_ifs <;> omega
  · rw [w_bmheader, ht] at hhdr
    cases hhdr
    simp only at hupl hunit hcolors
    rw [short_of_range (by omega) (by omega)] at hupl
    refine ⟨3, bm.width, hunit, hupl, by omega, by omega, by omega, fun mapping => ?_, fun h => ?_, fun _ => ⟨rfl, rfl⟩⟩
    · rw [pixelGray, if_pos ht]
      exact grayTruecolor_reads
    · rw [ht] at h
      cases h

theorem ditherLevels_fits {bm : BITMAP} (htype : bm.type = .direct8 ∨ bm.type = .direct24) (expand : Bool) (mapping : Byte → Byte)
    (data : List Byte) (hcolors : bm.type = .direct8 → 2 ≤ bm.colors) (hpixels : bm.type = .direct24 → 3 * (bm.height * bm.width) ≤ data.length)
    (hpos : 0 < bm.height * bm.width) : ∃ L, ditherLevels expand bm mapping data = some L ∧ L.Fits := by
  cases expand with
  | false => exact ⟨_, rfl, ⟨⟨by decide, by decide⟩, ⟨by decide, by decide⟩⟩⟩
  | true =>
    rcases htype with ht | ht
    · have hne : (List.range bm.colors.toNat).reverse.map (fun cur => ((mapping (BitVec.ofNat 8 cur)).toNat : Int)) ≠ [] := by
        have := hcolors ht
        rw [Ne, map_eq_nil_iff, reverse_eq_nil_iff, range_eq_nil]
        omega
      refine ⟨_, by rw [ditherLevels, if_pos rfl, if_neg (by rw [ht]; simp)], expandedLevels_fits hne fun v hv => ?_⟩
      obtain ⟨i, -, rfl⟩ := mem_map.mp hv
      have := (mapping (BitVec.ofNat 8 i)).isLt
      omega
    · obtain ⟨l, hl, hlen, hall⟩ := readGrays_some grayTruecolor_reads data (n := bm.height * bm.width) (j := 0)
        (by rw [Nat.zero_add]; exact hpixels ht)
      refine ⟨expandedLevels l, ?_, expandedLevels_fits ?_ hall⟩
      · rw [ditherLevels, if_pos rfl, if_pos ht, show data = data.drop (3 * 0) from rfl, hl]
        rfl
      · rintro rfl
        rw [length_nil] at hlen
        omega

/-- `fs_direct2mono` makes the bits of Floyd-Steinberg dithering: every index and every `short` of the run is in its range,
the source is read line by line, and the destination gets its longs. -/
theorem fs_direct2mono_floyd (big expand : Bool) (mapping : Byte → Byte) {planes : Nat} {bm : BITMAP} (hbm : HeaderSet planes bm)
    (htype : bm.type = .direct8 ∨ bm.type = .direct24) (hpalette : bm.type = .direct8 → bm.palette.isSome = true)
    (hw : 1 ≤ bm.width ∧ bm.width ≤ 32767) (hh : 1 ≤ bm.height) (hfs : 0 ≤ bm.upl) (data : List Byte)
    (hdata : bm.height * bm.linesize.toNat ≤ data.length) : ∃ L mono, ditherLevels expand bm mapping data = some L ∧
      fs_direct2mono big expand mapping bm data = some (mono, data.drop (bm.height * bm.linesize.toNat)) ∧
      mono.length = bm.height * ((bm.width + 31) / 32) ∧
      ∀ r < bm.height, ∀ k < (bm.width + 31) / 32, ∃ w, mono[r * ((bm.width + 31) / 32) + k]? = some (ntohl big w) ∧
        LongOf L bm.upl.toNat (storedGray (pixelGray bm mapping) bm.unitsize.toNat bm.upl.toNat data) r (32 * k) w := by
  obtain ⟨u, n, hu, hn, hupos, hwn, hnw, hreads, h8, h24⟩ := header_lines hbm htype hw hfs
  have hline : bm.linesize.toNat = u * n := by
    rw [BITMAP.linesize, hu, hn, ← Int.natCast_mul, Int.toNat_natCast]
  have hsize : u * (bm.height * n) ≤ data.length := by
    rwa [hline, Nat.mul_left_comm] at hdata
  obtain ⟨L, hlevels, hL⟩ := ditherLevels_fits htype expand mapping data (fun h => (h8 h).2)
    (fun h => by rw [(h24 h).1, (h24 h).2] at hsize; exact hsize) (Nat.mul_pos hh hw.1)
  have hn1 : 0 < n := by omega
  have hbound : n < u * n + 1 := Nat.lt_succ_of_le (Nat.le_mul_of_pos_left n hupos)
  have hlast : 32 * ((bm.width + 31) / 32 - 1) + (n - 32 * ((bm.width + 31) / 32 - 1)) = n := by omega
  obtain ⟨mono, hrun, hlen, hall⟩ := rows_run hbound hL (stored_pictures (hreads mapping) hsize) big
    (n - 32 * ((bm.width + 31) / 32 - 1)) ((bm.width + 31) / 32) (by omega) hn1 (by omega) hlast
    (h := bm.height) (r := 0) (Nat.zero_add _) (F := fun _ => 0) (fun c _ => by cases c <;> simp [carried, before, fsErrors])
  refine ⟨L, mono, hlevels, ?_, hlen, ?_⟩
  · have htest : ¬ (bm.type ≠ .direct8 ∧ bm.type ≠ .direct24 ∨ bm.type = .direct8 ∧ bm.palette.isNone = true ∨ bm.width < 1 ∨ bm.height < 1) := by
      rintro (⟨h1, h2⟩ | ⟨h1, h2⟩ | h1 | h1)
      · exact htype.elim h1 h2
      · rw [Option.isNone_iff_eq_none] at h2
        have hsome := hpalette h1
        rw [h2] at hsome
        cases hsome
      · omega
      · omega
    have hM : M_UNIT * 8 = 32 := rfl
    have hFS : (bm.upl * bm.unitsize + 1).toNat = u * n + 1 := by
      rw [hu, hn, Int.mul_comm, ← Int.natCast_mul]
      omega
    have hpixels : (if bm.type = .direct24 then bm.upl else bm.upl * bm.unitsize) = n := by
      split_ifs with ht
      · exact hn
      · rw [hu, hn, (h8 (htype.resolve_right ht)).1]
        omega
    have hcount : (((bm.width : Int) + (32 - 1)) / 32 - 1 + 1).toNat = (bm.width + 31) / 32 := by omega
    have hrem : ((n : Int) - (((bm.width : Int) + (32 - 1)) / 32 - 1) * 32).toNat = n - 32 * ((bm.width + 31) / 32 - 1) := by omega
    rw [fs_direct2mono, if_neg htest, hline, Nat.mul_left_comm]
    simp only [hM, hpixels, hFS, hcount, hrem, hlevels, Option.bind_eq_bind, Option.bind_some]
    simpa using hrun
  · rw [hu, hn, Int.toNat_natCast, Int.toNat_natCast]
    intro r hr k hk
    simpa using hall r hr k hk

def threeGrays : BITMAP := ⟨3, 1, .direct8, 1, 4, 8, 200, some fun c => ⟨c, c, c⟩⟩

theorem threeGrays_header : HeaderSet 1 threeGrays := ⟨_, rfl, by decide, by decide, by decide⟩

theorem fs_direct2mono_floyd_grays : ∃ L mono, ditherLevels true threeGrays id [10, 100, 190, 0] = some L ∧
    fs_direct2mono false true id threeGrays [10, 100, 190, 0] = some (mono, []) ∧ mono.length = 1 := by
  obtain ⟨L, mono, hlevels, hrun, hlen, -⟩ := fs_direct2mono_floyd false true id threeGrays_header
    (.inl rfl) (fun _ => rfl) (by decide) (by decide) (by decide) [10, 100, 190, 0] (by decide)
  exact ⟨L, mono, hlevels, hrun, hlen⟩

end WWindowSystem
