import Mathlib.Data.List.Count
import WWindowSystem.Server.Color

namespace WWindowSystem

open List Function

theorem mask_bit (b : BitVec 8) {k : Nat} (hk : k < 8) : (b &&& 0x80#8 >>> k != 0#8) = b.getLsbD (7 - k) := by
  have h : ∀ k < 8, ∀ b : BitVec 8, (b &&& 0x80#8 >>> k != 0#8) = b.getLsbD (7 - k) := by
    decide +kernel
  exact h k hk b

theorem mask_getLsbD {k j : Nat} (hk : k < 8) (hj : j < 8) : (0x80#8 >>> k).getLsbD (7 - j) = decide (k = j) := by
  have h : ∀ k < 8, ∀ j < 8, (0x80#8 >>> k).getLsbD (7 - j) = decide (k = j) := by
    decide +kernel
  exact h k hk j hj

theorem bit_lt (i : Nat) : i &&& 7 < 8 := by
  have := Nat.and_le_right (n := i) (m := 7)
  omega

theorem bit_ext {i j : Nat} (h8 : i >>> 3 = j >>> 3) (h7 : i &&& 7 = j &&& 7) : i = j := by
  have hi : i &&& 7 = i % 8 := Nat.and_two_pow_sub_one_eq_mod i 3
  have hj : j &&& 7 = j % 8 := Nat.and_two_pow_sub_one_eq_mod j 3
  rw [hi, hj] at h7
  rw [Nat.shiftRight_eq_div_pow, Nat.shiftRight_eq_div_pow] at h8
  omega

variable (ptr : Nat → BitVec 8)

theorem TSTBIT_eq (i : Nat) : TSTBIT ptr i = (ptr (i >>> 3)).getLsbD (7 - (i &&& 7)) := by
  rw [TSTBIT, mask_bit _ (bit_lt i)]

@[simp] theorem TSTBIT_SETBIT (i j : Nat) :
    TSTBIT (SETBIT ptr i) j = (decide (i = j) || TSTBIT ptr j) := by
  rw [TSTBIT_eq, TSTBIT_eq, SETBIT]
  by_cases h8 : j >>> 3 = i >>> 3
  · rw [h8, update_self, BitVec.getLsbD_or, mask_getLsbD (bit_lt i) (bit_lt j), Bool.or_comm]
    congr 1
    by_cases h7 : i &&& 7 = j &&& 7
    · simp [bit_ext h8.symm h7]
    · have : i ≠ j := by rintro rfl; exact h7 rfl
      simp [h7, this]
  · have : i ≠ j := by rintro rfl; exact h8 rfl
    rw [update_of_ne h8]
    simp [this]

@[simp] theorem TSTBIT_CLRBIT (i j : Nat) :
    TSTBIT (CLRBIT ptr i) j = (!decide (i = j) && TSTBIT ptr j) := by
  rw [TSTBIT_eq, TSTBIT_eq, CLRBIT]
  by_cases h8 : j >>> 3 = i >>> 3
  · have hlt : 7 - (j &&& 7) < 8 := by omega
    rw [h8, update_self, BitVec.getLsbD_and, BitVec.getLsbD_not, mask_getLsbD (bit_lt i) (bit_lt j),
      Bool.and_comm]
    by_cases h7 : i &&& 7 = j &&& 7
    · simp [bit_ext h8.symm h7]
    · have : i ≠ j := by rintro rfl; exact h7 rfl
      simp [h7, this, hlt]
  · have : i ≠ j := by rintro rfl; exact h8 rfl
    rw [update_of_ne h8]
    simp [this]

theorem count_foldl (P : Nat → Prop) [DecidablePred P] (add : Int) (count n : Nat) (refs : Nat → Int) (j : Nat) :
    (List.range n).foldl (fun r i =>
      if P i then Function.update r (count + i) (r (count + i) + add) else r) refs j =
      refs j + if count ≤ j ∧ j < count + n ∧ P (j - count) then add else 0 := by
  induction n with
  | zero =>
    rw [if_neg (by omega), Int.add_zero]
    rfl
  | succ n ih =>
    rw [range_succ, foldl_append, foldl_cons, foldl_nil]
    by_cases hj : j = count + n
    · subst hj
      rw [if_neg (by omega)] at ih
      by_cases hp : P n
      · rw [if_pos hp, update_self, ih, if_pos (by simpa using hp), Int.add_zero]
      · rw [if_neg hp, ih, if_neg (by simpa using hp)]
    · have hiff : (count ≤ j ∧ j < count + (n + 1) ∧ P (j - count)) ↔
          (count ≤ j ∧ j < count + n ∧ P (j - count)) := by
        have : j < count + (n + 1) ↔ j < count + n := by omega
        rw [this]
      rw [if_congr hiff rfl rfl, ← ih]
      by_cases hp : P n
      · rw [if_pos hp, update_of_ne hj]
      · rw [if_neg hp]

theorem countByte_spec (add : Int) (byte : BitVec 8) (refs : Nat → Int) (count j : Nat) :
    countByte add byte refs count j =
      refs j + if count ≤ j ∧ j < count + 8 ∧ 0x80#8 >>> (j - count) &&& byte ≠ 0#8 then add else 0 := by
  unfold countByte
  by_cases h0 : byte = 0x00#8
  · rw [if_pos h0, h0]
    simp
  by_cases hf : byte = 0xff#8
  · rw [if_neg h0, if_pos hf]
    have h := count_foldl (fun _ => True) add count 8 refs j
    simp only [if_true] at h
    rw [h]
    congr 1
    apply if_congr _ rfl rfl
    rw [hf, and_true]
    constructor
    · rintro ⟨h1, h2⟩
      have hk : ∀ k < 8, 0x80#8 >>> k &&& 0xff#8 ≠ 0#8 := by decide
      exact ⟨h1, h2, hk _ (by omega)⟩
    · exact fun h => ⟨h.1, h.2.1⟩
  · rw [if_neg h0, if_neg hf]
    exact count_foldl (fun i => 0x80#8 >>> i &&& byte ≠ 0#8) add count 8 refs j

theorem counts_foldl (used : Nat → BitVec 8) (add : Int) (m : Nat) (refs : Nat → Int) (j : Nat) :
    (List.range m).foldl (fun r i => countByte add (used i) r (8 * i)) refs j =
      refs j + if j < 8 * m ∧ TSTBIT used j = true then add else 0 := by
  induction m with
  | zero => simp
  | succ m ih =>
    rw [range_succ, foldl_append, foldl_cons, foldl_nil, countByte_spec, ih]
    by_cases hlt : j < 8 * m
    · rw [if_neg (c := 8 * m ≤ j ∧ _) (by omega), Int.add_zero]
      congr 1
      apply if_congr _ rfl rfl
      have : j < 8 * (m + 1) := by omega
      simp only [hlt, this]
    · rw [if_neg (c := j < 8 * m ∧ _) (by omega), Int.add_zero]
      congr 1
      apply if_congr _ rfl rfl
      by_cases hm : j < 8 * m + 8
      · have h8 : j >>> 3 = m := by
          rw [Nat.shiftRight_eq_div_pow]
          omega
        have h7 : j &&& 7 = j - 8 * m := by
          rw [show j &&& 7 = j % 8 from Nat.and_two_pow_sub_one_eq_mod j 3]
          omega
        have hm' : j < 8 * (m + 1) := by omega
        have hle : 8 * m ≤ j := by omega
        simp only [hm, hm', hle, true_and, TSTBIT, h8, h7, bne_iff_ne, BitVec.and_comm (used m)]
      · have hm' : ¬ j < 8 * (m + 1) := by omega
        simp [hm, hm']

structure ColorTable.Bounded (n : Nat) (t : ColorTable) : Prop where
  below_top : ∀ i, TSTBIT t.used i = true → i < t.colors
  below_count : ∀ i, TSTBIT t.used i = true → i < n

variable {n : Nat}

theorem changeCounts_refs {C : Colors} {tab : Nat} (h : (C.tables tab).Bounded n) (add : Int) (i : Nat) :
    (changeCounts C tab add).colorRefs i = C.colorRefs i + if TSTBIT (C.tables tab).used i = true then add else 0 := by
  rw [changeCounts]
  dsimp only
  rw [counts_foldl]
  congr 1
  apply if_congr _ rfl rfl
  constructor
  · exact fun h => h.2
  · intro hi
    have := h.below_top i hi
    exact ⟨by omega, hi⟩

def writeTable (C : Colors) (win tab : Nat) (f : ColorTable → ColorTable) : Colors × Nat :=
  ((ownTable C win tab).1.setTable (ownTable C win tab).2 f, (ownTable C win tab).2)

variable {used : Nat → BitVec 8}

theorem leastUsed_spec {refs : Nat → Int} {n i : Nat}
    (h : leastUsed used refs n = some i) : i < n ∧ TSTBIT used i = false := by
  have key : ∀ (l : List Nat) (r : Option Nat × Int),
      (∀ j, r.1 = some j → j < n ∧ TSTBIT used j = false) → (∀ j ∈ l, j < n) →
      ∀ j, (l.foldl (fun r i =>
        if !TSTBIT used i && decide (refs i < r.2) then (some i, refs i) else r) r).1 = some j →
        j < n ∧ TSTBIT used j = false := by
    intro l
    induction l with
    | nil => exact fun r hr _ => hr
    | cons a l ih =>
      intro r hr hl
      obtain ⟨ha, hl⟩ := forall_mem_cons.mp hl
      rw [foldl_cons]
      apply ih _ _ hl
      intro j hj
      split_ifs at hj with hc
      · obtain rfl := Option.some.inj hj
        simp only [Bool.and_eq_true, Bool.not_eq_true'] at hc
        exact ⟨ha, hc.1⟩
      · exact hr j hj
  refine key _ _ (by simp) ?_ i h
  intro j hj
  simpa using hj

theorem freeDown_bits (shared n : Nat) (used : Nat → BitVec 8) (j : Nat) :
    TSTBIT (freeDown used shared n).1 j = (TSTBIT used j && !decide (shared ≤ j ∧ j < n)) := by
  induction n generalizing used with
  | zero =>
    have : ¬ (shared ≤ j ∧ j < 0) := by omega
    rw [decide_eq_false this, Bool.not_false, Bool.and_true]
    rfl
  | succ n ih =>
    rw [freeDown]
    by_cases hn : n ≥ shared
    · rw [if_pos hn]
      cases ht : TSTBIT used n with
      | true =>
        rw [if_pos rfl]
        dsimp only
        rw [ih, TSTBIT_CLRBIT]
        by_cases hj : n = j
        · subst hj
          have : shared ≤ n ∧ n < n + 1 := by omega
          rw [decide_eq_true rfl, decide_eq_true this]
          simp
        · have hiff : (shared ≤ j ∧ j < n + 1) ↔ (shared ≤ j ∧ j < n) := by omega
          rw [decide_eq_decide.mpr hiff, decide_eq_false hj, Bool.not_false, Bool.true_and]
      | false =>
        rw [if_neg Bool.false_ne_true, ih]
        by_cases hj : n = j
        · subst hj
          rw [ht, Bool.false_and, Bool.false_and]
        · have hiff : (shared ≤ j ∧ j < n + 1) ↔ (shared ≤ j ∧ j < n) := by omega
          rw [decide_eq_decide.mpr hiff]
    · have : ¬ (shared ≤ j ∧ j < n + 1) := by omega
      rw [if_neg hn, decide_eq_false this, Bool.not_false, Bool.and_true]

theorem newTop_above (h : ∀ j, TSTBIT used j = true → j < n) (j : Nat)
    (hj : TSTBIT used j = true) : j < newTop used n := by
  induction n with
  | zero => exact h j hj
  | succ n ih =>
    rw [newTop]
    split_ifs with hc
    · apply ih
      intro i hi
      have hlt := h i hi
      have : i ≠ n := by
        rintro rfl
        simp [hi] at hc
      omega
    · exact h j hj

def ColorTable.alloc (index red green blue : Nat) (t : ColorTable) : ColorTable :=
  { t.setColor index red green blue with
    used := SETBIT t.used index
    colors := if index ≥ t.colors then index + 1 else t.colors }

def ColorTable.free (index : Nat) (t : ColorTable) : ColorTable :=
  { t with
    used := CLRBIT t.used index
    colors := if index + 1 = t.colors then newTop (CLRBIT t.used index) index else t.colors }

def ColorTable.freeAll (shared : Nat) (t : ColorTable) : ColorTable :=
  { t with used := (freeDown t.used shared t.colors).1, colors := shared }

variable {t : ColorTable}

theorem ColorTable.Bounded.alloc (h : t.Bounded n) {index : Nat}
    (hi : index < n) (red green blue : Nat) : (t.alloc index red green blue).Bounded n := by
  constructor
  · intro j hj
    simp only [ColorTable.alloc, TSTBIT_SETBIT, Bool.or_eq_true, decide_eq_true_eq] at hj ⊢
    rcases hj with rfl | hj
    · split_ifs <;> omega
    · have := h.below_top j hj
      split_ifs <;> omega
  · intro j hj
    simp only [ColorTable.alloc, TSTBIT_SETBIT, Bool.or_eq_true, decide_eq_true_eq] at hj
    rcases hj with rfl | hj
    · exact hi
    · exact h.below_count j hj

theorem ColorTable.Bounded.free (h : t.Bounded n) (index : Nat) :
    (t.free index).Bounded n := by
  have hsub : ∀ j, TSTBIT (CLRBIT t.used index) j = true → j ≠ index ∧ TSTBIT t.used j = true := by
    intro j hj
    rw [TSTBIT_CLRBIT] at hj
    simp only [Bool.and_eq_true, Bool.not_eq_true', decide_eq_false_iff_not] at hj
    exact ⟨fun he => hj.1 he.symm, hj.2⟩
  constructor
  · intro j hj
    simp only [ColorTable.free] at hj ⊢
    split_ifs with ht
    · apply newTop_above _ j hj
      intro i hi
      obtain ⟨hne, hi⟩ := hsub i hi
      have := h.below_top i hi
      omega
    · exact h.below_top j (hsub j hj).2
  · intro j hj
    exact h.below_count j (hsub j hj).2

theorem ColorTable.Bounded.freeAll (h : t.Bounded n) (shared : Nat) :
    (t.freeAll shared).Bounded n := by
  have hsub : ∀ j, TSTBIT (t.freeAll shared).used j = true → j < shared ∧ TSTBIT t.used j = true := by
    intro j hj
    simp only [ColorTable.freeAll, freeDown_bits, Bool.and_eq_true, Bool.not_eq_true',
      decide_eq_false_iff_not] at hj
    have := h.below_top j hj.1
    exact ⟨by omega, hj.1⟩
  exact ⟨fun j hj => (hsub j hj).1, fun j hj => h.below_count j (hsub j hj).2⟩

theorem ColorTable.Bounded.setColor (h : t.Bounded n)
    (index red green blue : Nat) : (t.setColor index red green blue).Bounded n :=
  ⟨h.below_top, h.below_count⟩

def privateTable (C : Colors) (win tab : Nat) : ColorTable := (ownTable C win tab).1.tables (ownTable C win tab).2

def Colors.Owns (C : Colors) (win tab : Nat) : Prop := (C.tables tab).win = some win

instance (C : Colors) (win tab : Nat) : Decidable (C.Owns win tab) :=
  inferInstanceAs (Decidable (_ = _))

variable {win tab : Nat}

theorem ownTable_owned {C : Colors} (h : C.Owns win tab) :
    ownTable C win tab = (C, tab) := if_pos h

theorem ownTable_shared {C : Colors} (h : ¬ C.Owns win tab) :
    ownTable C win tab = makePrivateTable C win tab := if_neg h

variable (C : Colors)

theorem privateTable_spec (win tab : Nat) : (privateTable C win tab).win = some win ∧
      (privateTable C win tab).used = (C.tables tab).used ∧
      (privateTable C win tab).colors = (C.tables tab).colors := by
  by_cases h : C.Owns win tab
  · rw [privateTable, ownTable_owned h]
    exact ⟨h, rfl, rfl⟩
  · rw [privateTable, ownTable_shared h]
    simp [makePrivateTable]

theorem writeTable_tables (win tab : Nat) (f : ColorTable → ColorTable) :
    (writeTable C win tab f).1.tables =
      Function.update C.tables (writeTable C win tab f).2 (f (privateTable C win tab)) := by
  by_cases h : C.Owns win tab
  · simp only [writeTable, privateTable, ownTable_owned h, Colors.setTable]
  · simp only [writeTable, privateTable, ownTable_shared h, makePrivateTable, Colors.setTable,
      update_idem]

theorem writeTable_counts (win tab : Nat) (f : ColorTable → ColorTable) :
    (writeTable C win tab f).1.colorRefs = C.colorRefs ∧ (writeTable C win tab f).1.colorCount = C.colorCount ∧
      (writeTable C win tab f).1.glob_sharedcolors = C.glob_sharedcolors := by
  by_cases h : C.Owns win tab
  · simp only [writeTable, ownTable_owned h, Colors.setTable, and_self]
  · simp only [writeTable, ownTable_shared h, makePrivateTable, Colors.setTable, and_self]

theorem writeTable_owned {C : Colors} (h : C.Owns win tab) (f : ColorTable → ColorTable) :
    (writeTable C win tab f).2 = tab ∧ (writeTable C win tab f).1.nextTable = C.nextTable := by
  simp only [writeTable, ownTable_owned h, Colors.setTable, and_self]

theorem writeTable_shared {C : Colors} (h : ¬ C.Owns win tab) (f : ColorTable → ColorTable) :
    (writeTable C win tab f).2 = C.nextTable ∧ (writeTable C win tab f).1.nextTable = C.nextTable + 1 := by
  simp only [writeTable, ownTable_shared h, makePrivateTable, Colors.setTable, and_self]

def Colors.addRef (C : Colors) (index : Nat) (add : Int) : Colors :=
  { C with colorRefs := Function.update C.colorRefs index (C.colorRefs index + add) }

theorem colorAllocColor_cases (win tab red green blue : Nat) :
    colorAllocColor C win tab red green blue = (-1, C, tab) ∨
      ∃ index, index < C.colorCount ∧ TSTBIT (C.tables tab).used index = false ∧
        leastUsed (C.tables tab).used C.refs C.colorCount = some index ∧ colorAllocColor C win tab red green blue =
          ((index : Int), (writeTable C win tab (.alloc index red green blue)).1.addRef index 1,
            (writeTable C win tab (.alloc index red green blue)).2) := by
  unfold colorAllocColor
  cases hl : leastUsed (C.tables tab).used C.refs C.colorCount with
  | none => exact .inl rfl
  | some index =>
    obtain ⟨h1, h2⟩ := leastUsed_spec hl
    exact .inr ⟨index, h1, h2, rfl, rfl⟩

theorem colorFreeColor_cases (win tab : Nat) (index : Int) :
    (∃ code, colorFreeColor C win tab index = (code, C, tab)) ∨
      (index < 0 ∧ C.glob_sharedcolors < (C.tables tab).colors ∧ colorFreeColor C win tab index =
          ((freeDown (C.tables tab).used C.glob_sharedcolors (C.tables tab).colors).2,
            writeTable C win tab (.freeAll C.glob_sharedcolors))) ∨
      (0 ≤ index ∧ index < C.colorCount ∧ TSTBIT (C.tables tab).used index.toNat = true ∧
        colorFreeColor C win tab index = (1, (writeTable C win tab (.free index.toNat)).1.addRef index.toNat (-1),
            (writeTable C win tab (.free index.toNat)).2)) := by
  obtain ⟨-, hu, hc⟩ := privateTable_spec C win tab
  unfold colorFreeColor
  by_cases hi : index < 0
  · rw [if_pos hi]
    by_cases ht : (C.tables tab).colors ≤ C.glob_sharedcolors
    · rw [if_pos ht]
      exact .inl ⟨_, rfl⟩
    · rw [if_neg ht]
      refine .inr (.inl ⟨hi, by omega, ?_⟩)
      rw [← hu, ← hc]
      rfl
  · rw [if_neg hi]
    by_cases hc : index ≥ C.colorCount ∨ (!TSTBIT (C.tables tab).used index.toNat) = true
    · rw [if_pos hc]
      exact .inl ⟨_, rfl⟩
    · rw [if_neg hc]
      simp only [not_or, Bool.not_eq_true', Bool.not_eq_false] at hc
      exact .inr (.inr ⟨by omega, by omega, hc.2, rfl⟩)

theorem colorChangeColor_cases (win tab : Nat) (index : Int) (red green blue : Nat) :
    colorChangeColor C win tab index red green blue = (-1, C, tab) ∨
      (0 ≤ index ∧ index < C.colorCount ∧ ¬ (win = 0 ∧ index < C.glob_sharedcolors) ∧
        TSTBIT (C.tables tab).used index.toNat = true ∧ colorChangeColor C win tab index red green blue =
          (0, writeTable C win tab fun t => t.setColor index.toNat red green blue)) := by
  unfold colorChangeColor
  split_ifs with h1 h2 h3
  · exact .inl rfl
  · exact .inl rfl
  · exact .inl rfl
  · simp only [Bool.not_eq_true', Bool.not_eq_false] at h3
    exact .inr ⟨by omega, by omega, h2, h3, rfl⟩

end WWindowSystem
