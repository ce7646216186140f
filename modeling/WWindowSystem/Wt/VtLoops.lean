import WWindowSystem.Library.Ring
import WWindowSystem.Wt.Vt

namespace WWindowSystem

def Vt.draw (s : Vt) (screen : Int → vtchar_t) (touched : List Access) : Vt := { s with screen, touched }

def Vt.ring (s : Vt) (j x : Int) : vtchar_t := s.screen (rowStart s.wd s.screenht j + x)

def Vt.Has (s : Vt) (v : vtchar_t) : Prop :=
  (∃ j x, 0 ≤ x ∧ x < s.wd ∧ s.ring j x = v) ∨ ∃ c, s.stored c = v

def Drawn (s s' : Vt) : Prop :=
  ∃ screen touched, s' = s.draw screen touched ∧ (∀ a ∈ touched, a ∈ s.touched ∨ a.Inside) ∧
    ∀ v, s'.Has v → s.Has v

structure Vt.Sized (s : Vt) : Prop where
  wd : 0 < s.wd
  screenht : 0 < s.screenht

variable {s s' s'' : Vt}

theorem Drawn.refl (s : Vt) : Drawn s s := ⟨_, _, rfl, fun _ ha => Or.inl ha, fun _ hv => hv⟩

theorem Drawn.trans (h : Drawn s s') (h' : Drawn s' s'') : Drawn s s'' := by
  obtain ⟨_, _, rfl, h1, hv⟩ := h
  obtain ⟨_, _, rfl, h2, hv'⟩ := h'
  refine ⟨_, _, rfl, fun a ha => ?_, fun v hs => hv v (hv' v hs)⟩
  obtain ha | ha := h2 a ha
  · exact h1 a ha
  · exact Or.inr ha

theorem Drawn.sized (h : Drawn s s') (hs : s.Sized) : s'.Sized := by
  obtain ⟨_, _, rfl, -⟩ := h
  exact ⟨hs.wd, hs.screenht⟩

theorem ring_congr {j j' : Int} (h : j % s.screenht = j' % s.screenht) (x : Int) : s.ring j x = s.ring j' x := by
  unfold Vt.ring
  rw [rowStart_congr h]

variable {x : Int}

theorem touch_drawn (hs : s.Sized) (j : Int) (h0 : 0 ≤ x) (hx : x < s.wd) :
    Drawn s (s.touch s.screen_size (rowStart s.wd s.screenht j + x)) := by
  refine ⟨_, _, rfl, fun a ha => ?_, fun _ hv => hv⟩
  cases ha with
  | head => exact Or.inr (rowStart_inside hs.screenht j h0 hx)
  | tail _ ha => exact Or.inl ha

theorem put_ring (j j' : Int) {x x' : Int} (h0 : 0 ≤ x) (hx : x < s.wd)
    (h0' : 0 ≤ x') (hx' : x' < s.wd) (v : vtchar_t) : (s.put (rowStart s.wd s.screenht j + x) v).ring j' x' =
      if j' % s.screenht = j % s.screenht ∧ x' = x then v else s.ring j' x' := by
  change Function.update s.screen _ v (rowStart s.wd s.screenht j' + x') = _
  rw [Function.update_apply]
  exact if_congr (cell_inj h0' hx' h0 hx) rfl rfl

theorem put_drawn (hs : s.Sized) (j : Int) (h0 : 0 ≤ x) (hx : x < s.wd) {v : vtchar_t}
    (hv : s.Has v) : Drawn s (s.put (rowStart s.wd s.screenht j + x) v) := by
  refine ⟨_, _, rfl, fun a ha => ?_, fun w hw => ?_⟩
  · cases ha with
    | head => exact Or.inr (rowStart_inside hs.screenht j h0 hx)
    | tail _ ha => exact Or.inl ha
  · obtain ⟨j', x', h0', hx', hw⟩ | hw := hw
    · have hr := (put_ring j j' h0 hx h0' hx' v).symm.trans hw
      split_ifs at hr
      · exact hr ▸ hv
      · exact Or.inl ⟨j', x', h0', hx', hr⟩
    · exact Or.inr hw

variable (n : Nat)

theorem blankCells_spec (hs : s.Sized) (j : Int) (h0 : 0 ≤ x) (hx : x + n ≤ s.wd) :
    ∃ t, blankCells n s (rowStart s.wd s.screenht j + x) = (t, rowStart s.wd s.screenht j + (x + n)) ∧ Drawn s t ∧
      ∀ j' x', 0 ≤ x' → x' < s.wd → t.ring j' x' =
        if j' % s.screenht = j % s.screenht ∧ x ≤ x' ∧ x' < x + n then s.stored DEF_BGCHAR else s.ring j' x' := by
  induction n generalizing s x with
  | zero =>
    refine ⟨s, by rw [blankCells, Int.natCast_zero, Int.add_zero], Drawn.refl s, fun j' x' _ _ => ?_⟩
    rw [if_neg (by omega)]
  | succ n ih =>
    have hput := put_drawn hs j h0 (show x < s.wd by omega) (Or.inr ⟨DEF_BGCHAR, rfl⟩)
    obtain ⟨t, he, hd, hr⟩ := ih (hput.sized hs) (show 0 ≤ x + 1 by omega)
      (show x + 1 + n ≤ s.wd by omega)
    refine ⟨t, ?_, hput.trans hd, fun j' x' h0' hx' => ?_⟩
    · rw [blankCells, Int.add_assoc]
      refine he.trans ?_
      rw [Int.natCast_succ, Int.add_assoc x 1, Int.add_comm 1]
      rfl
    · rw [hr j' x' h0' hx', put_ring j j' h0 (by omega) h0' hx']
      change (if j' % s.screenht = j % s.screenht ∧ x + 1 ≤ x' ∧ x' < x + 1 + n then s.stored DEF_BGCHAR
        else _) = _
      rw [Int.natCast_succ]
      split_ifs <;> first | rfl | omega

theorem vt_screen_nl_row (hs : s.Sized) (j : Int) :
    vt_screen_nl s (rowStart s.wd s.screenht j + s.wd) = rowStart s.wd s.screenht (j + 1) :=
  rowStart_next hs.wd hs.screenht j

theorem vt_screen_pl_row (hs : s.Sized) (j : Int) : vt_screen_pl s (rowStart s.wd s.screenht j - 1) =
      rowStart s.wd s.screenht (j - 1) + (s.wd - 1) :=
  rowStart_prev hs.wd hs.screenht j

variable {j : Int}

theorem blankRows_spec (hs : s.Sized) (lo : Int) (h0 : lo ≤ j) (hj : j + n ≤ lo + s.screenht) :
    ∃ t, blankRows n s (rowStart s.wd s.screenht j) = (t, rowStart s.wd s.screenht (j + n)) ∧ Drawn s t ∧
      ∀ j' x', lo ≤ j' → j' < lo + s.screenht → 0 ≤ x' → x' < s.wd → t.ring j' x' =
        if j ≤ j' ∧ j' < j + n then s.stored DEF_BGCHAR else s.ring j' x' := by
  induction n generalizing s j with
  | zero =>
    refine ⟨s, by rw [blankRows, Int.natCast_zero, Int.add_zero], Drawn.refl s, fun j' x' _ _ _ _ => ?_⟩
    rw [if_neg (by omega)]
  | succ n ih =>
    have hwd := hs.wd
    have hn : (s.wd.toNat : Int) = s.wd := Int.toNat_of_nonneg hwd.le
    obtain ⟨u, he, hd, hr⟩ := blankCells_spec s.wd.toNat hs j (le_refl 0) (by omega)
    have hu := hd.sized hs
    obtain ⟨_, _, rfl, ht, hv⟩ := hd
    obtain ⟨t, he', hd', hr'⟩ := ih hu (j := j + 1) (show lo ≤ j + 1 by omega) (show j + 1 + n ≤ lo + s.screenht by omega)
    refine ⟨t, ?_, Drawn.trans ⟨_, _, rfl, ht, hv⟩ hd', fun j' x' h1 h2 h3 h4 => ?_⟩
    · rw [Int.add_zero] at he
      rw [blankRows, he, Int.zero_add, hn]
      refine (congrArg _ (vt_screen_nl_row hu j)).trans (he'.trans ?_)
      rw [Int.natCast_succ, Int.add_assoc j 1, Int.add_comm 1]
      rfl
    · rw [hr' j' x' h1 h2 h3 h4, hr j' x' h3 h4]
      have hj' : j' % s.screenht = j % s.screenht ↔ j' = j :=
        ⟨fun h => row_inj h (by omega) (by omega), fun h => by rw [h]⟩
      simp only [hj', Int.natCast_succ]
      change (if j + 1 ≤ j' ∧ j' < j + 1 + n then s.stored DEF_BGCHAR else _) = _
      split_ifs <;> first | rfl | omega

theorem putChars_spec (l : List Byte) (hs : s.Sized) (j : Int) (h0 : 0 ≤ x) (hx : x + l.length ≤ s.wd) :
    Drawn s (putChars s (rowStart s.wd s.screenht j + x) l) ∧ ∀ j' x', 0 ≤ x' → x' < s.wd →
      (putChars s (rowStart s.wd s.screenht j + x) l).ring j' x' =
        if j' % s.screenht = j % s.screenht ∧ x ≤ x' ∧ x' < x + l.length then
          s.stored (l.getD (x' - x).toNat 0) else s.ring j' x' := by
  induction l generalizing s x with
  | nil =>
    refine ⟨Drawn.refl s, fun j' x' _ _ => ?_⟩
    rw [List.length_nil, Int.natCast_zero, if_neg (by omega)]
    rfl
  | cons c l ih =>
    rw [List.length_cons, Int.natCast_succ] at hx
    have hput := put_drawn hs j h0 (show x < s.wd by omega) (Or.inr ⟨c, rfl⟩)
    obtain ⟨hd, hr⟩ := ih (hput.sized hs) (show 0 ≤ x + 1 by omega) (show x + 1 + l.length ≤ s.wd by omega)
    have hstep : putChars s (rowStart s.wd s.screenht j + x) (c :: l) =
        putChars (s.put (rowStart s.wd s.screenht j + x) (s.stored c))
          (rowStart s.wd s.screenht j + (x + 1)) l := by
      rw [putChars, Int.add_assoc]
    rw [hstep]
    refine ⟨hput.trans hd, fun j' x' h0' hx' => ?_⟩
    refine (hr j' x' h0' hx').trans ?_
    rw [put_ring j j' h0 (by omega) h0' hx']
    change (if j' % s.screenht = j % s.screenht ∧ x + 1 ≤ x' ∧ x' < x + 1 + l.length then
      s.stored (l.getD (x' - (x + 1)).toNat 0) else _) = _
    rw [List.length_cons, Int.natCast_succ]
    by_cases hxx : x' = x
    · subst hxx
      rw [if_neg (by omega), Int.sub_self]
      split_ifs <;> first | rfl | omega
    · have hgt (h : x + 1 ≤ x') : (c :: l).getD (x' - x).toNat 0 = l.getD (x' - (x + 1)).toNat 0 := by
        rw [show (x' - x).toNat = (x' - (x + 1)).toNat + 1 by omega, List.getD_cons_succ]
      split_ifs <;> first | rfl | omega | (rw [hgt (by omega)])

theorem copyCells_spec (d : Int) (n : Nat) (hs : s.Sized) {j i : Int} (hji : j % s.screenht ≠ i % s.screenht)
    (hx : ∀ m : Nat, m < n → 0 ≤ x + d * m ∧ x + d * m < s.wd) :
    ∃ t, copyCells d n s (rowStart s.wd s.screenht j + x) (rowStart s.wd s.screenht i + x) =
        (t, rowStart s.wd s.screenht j + (x + d * n), rowStart s.wd s.screenht i + (x + d * n)) ∧
      Drawn s t ∧ ∀ j' x', 0 ≤ x' → x' < s.wd →
        (j' % s.screenht = i % s.screenht → (∃ m : Nat, m < n ∧ x' = x + d * m) → t.ring j' x' = s.ring j x') ∧
        (¬ (j' % s.screenht = i % s.screenht ∧ ∃ m : Nat, m < n ∧ x' = x + d * m) → t.ring j' x' = s.ring j' x') := by
  induction n generalizing s x with
  | zero =>
    refine ⟨s, by rw [copyCells, Int.natCast_zero, Int.mul_zero, Int.add_zero], Drawn.refl s,
      fun j' x' _ _ => ⟨?_, fun _ => rfl⟩⟩
    rintro - ⟨m, hm, -⟩
    omega
  | succ n ih =>
    obtain ⟨h0, hlt⟩ := hx 0 (Nat.succ_pos n)
    rw [Int.natCast_zero, Int.mul_zero, Int.add_zero] at h0 hlt
    have htouch := touch_drawn hs j h0 hlt
    have hput := put_drawn (htouch.sized hs) i h0 hlt (Or.inl ⟨j, x, h0, hlt, rfl⟩)
    have hmul (m : Nat) : x + d + d * m = x + d * (m + 1 : Nat) := by
      rw [Int.natCast_succ, Int.mul_add, Int.mul_one]
      omega
    obtain ⟨t, he, hd, hr⟩ := ih (hput.sized (htouch.sized hs)) hji (x := x + d)
      (fun m hm => by rw [hmul]; exact hx (m + 1) (by omega))
    refine ⟨t, ?_, htouch.trans (hput.trans hd), fun j' x' h0' hx' => ?_⟩
    · rw [copyCells, Int.add_assoc, Int.add_assoc, ← hmul]
      exact he
    · obtain ⟨hr1, hr2⟩ := hr j' x' h0' hx'
      have hnew (k : Int) : Vt.ring (Vt.put (s.touch s.screen_size (rowStart s.wd s.screenht j + x))
          (rowStart s.wd s.screenht i + x) (s.ring j x)) k x' =
            if k % s.screenht = i % s.screenht ∧ x' = x then s.ring j x else s.ring k x' :=
        put_ring i k h0 hlt h0' hx' (s.ring j x)
      have hsrc := hnew j
      rw [if_neg (fun hk => hji hk.1)] at hsrc
      constructor
      · rintro hj' ⟨m, hm, hxm⟩
        by_cases hlater : ∃ m' : Nat, m' < n ∧ x' = x + d + d * m'
        · exact (hr1 hj' hlater).trans hsrc
        · have hx0 : x' = x := by
            cases m with
            | zero => rw [hxm, Int.natCast_zero, Int.mul_zero, Int.add_zero]
            | succ m => exact absurd ⟨m, by omega, by rw [hmul]; exact hxm⟩ hlater
          refine (hr2 (fun h => hlater h.2)).trans ((hnew j').trans ?_)
          rw [if_pos ⟨hj', hx0⟩, hx0]
      · intro hno
        refine (hr2 ?_).trans ((hnew j').trans (if_neg ?_))
        · rintro ⟨hj', m, hm, hxm⟩
          exact hno ⟨hj', m + 1, by omega, by rw [← hmul]; exact hxm⟩
        · rintro ⟨hj', hx0⟩
          exact hno ⟨hj', 0, Nat.succ_pos n, by rw [hx0, Int.natCast_zero, Int.mul_zero, Int.add_zero]⟩

theorem copyRow_spec (d : Int) (hs : s.Sized) {j i x : Int} (hji : j % s.screenht ≠ i % s.screenht)
    (hd : d = 1 ∧ x = 0 ∨ d = -1 ∧ x = s.wd - 1) :
    ∃ t, copyCells d s.wd.toNat s (rowStart s.wd s.screenht j + x) (rowStart s.wd s.screenht i + x) =
        (t, rowStart s.wd s.screenht j + (x + d * s.wd), rowStart s.wd s.screenht i + (x + d * s.wd)) ∧
      Drawn s t ∧ ∀ j' x', 0 ≤ x' → x' < s.wd → (j' % s.screenht = i % s.screenht → t.ring j' x' = s.ring j x') ∧
        (j' % s.screenht ≠ i % s.screenht → t.ring j' x' = s.ring j' x') := by
  have hn : (s.wd.toNat : Int) = s.wd := Int.toNat_of_nonneg hs.wd.le
  obtain ⟨t, he, hdr, hr⟩ := copyCells_spec d s.wd.toNat hs hji (x := x) (fun m hm => by
    obtain ⟨rfl, rfl⟩ | ⟨rfl, rfl⟩ := hd <;> omega)
  rw [hn] at he
  refine ⟨t, he, hdr, fun j' x' h0 hx => ⟨fun hj' => (hr j' x' h0 hx).1 hj' ?_,
    fun hj' => (hr j' x' h0 hx).2 (fun h => hj' h.1)⟩⟩
  obtain ⟨rfl, rfl⟩ | ⟨rfl, rfl⟩ := hd
  · exact ⟨x'.toNat, by omega, by omega⟩
  · exact ⟨(s.wd - 1 - x').toNat, by omega, by omega⟩

theorem copyRowsBack_spec (hs : s.Sized) (lo : Int) (h0 : lo ≤ j - n + 1)
    (hj : j + 1 < lo + s.screenht) (hH : 1 < s.screenht) :
    Drawn s (copyRowsBack n s (rowStart s.wd s.screenht j + (s.wd - 1))
        (rowStart s.wd s.screenht (j + 1) + (s.wd - 1))) ∧
      ∀ j' x', lo ≤ j' → j' < lo + s.screenht → 0 ≤ x' → x' < s.wd →
        (copyRowsBack n s (rowStart s.wd s.screenht j + (s.wd - 1))
          (rowStart s.wd s.screenht (j + 1) + (s.wd - 1))).ring j' x' =
            if j - n + 2 ≤ j' ∧ j' ≤ j + 1 then s.ring (j' - 1) x' else s.ring j' x' := by
  induction n generalizing s j with
  | zero =>
    refine ⟨Drawn.refl s, fun j' x' _ _ _ _ => ?_⟩
    rw [if_neg (by omega)]
    rfl
  | succ n ih =>
    have hrow {k k' : Int} (h1 : k - k' < s.screenht) (h2 : k' - k < s.screenht) :
        k % s.screenht = k' % s.screenht ↔ k = k' :=
      ⟨fun h => row_inj h h1 h2, fun h => by rw [h]⟩
    have hne : j % s.screenht ≠ (j + 1) % s.screenht := by
      rw [Ne, hrow (by omega) (by omega)]
      omega
    obtain ⟨t, he, hd, hr⟩ := copyRow_spec (-1) hs hne (Or.inr ⟨rfl, rfl⟩)
    have ht := hd.sized hs
    obtain ⟨scr, acc, rfl, ha, hv⟩ := hd
    have hback (k : Int) : vt_screen_pl (s.draw scr acc) (rowStart s.wd s.screenht k + (s.wd - 1 + -1 * s.wd)) =
        rowStart s.wd s.screenht (k - 1) + (s.wd - 1) := by
      rw [show s.wd - 1 + -1 * s.wd = -1 by omega]
      exact vt_screen_pl_row ht k
    have hstep : copyRowsBack (n + 1) s (rowStart s.wd s.screenht j + (s.wd - 1))
        (rowStart s.wd s.screenht (j + 1) + (s.wd - 1)) =
          copyRowsBack n (s.draw scr acc) (rowStart s.wd s.screenht (j - 1) + (s.wd - 1))
            (rowStart s.wd s.screenht (j - 1 + 1) + (s.wd - 1)) := by
      rw [copyRowsBack, he]
      dsimp only
      rw [hback, hback, show j + 1 - 1 = j - 1 + 1 by omega]
    rw [hstep]
    obtain ⟨hd', hr'⟩ := ih ht (j := j - 1) (by omega) (show j - 1 + 1 < lo + s.screenht by omega) hH
    refine ⟨Drawn.trans ⟨_, _, rfl, ha, hv⟩ hd', fun j' x' h1 h2 h3 h4 => ?_⟩
    refine (hr' j' x' h1 h2 h3 h4).trans ?_
    rw [Int.natCast_succ]
    have hold (k : Int) (hk : k ≠ j + 1) (h5 : k - (j + 1) < s.screenht) (h6 : j + 1 - k < s.screenht) :
        (s.draw scr acc).ring k x' = s.ring k x' := by
      refine (hr k x' h3 h4).2 ?_
      rwa [Ne, hrow h5 h6]
    by_cases hj1 : j' = j + 1
    · rw [if_neg (by omega), if_pos (by omega), (hr j' x' h3 h4).1 (by rw [hj1]), hj1, Int.add_sub_cancel]
    · rw [hold j' hj1 (by omega) (by omega)]
      by_cases hin : j - 1 - n + 2 ≤ j' ∧ j' ≤ j - 1 + 1
      · rw [if_pos hin, if_pos (by omega), hold (j' - 1) (by omega) (by omega) (by omega)]
      · rw [if_neg hin, if_neg (by omega)]

theorem copyRows_spec (hs : s.Sized) (lo : Int) (h0 : lo ≤ j - 1)
    (hj : j + n ≤ lo + s.screenht) (hH : 1 < s.screenht) :
    Drawn s (copyRows n s (rowStart s.wd s.screenht j) (rowStart s.wd s.screenht (j - 1))) ∧
      ∀ j' x', lo ≤ j' → j' < lo + s.screenht → 0 ≤ x' → x' < s.wd →
        (copyRows n s (rowStart s.wd s.screenht j) (rowStart s.wd s.screenht (j - 1))).ring j' x' =
          if j - 1 ≤ j' ∧ j' < j - 1 + n then s.ring (j' + 1) x' else s.ring j' x' := by
  induction n generalizing s j with
  | zero =>
    refine ⟨Drawn.refl s, fun j' x' _ _ _ _ => ?_⟩
    rw [if_neg (by omega)]
    rfl
  | succ n ih =>
    have hrow {k k' : Int} (h1 : k - k' < s.screenht) (h2 : k' - k < s.screenht) :
        k % s.screenht = k' % s.screenht ↔ k = k' :=
      ⟨fun h => row_inj h h1 h2, fun h => by rw [h]⟩
    have hne : j % s.screenht ≠ (j - 1) % s.screenht := by
      rw [Ne, hrow (by omega) (by omega)]
      omega
    obtain ⟨t, he, hd, hr⟩ := copyRow_spec 1 hs hne (Or.inl ⟨rfl, rfl⟩)
    have ht := hd.sized hs
    obtain ⟨scr, acc, rfl, ha, hv⟩ := hd
    have hnext (k : Int) : vt_screen_nl (s.draw scr acc) (rowStart s.wd s.screenht k + (0 + 1 * s.wd)) =
        rowStart s.wd s.screenht (k + 1) := by
      rw [Int.zero_add, Int.one_mul]
      exact vt_screen_nl_row ht k
    rw [Int.add_zero, Int.add_zero] at he
    have hstep : copyRows (n + 1) s (rowStart s.wd s.screenht j) (rowStart s.wd s.screenht (j - 1)) =
        copyRows n (s.draw scr acc) (rowStart s.wd s.screenht (j + 1))
          (rowStart s.wd s.screenht (j + 1 - 1)) := by
      rw [copyRows, he]
      dsimp only
      rw [hnext, hnext, show j - 1 + 1 = j + 1 - 1 by omega]
    rw [hstep]
    obtain ⟨hd', hr'⟩ := ih ht (j := j + 1) (by omega) (show j + 1 + n ≤ lo + s.screenht by omega) hH
    refine ⟨Drawn.trans ⟨_, _, rfl, ha, hv⟩ hd', fun j' x' h1 h2 h3 h4 => ?_⟩
    refine (hr' j' x' h1 h2 h3 h4).trans ?_
    rw [Int.natCast_succ]
    have hold (k : Int) (hk : k ≠ j - 1) (h5 : k - (j - 1) < s.screenht) (h6 : j - 1 - k < s.screenht) :
        (s.draw scr acc).ring k x' = s.ring k x' := by
      refine (hr k x' h3 h4).2 ?_
      rwa [Ne, hrow h5 h6]
    by_cases hj1 : j' = j - 1
    · rw [if_neg (by omega), if_pos (by omega), (hr j' x' h3 h4).1 (by rw [hj1]), hj1, Int.sub_add_cancel]
    · rw [hold j' hj1 (by omega) (by omega)]
      by_cases hin : j + 1 - 1 ≤ j' ∧ j' < j + 1 - 1 + n
      · rw [if_pos hin, if_pos (by omega), hold (j' + 1) (by omega) (by omega) (by omega)]
      · rw [if_neg hin, if_neg (by omega)]

end WWindowSystem
