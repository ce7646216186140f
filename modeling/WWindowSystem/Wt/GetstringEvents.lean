import WWindowSystem.Wt.Getstring

namespace WWindowSystem

open Function

variable {s t u : Getstr}

structure Edited (s t : Getstr) : Prop where
  edit : Edit s t
  holds : t.Holds
  placed : t.Placed

theorem Edited.trans (h : Edited s t) (h' : Edited t u) : Edited s u := ⟨h.edit.trans h'.edit, h'.holds, h'.placed⟩

theorem Edited.ite {c : Prop} [Decidable c] (h : c → Edited s t) (h' : ¬ c → Edited s u) :
    Edited s (if c then t else u) := by
  split_ifs with hc
  · exact h hc
  · exact h' hc

theorem cursor_edited (h : s.Holds) {cursor : Int} (hp : ({ s with cursor } : Getstr).Placed) :
    Edited s { s with cursor } :=
  ⟨⟨_, _, _, _, _, _, _, _, rfl⟩, h.moved ⟨rfl, rfl, rfl, rfl, rfl⟩ h.inside, hp⟩

theorem scroll_left_spec (h : s.Holds) (hp : 0 ≤ s.textpos) (hs : 0 ≤ s.showlen) :
    ∃ touched, scroll_left s =
      { s with textpos := if s.textpos + s.showlen ≥ s.textlen then s.textpos else s.textpos + 1, touched } ∧
        ∀ a ∈ touched, a.Inside := by
  have hlen := h.len
  unfold scroll_left
  split_ifs with hend
  · exact ⟨_, rfl, h.inside⟩
  · have hm : ({ s with textpos := s.textpos + 1 } : Getstr).Holds := h.moved ⟨rfl, rfl, rfl, rfl, rfl⟩ h.inside
    exact ⟨_, rfl, (hm.touch (i := s.textpos + 1 + s.showlen - 1)
      ⟨by omega, show s.textpos + 1 + s.showlen - 1 ≤ s.textlen by omega⟩).inside⟩

theorem scroll_right_spec (h : s.Holds) (hp : s.textpos ≤ s.textlen) :
    ∃ touched, scroll_right s = { s with textpos := if s.textpos ≤ 0 then s.textpos else s.textpos - 1, touched } ∧
      ∀ a ∈ touched, a.Inside := by
  unfold scroll_right
  split_ifs with hend
  · exact ⟨_, rfl, h.inside⟩
  · have hm : ({ s with textpos := s.textpos - 1 } : Getstr).Holds := h.moved ⟨rfl, rfl, rfl, rfl, rfl⟩ h.inside
    exact ⟨_, rfl, (hm.touch (i := s.textpos - 1) ⟨by omega, show s.textpos - 1 ≤ s.textlen by omega⟩).inside⟩

theorem scroll_left_edited (h : s.Holds) (hp : s.Placed) : Edited s (scroll_left s) := by
  have hc := hp.cursor
  have hw := hp.within
  have h0 := hp.textpos
  obtain ⟨_, he, ht⟩ := scroll_left_spec h h0 (by omega)
  rw [he]
  refine ⟨⟨_, _, _, _, _, _, _, _, rfl⟩, h.moved ⟨rfl, rfl, rfl, rfl, rfl⟩ ht, ?_, hc, ?_⟩
  · dsimp only
    split_ifs <;> omega
  · dsimp only
    split_ifs <;> omega

theorem scroll_right_edited (h : s.Holds) (hp : s.Placed) : Edited s (scroll_right s) := by
  have hc := hp.cursor
  have hw := hp.within
  have h0 := hp.textpos
  obtain ⟨_, he, ht⟩ := scroll_right_spec h (by omega)
  rw [he]
  refine ⟨⟨_, _, _, _, _, _, _, _, rfl⟩, h.moved ⟨rfl, rfl, rfl, rfl, rfl⟩ ht, ?_, hc, ?_⟩
  · dsimp only
    split_ifs <;> omega
  · dsimp only
    split_ifs <;> omega

variable {j : Int}

theorem moveLeft_spec (n : Nat) (h1 : 1 ≤ j) (hn : j + n ≤ s.bufsize)
    (h : ∀ a ∈ s.touched, a.Inside) : ∃ touched, moveLeft n s j =
      { s with text := fun i => if j - 1 ≤ i ∧ i < j - 1 + n then s.text (i + 1) else s.text i, touched } ∧
        ∀ a ∈ touched, a.Inside := by
  induction n generalizing s j with
  | zero =>
    have htext : (fun i => if j - 1 ≤ i ∧ i < j - 1 + (0 : Nat) then s.text (i + 1) else s.text i) = s.text := by
      funext i
      rw [if_neg (by omega)]
    refine ⟨s.touched, ?_, h⟩
    rw [moveLeft, htext]
  | succ n ih =>
    have h2 := touch_inside h (i := j) ⟨by omega, by omega⟩
    have h3 := touch_inside h2 (i := j - 1) ⟨by omega, show j - 1 < s.bufsize by omega⟩
    obtain ⟨_, he, ht⟩ := ih (s := (s.touch j).put (j - 1) (s.text j)) (j := j + 1) (by omega)
      (show j + 1 + n ≤ s.bufsize by omega) h3
    refine ⟨_, ?_, ht⟩
    rw [moveLeft, he]
    congr 1
    funext i
    change (if j + 1 - 1 ≤ i ∧ i < j + 1 - 1 + n then Function.update s.text (j - 1) (s.text j) (i + 1)
      else Function.update s.text (j - 1) (s.text j) i) = _
    split_ifs with hi hj hj
    · rw [update_of_ne (by omega)]
    · omega
    · rw [show i = j - 1 by omega, update_self, Int.sub_add_cancel]
    · rw [update_of_ne (by omega)]

theorem moveRight_spec (n : Nat) (h0 : (n : Int) ≤ j + 1) (hn : j + 1 < s.bufsize)
    (h : ∀ a ∈ s.touched, a.Inside) : ∃ touched, moveRight n s j =
      { s with text := fun i => if j + 1 - n < i ∧ i ≤ j + 1 then s.text (i - 1) else s.text i, touched } ∧
        ∀ a ∈ touched, a.Inside := by
  induction n generalizing s j with
  | zero =>
    have htext : (fun i => if j + 1 - (0 : Nat) < i ∧ i ≤ j + 1 then s.text (i - 1) else s.text i) = s.text := by
      funext i
      rw [if_neg (by omega)]
    refine ⟨s.touched, ?_, h⟩
    rw [moveRight, htext]
  | succ n ih =>
    have h2 := touch_inside h (i := j) ⟨by omega, by omega⟩
    have h3 := touch_inside h2 (i := j + 1) ⟨by omega, hn⟩
    obtain ⟨_, he, ht⟩ := ih (s := (s.touch j).put (j + 1) (s.text j)) (j := j - 1) (by omega)
      (show j - 1 + 1 < s.bufsize by omega) h3
    refine ⟨_, ?_, ht⟩
    rw [moveRight, he]
    congr 1
    funext i
    change (if j - 1 + 1 - n < i ∧ i ≤ j - 1 + 1 then Function.update s.text (j + 1) (s.text j) (i - 1)
      else Function.update s.text (j + 1) (s.text j) i) = _
    split_ifs with hi hj hj
    · rw [update_of_ne (by omega)]
    · omega
    · rw [show i = j + 1 by omega, update_self, Int.add_sub_cancel]
    · rw [update_of_ne (by omega)]

theorem moveLeft_removed (h : s.Holds) (h1 : 1 ≤ j) (hidx : j ≤ s.textlen) {n : Nat}
    (hn : (n : Int) = s.textlen - j + 1) : ∃ text touched,
      moveLeft n s j = { s with text, touched } ∧ ({ s with text, touched, textlen := s.textlen - 1 } : Getstr).Holds := by
  have hlen := h.len
  obtain ⟨touched, he, ht⟩ := moveLeft_spec n h1 (by omega) h.inside
  refine ⟨_, touched, he, h.has, ⟨by dsimp only; omega, by dsimp only; omega⟩, h.room, ?_, fun i h0 hi => ?_, ht⟩
  · dsimp only
    rw [if_pos (by omega), Int.sub_add_cancel]
    exact h.zero
  · dsimp only at hi ⊢
    split_ifs
    · exact h.nonzero _ (by omega) (by omega)
    · exact h.nonzero i h0 (by omega)

theorem backspace_key_edited (h : s.Holds) (hc : 0 ≤ s.textpos ∧ 0 ≤ s.cursor ∧ s.cursor ≤ s.showlen)
    (h1 : 1 ≤ s.textpos + s.cursor) (hw : s.textpos + s.cursor ≤ s.textlen) : Edited s (backspace_key s) := by
  obtain ⟨_, _, he, hh⟩ := moveLeft_removed h h1 hw (n := (s.textlen - (s.textpos + s.cursor) + 1).toNat) (by omega)
  unfold backspace_key
  dsimp only
  rw [he]
  dsimp only
  split_ifs with hz hrest
  · exact ⟨⟨_, _, _, _, _, _, _, _, rfl⟩, hh.moved ⟨rfl, rfl, rfl, rfl, rfl⟩ hh.inside,
      ⟨show 0 ≤ s.textpos - 1 by omega, hc.2, show s.textpos - 1 + s.cursor ≤ s.textlen - 1 by omega⟩⟩
  · have ht := hh.touch (i := s.textpos + s.showlen - 1)
      ⟨by omega, show s.textpos + s.showlen - 1 ≤ s.textlen - 1 by omega⟩
    exact ⟨⟨_, _, _, _, _, _, _, _, rfl⟩, ht.moved ⟨rfl, rfl, rfl, rfl, rfl⟩ ht.inside,
      ⟨hc.1, ⟨show 0 ≤ s.cursor - 1 by omega, show s.cursor - 1 ≤ s.showlen by omega⟩,
        show s.textpos + (s.cursor - 1) ≤ s.textlen - 1 by omega⟩⟩
  · exact ⟨⟨_, _, _, _, _, _, _, _, rfl⟩, hh.moved ⟨rfl, rfl, rfl, rfl, rfl⟩ hh.inside,
      ⟨hc.1, ⟨show 0 ≤ s.cursor - 1 by omega, show s.cursor - 1 ≤ s.showlen by omega⟩,
        show s.textpos + (s.cursor - 1) ≤ s.textlen - 1 by omega⟩⟩

theorem moveRight_added (h : s.Holds) (h0 : 0 ≤ j) (hidx : j ≤ s.textlen) (hroom : s.textlen < s.maxlen)
    {n : Nat} (hn : (n : Int) = s.textlen - j + 1) {c : Byte} (hc : c ≠ 0) : ∃ text touched,
      moveRight n s s.textlen = { s with text, touched } ∧
        ({ s with text := Function.update text j c, touched := ⟨s.bufsize, j⟩ :: touched, textlen := s.textlen + 1 } :
          Getstr).Holds := by
  have hlen := h.len
  have hmax := h.room
  obtain ⟨touched, he, ht⟩ := moveRight_spec n (j := s.textlen) (by omega) (by omega) h.inside
  refine ⟨_, touched, he, h.has, ⟨by dsimp only; omega, by dsimp only; omega⟩, h.room, ?_, fun i hi0 hi => ?_, ?_⟩
  · dsimp only
    rw [update_of_ne (by omega), if_pos (by omega), Int.add_sub_cancel]
    exact h.zero
  · dsimp only at hi ⊢
    by_cases hne : i = j
    · rw [hne, update_self]
      exact hc
    · rw [update_of_ne hne]
      split_ifs
      · exact h.nonzero _ (by omega) (by omega)
      · exact h.nonzero i hi0 (by omega)
  · exact touch_inside (s := { s with touched }) ht ⟨h0, show j < s.bufsize by omega⟩

variable {key : Int}

theorem add_key_edited (h : s.Holds) (hp : s.Placed) (hk : s.textlen < s.maxlen → BitVec.ofInt 8 key ≠ 0) :
    Edited s (add_key s key) := by
  have hc := hp.cursor
  have hw := hp.within
  have h0 := hp.textpos
  unfold add_key
  split_ifs with hfull
  · exact ⟨Edit.refl s, h, hp⟩
  · obtain ⟨_, _, he, hh⟩ := moveRight_added h (j := s.textpos + s.cursor) (by omega) hw (by omega)
      (n := (s.textlen - (s.textpos + s.cursor) + 1).toNat) (by omega) (hk (by omega))
    dsimp only
    rw [he]
    dsimp only [Getstr.put, Getstr.touch]
    apply Edited.ite
    · intro hend
      obtain ⟨_, hl, ht⟩ := scroll_left_spec hh h0 (show 0 ≤ s.showlen by omega)
      rw [hl]
      refine ⟨⟨_, _, _, _, _, _, _, _, rfl⟩, hh.moved ⟨rfl, rfl, rfl, rfl, rfl⟩ ht, ?_, hc, ?_⟩
      · dsimp only
        split_ifs <;> omega
      · dsimp only
        split_ifs <;> omega
    · intro hend
      exact ⟨⟨_, _, _, _, _, _, _, _, rfl⟩, hh.moved ⟨rfl, rfl, rfl, rfl, rfl⟩ hh.inside,
        ⟨h0, ⟨show 0 ≤ s.cursor + 1 by omega, show s.cursor + 1 ≤ s.showlen by omega⟩,
          show s.textpos + (s.cursor + 1) ≤ s.textlen + 1 by omega⟩⟩

theorem Edited.refl (h : s.Holds) (hp : s.Placed) : Edited s s := ⟨Edit.refl s, h, hp⟩

theorem printable_nonzero (h : s.printable key = true) : BitVec.ofInt 8 key ≠ 0 := by
  unfold Getstr.printable at h
  rw [decide_eq_true_iff] at h
  intro hz
  have hn := congrArg BitVec.toNat hz
  rw [BitVec.toNat_ofInt] at hn
  change (key % 256).toNat = 0 at hn
  omega

theorem delete_edited (h : s.Holds) (hp : s.Placed) : Edited s
    (if s.textpos + s.cursor ≥ s.textlen then s
    else if s.cursor < s.showlen then backspace_key { s with cursor := s.cursor + 1 }
    else
      let key := s.textpos + s.cursor
      let s := moveLeft (s.textlen - key).toNat s (key + 1)
      { s with textlen := s.textlen - 1 }) := by
  have hc := hp.cursor
  have hw := hp.within
  have h0 := hp.textpos
  apply Edited.ite (fun _ => Edited.refl h hp)
  intro hend
  apply Edited.ite
  · intro hin
    have hm : Edited s { s with cursor := s.cursor + 1 } := cursor_edited h ⟨h0, ⟨show 0 ≤ s.cursor + 1 by omega,
      show s.cursor + 1 ≤ s.showlen by omega⟩, show s.textpos + (s.cursor + 1) ≤ s.textlen by omega⟩
    exact hm.trans (backspace_key_edited hm.holds ⟨h0, hm.placed.cursor⟩
      (show 1 ≤ s.textpos + (s.cursor + 1) by omega) hm.placed.within)
  · intro _
    obtain ⟨_, _, he, hh⟩ := moveLeft_removed h (j := s.textpos + s.cursor + 1) (by omega) (by omega)
      (n := (s.textlen - (s.textpos + s.cursor)).toNat) (by omega)
    dsimp only
    rw [he]
    exact ⟨⟨_, _, _, _, _, _, _, _, rfl⟩, hh, ⟨h0, hc, show s.textpos + s.cursor ≤ s.textlen - 1 by omega⟩⟩

theorem cut_holds (h : s.Holds) (textlen : Int) (h0 : 0 ≤ textlen) (hl : textlen ≤ s.textlen) :
    ({ s.put textlen 0 with textlen } : Getstr).Holds := by
  have hlen := h.len
  refine ⟨h.has, ⟨h0, show textlen < s.bufsize by omega⟩, h.room, update_self _ _ _, fun i hi0 hi => ?_,
    touch_inside h.inside ⟨h0, by omega⟩⟩
  dsimp only [Getstr.put, Getstr.touch] at hi ⊢
  rw [update_of_ne (by omega)]
  exact h.nonzero i hi0 (by omega)

theorem kill_edited (h : s.Holds) (hp : s.Placed) : Edited s
    (if s.textpos + s.cursor ≥ s.textlen then s
    else
      let s := { s with textlen := s.textpos + s.cursor }
      s.put s.textlen 0) := by
  have hc := hp.cursor
  have h0 := hp.textpos
  apply Edited.ite (fun _ => Edited.refl h hp)
  intro hend
  have hh := cut_holds h (s.textpos + s.cursor) (by omega) (by omega)
  exact ⟨⟨_, _, _, _, _, _, _, _, rfl⟩, hh.moved ⟨rfl, rfl, rfl, rfl, rfl⟩ hh.inside, ⟨h0, hc, le_refl _⟩⟩

theorem clear_edited (h : s.Holds) (hp : s.Placed) : Edited s
    (if s.textlen < 1 then s
    else
      let s := s.span 0 s.textlen
      { s.put 0 0 with textpos := 0, cursor := 0, textlen := 0 }) := by
  have hc := hp.cursor
  have hlen := h.len
  apply Edited.ite (fun _ => Edited.refl h hp)
  intro hend
  have hs := h.span (i := 0) (n := s.textlen) (le_refl 0) (by omega)
  have hh := cut_holds hs 0 (le_refl 0) hlen.1
  exact ⟨⟨_, _, _, _, _, _, _, _, rfl⟩, hh.moved ⟨rfl, rfl, rfl, rfl, rfl⟩ hh.inside,
    ⟨le_refl 0, ⟨le_refl 0, show 0 ≤ s.showlen by omega⟩, le_refl 0⟩⟩

theorem process_key_edited (h : s.Holds) (hp : s.Placed) (key : Int) : Edited s (process_key s key) := by
  have hc := hp.cursor
  have hw := hp.within
  have h0 := hp.textpos
  have hsame := Edited.refl h hp
  have hmove {cursor : Int} (h1 : 0 ≤ cursor ∧ cursor ≤ s.showlen) (h2 : s.textpos + cursor ≤ s.textlen) :
      Edited s { s with cursor } := cursor_edited h ⟨h0, h1, h2⟩
  unfold process_key
  apply Edited.ite
  · intro _
    apply Edited.ite (fun _ => hsame)
    intro hend
    exact backspace_key_edited h ⟨h0, hc⟩ (by omega) hw
  intro _
  apply Edited.ite (fun _ => delete_edited h hp)
  intro _
  apply Edited.ite (fun _ => kill_edited h hp)
  intro _
  apply Edited.ite (fun _ => clear_edited h hp)
  intro _
  apply Edited.ite
  · intro _
    apply Edited.ite
    · intro _
      apply Edited.ite (fun _ => scroll_right_edited h hp)
      intro _
      exact hmove (by omega) (by omega)
    · exact fun _ => hsame
  intro _
  apply Edited.ite
  · intro _
    apply Edited.ite
    · intro _
      apply Edited.ite (fun _ => scroll_left_edited h hp)
      intro _
      exact hmove (by omega) (by omega)
    · exact fun _ => hsame
  intro _
  apply Edited.ite
  · intro _
    dsimp only
    split_ifs with hz hpos hpos
    · exact absurd hpos (by dsimp only; omega)
    · exact hmove (by omega) (by omega)
    · have hm : ({ s with textpos := 0, cursor := 0 } : Getstr).Holds := h.moved ⟨rfl, rfl, rfl, rfl, rfl⟩ h.inside
      obtain ⟨_, he, ht⟩ := getstring_draw_spec hm ⟨le_refl 0, hm.len.1⟩ (show 0 ≤ s.showlen by omega)
      rw [he]
      exact ⟨⟨_, _, _, _, _, _, _, _, rfl⟩, hm.moved ⟨rfl, rfl, rfl, rfl, rfl⟩ ht,
        ⟨le_refl 0, ⟨le_refl 0, show 0 ≤ s.showlen by omega⟩, show 0 + 0 ≤ s.textlen by omega⟩⟩
    · exact hsame
  intro _
  apply Edited.ite
  · intro _
    apply Edited.ite
    · intro _
      apply Edited.ite
      · intro _
        obtain ⟨he, hh, hpl, -⟩ := draw_to_endpos_spec h (by omega)
        exact ⟨he, hh, hpl⟩
      · intro _
        exact hmove (by omega) (by omega)
    · exact fun _ => hsame
  intro _
  apply Edited.ite (fun _ => hsame)
  intro _
  apply Edited.ite
  · intro hpr
    exact add_key_edited h hp fun _ => printable_nonzero hpr
  · exact fun _ => hsame

theorem process_key_same (hm : ¬ MOVEMENT key) (hd : ¬ DESTRUCTIVE key)
    (hk : s.printable key = true → s.maxlen ≤ s.textlen) : process_key s key = s := by
  unfold MOVEMENT at hm
  unfold DESTRUCTIVE at hd
  push Not at hm hd
  obtain ⟨m1, m2, m3, m4, m5, m6, m7, m8, -⟩ := hm
  obtain ⟨d1, d2, d3, d4, d5⟩ := hd
  unfold process_key
  rw [if_neg d3, if_neg (not_or.mpr ⟨d2, d1⟩), if_neg d5, if_neg d4, if_neg (not_or.mpr ⟨m2, m1⟩),
    if_neg (not_or.mpr ⟨m4, m3⟩), if_neg (not_or.mpr ⟨m6, m5⟩), if_neg (not_or.mpr ⟨m8, m7⟩)]
  split_ifs with hret hpr
  · rfl
  · unfold add_key
    rw [if_pos (hk hpr)]
  · rfl

end WWindowSystem

namespace WWindowSystem

variable {s t : Getstr} {x : Int}

structure Getstr.Valid (s : Getstr) : Prop extends s.Holds, s.Placed, s.Selected where
  wide : 1 ≤ s.char_width
  realized : s.is_realized = true
  returns : s.stuck = false

theorem Edit.fields (h : Edit s t) : t.char_width = s.char_width ∧ t.is_realized = s.is_realized ∧ t.stuck = s.stuck ∧
    t.showlen = s.showlen ∧ t.maxlen = s.maxlen ∧ t.xborder = s.xborder := by
  obtain ⟨_, _, _, _, _, _, _, _, rfl⟩ := h
  exact ⟨rfl, rfl, rfl, rfl, rfl, rfl⟩

theorem Getstr.Valid.edited (h : s.Valid) (he : Edited s t) (hs : t.Selected) : t.Valid := by
  obtain ⟨e1, e2, e3, -⟩ := he.edit.fields
  exact ⟨he.holds, he.placed, hs, e1 ▸ h.wide, e2.trans h.realized, e3.trans h.returns⟩

theorem Getstr.Placed.bounds (hp : s.Placed) : (0 ≤ s.textpos ∧ s.textpos ≤ s.textlen) ∧ 0 ≤ s.showlen := by
  have hc := hp.cursor
  have hw := hp.within
  have h0 := hp.textpos
  omega

theorem paint_text_still (h0 : 0 ≤ x) (hx : x ≤ min s.showlen (s.textlen - s.textpos)) :
    paint_text s x = { s with copyend := s.textpos + x } := by
  have hneg : ¬ x < 0 := by omega
  have hmax : ¬ x > min s.showlen (s.textlen - s.textpos) := by omega
  unfold paint_text
  simp only [if_neg hneg, if_neg hmax]

theorem paint_text_left (hx : x < 0) (hm : 0 ≤ min s.showlen (s.textlen - s.textpos)) :
    paint_text s x = { scroll_right s with copyend := (scroll_right s).textpos + 0 } := by
  have hscroll : (if s.textpos > 0 then scroll_right s else s) = scroll_right s := by
    unfold scroll_right
    split_ifs <;> first | rfl | omega
  have hmax : ¬ 0 > min s.showlen (s.textlen - s.textpos) := by omega
  unfold paint_text
  simp only [if_pos hx, if_neg hmax, hscroll]

theorem paint_text_right (h0 : 0 ≤ x) (hx : x > min s.showlen (s.textlen - s.textpos)) : paint_text s x =
      { scroll_left s with copyend := (scroll_left s).textpos + min s.showlen (s.textlen - s.textpos) } := by
  have hscroll : (if s.textpos + s.showlen < s.textlen then scroll_left s else s) = scroll_left s := by
    unfold scroll_left
    split_ifs <;> first | rfl | omega
  have hneg : ¬ x < 0 := by omega
  unfold paint_text
  simp only [if_neg hneg, if_pos hx, hscroll]

theorem paint_text_spec (h : s.Holds) (hp : s.Placed) (x : Int) :
    ∃ textpos copyend touched, paint_text s x = { s with textpos, copyend, touched } ∧ (∀ a ∈ touched, a.Inside) ∧
      (0 ≤ textpos ∧ textpos + s.cursor ≤ s.textlen) ∧ textpos ≤ copyend ∧ copyend ≤ s.textlen := by
  have hc := hp.cursor
  have hw := hp.within
  obtain ⟨⟨h0, hl⟩, hs⟩ := hp.bounds
  by_cases hneg : x < 0
  · obtain ⟨_, he, ht⟩ := scroll_right_spec h hl
    rw [paint_text_left hneg (by omega), he]
    refine ⟨_, _, _, rfl, ht, ?_, ?_⟩
    · dsimp only
      split_ifs <;> omega
    · dsimp only
      split_ifs <;> omega
  by_cases hmax : x > min s.showlen (s.textlen - s.textpos)
  · obtain ⟨_, he, ht⟩ := scroll_left_spec h h0 hs
    rw [paint_text_right (by omega) hmax, he]
    refine ⟨_, _, _, rfl, ht, ?_, ?_⟩
    · dsimp only
      split_ifs <;> omega
    · dsimp only
      split_ifs <;> omega
  · rw [paint_text_still (by omega) (by omega)]
    exact ⟨_, _, _, rfl, h.inside, by omega, by omega⟩

theorem paint_text_edited (h : s.Holds) (hp : s.Placed) (hs : s.Selected) (x : Int) :
    Edited s (paint_text s x) ∧ (paint_text s x).Selected := by
  obtain ⟨_, _, _, he, ht, hpos, hend⟩ := paint_text_spec h hp x
  rw [he]
  exact ⟨⟨⟨_, _, _, _, _, _, _, _, rfl⟩, h.moved ⟨rfl, rfl, rfl, rfl, rfl⟩ ht, ⟨hpos.1, hp.cursor, hpos.2⟩⟩,
    ⟨hs.copystart, hend⟩⟩

theorem clear_selection_spec (hp : s.Placed) (hs : s.Selected) :
    ∃ copyend, clear_selection s = { s with copyend } ∧ s.textpos ≤ copyend ∧ copyend ≤ s.textlen := by
  have hstart := hs.copystart
  obtain ⟨⟨h0, hl⟩, hshow⟩ := hp.bounds
  unfold clear_selection
  split_ifs with hne hleft hright
  · exact ⟨_, paint_text_still (le_refl 0) (by omega), by omega, by omega⟩
  · exact ⟨_, paint_text_still hshow (by omega), by omega, by omega⟩
  · exact ⟨_, paint_text_still (by omega) (by omega), by omega, by omega⟩
  · exact ⟨s.copyend, rfl, hs.copyend⟩

theorem clear_selection_edited (h : s.Holds) (hp : s.Placed) (hs : s.Selected) :
    Edited s (clear_selection s) ∧ (clear_selection s).Selected := by
  obtain ⟨_, he, hend⟩ := clear_selection_spec hp hs
  rw [he]
  exact ⟨⟨⟨_, _, _, _, _, _, _, _, rfl⟩, h.moved ⟨rfl, rfl, rfl, rfl, rfl⟩ h.inside,
    ⟨hp.textpos, hp.cursor, hp.within⟩⟩, ⟨hs.copystart, hend⟩⟩

theorem cursor_position_edited (h : s.Holds) (hp : 0 ≤ s.textpos ∧ s.textpos ≤ s.textlen) (hs : 0 ≤ s.showlen)
    (hx : min x (s.textlen - s.textpos) ≤ s.showlen) :
    Edited s (cursor_position s x) ∧ (cursor_position s x).Selected := by
  have hall (c : Int) (h0 : 0 ≤ c ∧ c ≤ s.showlen) (hc : s.textpos + c ≤ s.textlen) :
      Edited s { s with copystart := s.textpos + c, copyend := s.textpos + c, cursor := c } ∧
        ({ s with copystart := s.textpos + c, copyend := s.textpos + c, cursor := c } : Getstr).Selected :=
    ⟨⟨⟨_, _, _, _, _, _, _, _, rfl⟩, h.moved ⟨rfl, rfl, rfl, rfl, rfl⟩ h.inside, ⟨hp.1, h0, hc⟩⟩,
      ⟨⟨show 0 ≤ s.textpos + c by omega, hc⟩, ⟨show s.textpos ≤ s.textpos + c by omega, hc⟩⟩⟩
  unfold cursor_position
  dsimp only
  split_ifs with hend hneg
  · exact hall _ (by omega) (by omega)
  · exact hall 0 (by omega) (by omega)
  · exact hall x (by omega) (by omega)

theorem cursor_edited_position (he : Edited s t) (x : Int) (hx : x = t.cursor) :
    Edited s (cursor_position t x) ∧ (cursor_position t x).Selected := by
  have hc := he.placed.cursor
  obtain ⟨hb, hs⟩ := he.placed.bounds
  obtain ⟨hp, hsel⟩ := cursor_position_edited (x := x) he.holds hb hs (by omega)
  exact ⟨he.trans hp, hsel⟩

theorem moveRight_textlen (n : Nat) (idx : Int) : (moveRight n s idx).textlen = s.textlen := by
  induction n generalizing s idx with
  | zero => rfl
  | succ n ih =>
    rw [moveRight, ih]
    rfl

theorem scroll_left_textlen (s : Getstr) : (scroll_left s).textlen = s.textlen := by
  unfold scroll_left
  split_ifs <;> rfl

theorem add_key_textlen (hroom : s.textlen < s.maxlen) (key : Int) : (add_key s key).textlen = s.textlen + 1 := by
  have hm (n : Nat) := moveRight_textlen (s := s) n s.textlen
  unfold add_key
  rw [if_neg (by omega)]
  refine (apply_ite Getstr.textlen _ _ _).trans ?_
  rw [scroll_left_textlen]
  exact (ite_self _).trans (congrArg (· + 1) (hm _))

theorem paste_edited {data : List Byte} (hl : data.length < 2 ^ 15) (h : s.Holds) (hp : s.Placed)
    (hn : (0 : Byte) ∉ data.take (s.maxlen - s.textlen).toNat) : Edited s (paste s data) := by
  unfold paste
  rw [if_pos hl]
  clear hl
  induction data generalizing s with
  | nil => exact Edited.refl h hp
  | cons c data ih =>
    rw [List.foldl_cons]
    by_cases hroom : s.textlen < s.maxlen
    · obtain ⟨k, hk⟩ : ∃ k, (s.maxlen - s.textlen).toNat = k + 1 := ⟨(s.maxlen - s.textlen).toNat - 1, by omega⟩
      rw [hk, List.take_succ_cons, List.mem_cons, not_or] at hn
      have ha : Edited s (add_key s c.toInt) := add_key_edited h hp fun _ hz => by
        rw [BitVec.ofInt_toInt] at hz
        exact hn.1 hz.symm
      obtain ⟨-, -, -, -, hmax, -⟩ := ha.edit.fields
      refine ha.trans (ih ha.holds ha.placed ?_)
      rw [hmax, add_key_textlen hroom, show (s.maxlen - (s.textlen + 1)).toNat = k by omega]
      exact hn.2
    · have hfull : add_key s c.toInt = s := by
        unfold add_key
        rw [if_pos (by omega)]
      rw [hfull]
      apply ih h hp
      rw [show (s.maxlen - s.textlen).toNat = 0 by omega, List.take_zero]
      exact List.not_mem_nil

end WWindowSystem

namespace WWindowSystem

variable {s t : Getstr} {d : Getstring} {self : Int}

theorem memcpy_removed (h : s.Holds) {a b : Int} (h0 : 0 ≤ a) (hab : a ≤ b) (hb : b ≤ s.textlen) : ∃ text touched,
    s.memcpy a b (s.textlen - b + 1) = { s with text, touched } ∧
      ({ s with text, touched, textlen := s.textlen - (b - a) } : Getstr).Holds := by
  have hlen := h.len
  have hin := span_inside (span_inside h.inside (i := b) (n := s.textlen - b + 1) (by omega) (by omega))
    (i := a) (n := s.textlen - b + 1) h0 (show a + (s.textlen - b + 1) ≤ s.bufsize by omega)
  have hn : ¬ s.textlen - b + 1 < 0 := by omega
  unfold Getstr.memcpy
  simp only [if_neg hn]
  refine ⟨_, _, rfl, h.has, ⟨by dsimp only; omega, by dsimp only; omega⟩, h.room, ?_, fun i hi0 hi => ?_, hin⟩
  · dsimp only
    rw [if_pos (by omega), show s.textlen - (b - a) - a + b = s.textlen by omega]
    exact h.zero
  · dsimp only at hi ⊢
    split_ifs
    · exact h.nonzero _ (by omega) (by omega)
    · exact h.nonzero i hi0 (by omega)

structure Removed (s t : Getstr) : Prop where
  edit : Edit s t
  holds : t.Holds
  textpos : 0 ≤ t.textpos ∧ t.textpos ≤ t.textlen
  cursor : 0 ≤ t.cursor ∧ t.cursor ≤ t.showlen

def Getstr.Undrifted (s : Getstr) : Prop :=
  s.copystart < s.copyend → s.textpos ≤ s.copystart → s.textpos + s.cursor ≤ s.textlen - (s.copyend - s.copystart)

theorem remove_selection_left (h : s.Holds) (hp : s.Placed) (hs : s.Selected) (hlt : s.copyend < s.copystart)
    (hvis : s.copyend ≤ s.textpos + s.showlen) : Edited s (remove_selection s) := by
  have hstart := hs.copystart
  have hend := hs.copyend
  obtain ⟨hb, hshow⟩ := hp.bounds
  obtain ⟨text, touched, he, hh⟩ := memcpy_removed h (a := s.copyend) (b := s.copystart) (by omega) (by omega) (by omega)
  unfold remove_selection
  rw [if_pos hlt]
  dsimp only
  rw [he]
  have hm : ({ s with text, touched, textlen := s.textlen - (s.copystart - s.copyend)
                      cursor := s.copyend - s.textpos } : Getstr).Holds := hh.moved ⟨rfl, rfl, rfl, rfl, rfl⟩ hh.inside
  obtain ⟨_, hdraw, ht⟩ := getstring_draw_spec hm
    ⟨hb.1, show s.textpos ≤ s.textlen - (s.copystart - s.copyend) by omega⟩ hshow
  rw [hdraw]
  exact ⟨⟨_, _, _, _, _, _, _, _, rfl⟩, hm.moved ⟨rfl, rfl, rfl, rfl, rfl⟩ ht, ⟨hb.1,
    ⟨show 0 ≤ s.copyend - s.textpos by omega, show s.copyend - s.textpos ≤ s.showlen by omega⟩,
    show s.textpos + (s.copyend - s.textpos) ≤ s.textlen - (s.copystart - s.copyend) by omega⟩⟩

theorem remove_selection_right (h : s.Holds) (hp : s.Placed) (hs : s.Selected) (hlt : s.copystart < s.copyend) :
    Removed s (remove_selection s) ∧ (remove_selection s).textlen = s.textlen - (s.copyend - s.copystart) ∧
      (s.Undrifted → (remove_selection s).Placed) := by
  have hstart := hs.copystart
  have hend := hs.copyend
  have hc := hp.cursor
  obtain ⟨hb, hshow⟩ := hp.bounds
  obtain ⟨text, touched, he, hh⟩ := memcpy_removed h (a := s.copystart) (b := s.copyend) hstart.1 (by omega) hend.2
  unfold remove_selection
  rw [if_neg (by omega)]
  dsimp only
  rw [he]
  dsimp only
  split_ifs with hleft
  · have hm : ({ s with text, touched, textlen := s.textlen - (s.copyend - s.copystart)
                        textpos := s.copystart, cursor := 0 } : Getstr).Holds :=
      hh.moved ⟨rfl, rfl, rfl, rfl, rfl⟩ hh.inside
    have hin : s.copystart ≤ s.textlen - (s.copyend - s.copystart) := by omega
    obtain ⟨_, hdraw, ht⟩ := getstring_draw_spec hm ⟨hstart.1, hin⟩ hshow
    rw [hdraw]
    exact ⟨⟨⟨_, _, _, _, _, _, _, _, rfl⟩, hm.moved ⟨rfl, rfl, rfl, rfl, rfl⟩ ht, ⟨hstart.1, hin⟩, ⟨le_refl 0, hshow⟩⟩, rfl,
      fun _ => ⟨hstart.1, ⟨le_refl 0, hshow⟩, show s.copystart + 0 ≤ s.textlen - (s.copyend - s.copystart) by omega⟩⟩
  · have hin : s.textpos ≤ s.textlen - (s.copyend - s.copystart) := by omega
    obtain ⟨_, hdraw, ht⟩ := getstring_draw_spec hh ⟨hb.1, hin⟩ hshow
    rw [hdraw]
    exact ⟨⟨⟨_, _, _, _, _, _, _, _, rfl⟩, hh.moved ⟨rfl, rfl, rfl, rfl, rfl⟩ ht, ⟨hb.1, hin⟩, hc⟩, rfl,
      fun hu => ⟨hb.1, hc, hu hlt (by omega)⟩⟩

def Getstr.PasteOk (s : Getstr) : Option (List Byte) → Prop
  | none => True
  | some data => data.length < 2 ^ 15 ∧ (0 : Byte) ∉ data.take (s.maxlen - s.textlen).toNat

def Getstr.PressOk (s : Getstr) (x key : Int) (sel : Option (List Byte)) : Prop :=
  min (short ((x - s.xborder).tdiv s.char_width)) (s.textlen - s.textpos) ≤ s.showlen ∧
    (key = Getstr.BUTTON_RIGHT → s.PasteOk sel)

def Getstr.KeyOk (s : Getstr) (key : Int) : Prop :=
  s.copyend ≠ s.copystart → ¬ MOVEMENT key →
    (s.copyend < s.copystart → s.copyend ≤ s.textpos + s.showlen) ∧
      (¬ DESTRUCTIVE key → s.printable key = true → s.textlen - (s.copyend - s.copystart) < s.maxlen → s.Undrifted)

def GetstringEvent.Ok (s : Getstr) : GetstringEvent → Prop
  | .mpress x k sel _ => s.PressOk x k sel
  | .mrelease _ => True
  | .key k => s.KeyOk k

theorem Getstr.Valid.same (h : s.Valid) (he : ∃ cursor_on timer, t = { s with cursor_on, timer }) : t.Valid := by
  obtain ⟨_, _, rfl⟩ := he
  exact ⟨h.toHolds.moved ⟨rfl, rfl, rfl, rfl, rfl⟩ h.inside, ⟨h.textpos, h.cursor, h.within⟩,
    ⟨h.copystart, h.copyend⟩, h.wide, h.realized, h.returns⟩

theorem Getstr.Valid.invert (h : s.Valid) : (cursor_invert s).Valid := h.same ⟨_, _, rfl⟩

theorem stop_valid (h : d.s.Valid) : (d.stop self).s.Valid := by
  unfold Getstring.stop
  split_ifs
  · exact h.same ⟨_, _, rfl⟩
  · exact h

theorem timer_callback_valid (h : d.s.Valid) (mouse : Option Int) : (timer_callback self d mouse).s.Valid := by
  unfold timer_callback
  cases mouse with
  | none => exact h.same ⟨_, _, rfl⟩
  | some mx =>
    have hi := h.invert
    obtain ⟨he, hs⟩ := paint_text_edited hi.toHolds hi.toPlaced hi.toSelected
      (short ((mx - d.s.xborder).tdiv d.s.char_width))
    exact (hi.edited he hs).invert.same ⟨_, _, rfl⟩

theorem mpress_valid (h : d.s.Valid) {x key : Int} {sel : Option (List Byte)} (hok : d.s.PressOk x key sel)
    (mouse : Option Int) : (getstring_event self d (.mpress x key sel mouse)).s.Valid := by
  have hi := h.invert
  obtain ⟨copyend, hclear, hin⟩ := clear_selection_spec hi.toPlaced hi.toSelected
  obtain ⟨hec, hsc⟩ := clear_selection_edited hi.toHolds hi.toPlaced hi.toSelected
  obtain ⟨hb, hshow⟩ := hec.placed.bounds
  have hcol : min (short ((x - (clear_selection (cursor_invert d.s)).xborder).tdiv
      (clear_selection (cursor_invert d.s)).char_width)) ((clear_selection (cursor_invert d.s)).textlen -
      (clear_selection (cursor_invert d.s)).textpos) ≤ (clear_selection (cursor_invert d.s)).showlen := by
    rw [hclear]
    exact hok.1
  obtain ⟨hep, hsp⟩ := cursor_position_edited hec.holds hb hshow hcol
  have hroom : (clear_selection (cursor_invert d.s)).maxlen - (clear_selection (cursor_invert d.s)).textlen =
      d.s.maxlen - d.s.textlen := by
    rw [hclear]
    rfl
  have hv := (hi.edited hec hsc).edited hep hsp
  unfold getstring_event
  dsimp only
  split_ifs with hl hr
  · exact timer_callback_valid (d := ⟨cursor_invert _, d.T⟩) hv.invert mouse
  · cases sel with
    | none => exact hv
    | some data =>
      obtain ⟨hlen, hn⟩ := hok.2 hr
      rw [← hroom] at hn
      have hpaste := paste_edited hlen hv.toHolds hv.toPlaced hn
      obtain ⟨he, hs⟩ := cursor_edited_position hpaste _ rfl
      exact (hv.edited he hs).invert
  · exact hv

theorem mrelease_valid (h : d.s.Valid) (key : Int) : (getstring_event self d (.mrelease key)).s.Valid := by
  have hs : (d.stop self).s.Valid := stop_valid h
  have hstart := hs.copystart
  have hend := hs.copyend
  have h0 := hs.textpos
  unfold getstring_event
  dsimp only
  split_ifs with hsel hlt
  · have hh := hs.toHolds.span (i := min (d.stop self).s.copyend (d.stop self).s.copystart)
      (n := (d.stop self).s.copystart - (d.stop self).s.copyend) (by omega) (by omega)
    exact ⟨hh, ⟨hs.textpos, hs.cursor, hs.within⟩, ⟨hs.copystart, hs.copyend⟩, hs.wide, hs.realized, hs.returns⟩
  · have hh := hs.toHolds.span (i := min (d.stop self).s.copyend (d.stop self).s.copystart)
      (n := (d.stop self).s.copyend - (d.stop self).s.copystart) (by omega) (by omega)
    exact ⟨hh, ⟨hs.textpos, hs.cursor, hs.within⟩, ⟨hs.copystart, hs.copyend⟩, hs.wide, hs.realized, hs.returns⟩
  · exact hs

theorem Removed.position (h : Removed s t) :
    Edited s (cursor_position t t.cursor) ∧ (cursor_position t t.cursor).Selected := by
  have hc := h.cursor
  obtain ⟨he, hs⟩ := cursor_position_edited h.holds h.textpos (by omega) (x := t.cursor) (by omega)
  exact ⟨⟨h.edit.trans he.edit, he.holds, he.placed⟩, hs⟩

theorem Edited.removed (h : Edited s t) : Removed s t := by
  have hb := h.placed.bounds
  exact ⟨h.edit, h.holds, hb.1, h.placed.cursor⟩

theorem processed_edited (h : Edited s t) (key : Int) :
    Edited s (cursor_position (process_key t key) (process_key t key).cursor) ∧
      (cursor_position (process_key t key) (process_key t key).cursor).Selected :=
  (h.trans (process_key_edited h.holds h.placed key)).removed.position

theorem Edit.printable (h : Edit s t) (key : Int) : t.printable key = s.printable key := by
  obtain ⟨_, _, _, _, _, _, _, _, rfl⟩ := h
  rfl

variable {key : Int}

theorem replaced_edited (h : s.Valid) (hok : s.KeyOk key) (hne : s.copyend ≠ s.copystart)
    (hm : ¬ MOVEMENT key) (hd : ¬ DESTRUCTIVE key) :
    Edited s (cursor_position (process_key (remove_selection s) key) (process_key (remove_selection s) key).cursor) ∧
      (cursor_position (process_key (remove_selection s) key)
        (process_key (remove_selection s) key).cursor).Selected := by
  obtain ⟨hvis, hdrift⟩ := hok hne hm
  obtain hlt | hlt := Int.lt_or_lt_of_ne hne
  · exact processed_edited (remove_selection_left h.toHolds h.toPlaced h.toSelected hlt (hvis hlt)) key
  · obtain ⟨hr, hlen, hpl⟩ := remove_selection_right h.toHolds h.toPlaced h.toSelected hlt
    by_cases hu : s.Undrifted
    · exact processed_edited ⟨hr.edit, hr.holds, hpl hu⟩ key
    · have hsame : process_key (remove_selection s) key = remove_selection s := by
        apply process_key_same hm hd
        intro hp
        rw [hr.edit.printable] at hp
        obtain ⟨-, -, -, -, hmax, -⟩ := hr.edit.fields
        rw [hmax, hlen]
        by_contra hroom
        exact hu (hdrift hd hp (by omega))
      rw [hsame]
      exact hr.position

theorem destroyed_edited (h : s.Valid) (hok : s.KeyOk key) (hne : s.copyend ≠ s.copystart)
    (hm : ¬ MOVEMENT key) : Edited s (cursor_position (remove_selection s) (remove_selection s).cursor) ∧
      (cursor_position (remove_selection s) (remove_selection s).cursor).Selected := by
  obtain ⟨hvis, -⟩ := hok hne hm
  obtain hlt | hlt := Int.lt_or_lt_of_ne hne
  · exact (remove_selection_left h.toHolds h.toPlaced h.toSelected hlt (hvis hlt)).removed.position
  · exact (remove_selection_right h.toHolds h.toPlaced h.toSelected hlt).1.position

theorem key_valid (h : d.s.Valid) (hok : d.s.KeyOk key) : (getstring_event self d (.key key)).s.Valid := by
  have hshow {t : Getstr} (c : Bool) (ht : t.Valid) : (if c = true then cursor_invert t else t).Valid := by
    split_ifs
    · exact ht.invert
    · exact ht
  unfold getstring_event
  dsimp only
  have hs : (if d.s.cursor_on = true then cursor_invert d.s else d.s).Valid := hshow d.s.cursor_on h
  have hks : (if d.s.cursor_on = true then cursor_invert d.s else d.s).KeyOk key := by
    split_ifs
    · exact hok
    · exact hok
  generalize (if d.s.cursor_on = true then cursor_invert d.s else d.s) = s at hs hks ⊢
  by_cases hne : s.copyend ≠ s.copystart
  · rw [if_pos hne]
    by_cases hm : MOVEMENT key
    · rw [if_pos hm]
      obtain ⟨hec, hsc⟩ := clear_selection_edited hs.toHolds hs.toPlaced hs.toSelected
      obtain ⟨he, hsel⟩ := processed_edited hec key
      exact hshow _ (hs.edited he hsel)
    rw [if_neg hm]
    by_cases hd : DESTRUCTIVE key
    · rw [if_pos hd]
      obtain ⟨he, hsel⟩ := destroyed_edited hs hks hne hm
      exact hshow _ (hs.edited he hsel)
    · rw [if_neg hd]
      obtain ⟨he, hsel⟩ := replaced_edited hs hks hne hm hd
      exact hshow _ (hs.edited he hsel)
  · rw [if_neg hne]
    obtain ⟨he, hsel⟩ := processed_edited (Edited.refl hs.toHolds hs.toPlaced) key
    exact hshow _ (hs.edited he hsel)

theorem getstring_event_valid (h : d.s.Valid) {e : GetstringEvent} (hok : e.Ok d.s) :
    (getstring_event self d e).s.Valid := by
  cases e with
  | mpress x key sel mouse => exact mpress_valid h hok mouse
  | mrelease key => exact mrelease_valid h key
  | key k => exact key_valid h hok

end WWindowSystem
