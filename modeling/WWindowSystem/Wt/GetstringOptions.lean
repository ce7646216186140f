import Mathlib.Data.List.GetD
import WWindowSystem.Library.Run
import WWindowSystem.Wt.GetstringEvents

namespace WWindowSystem

variable {s t : Getstr} {d : Getstring} {self wd : Int}

structure Getstr.Stored (s : Getstr) : Prop where
  room : 0 ≤ s.maxlen
  full : s.hasText = true → s.Holds
  none : s.hasText = false → (s.bufsize = 0 ∧ s.maxlen = 0 ∧ s.textlen = 0) ∧ ∀ a ∈ s.touched, a.Inside

theorem Getstr.Holds.stored (h : s.Holds) : s.Stored :=
  ⟨h.room.1, fun _ => h, fun hf => absurd (h.has.symm.trans hf) (by decide)⟩

theorem Getstr.Stored.moved (h : s.Stored) (he : t.hasText = s.hasText ∧ t.text = s.text ∧ t.bufsize = s.bufsize ∧
    t.maxlen = s.maxlen ∧ t.textlen = s.textlen ∧ t.touched = s.touched) : t.Stored := by
  obtain ⟨e1, e2, e3, e4, e5, e6⟩ := he
  refine ⟨e4 ▸ h.room, fun hf => ?_, fun hf => ?_⟩
  · have hh := h.full (e1 ▸ hf)
    exact hh.moved ⟨e1, e2, e3, e4, e5⟩ (e6 ▸ hh.inside)
  · rw [e3, e4, e5, e6]
    exact h.none (e1 ▸ hf)

theorem strcpy_holds (hin : ∀ a ∈ s.touched, a.Inside) (hhas : s.hasText = true) (hroom : 0 ≤ s.maxlen ∧ s.maxlen < s.bufsize)
    {val : List Byte} (hl : (val.length : Int) < s.bufsize) (hz : (0 : Byte) ∉ val) :
    ({ s.strcpy val with textlen := val.length } : Getstr).Holds := by
  refine ⟨hhas, ⟨Int.natCast_nonneg _, hl⟩, hroom, ?_, fun i h0 hi => ?_, span_inside hin (le_refl 0) (by omega)⟩
  · dsimp only [Getstr.strcpy]
    rw [if_pos (by omega), Int.toNat_natCast, List.getD_eq_default _ _ (le_refl _)]
  · dsimp only [Getstr.strcpy] at hi ⊢
    rw [if_pos (by omega), List.getD_eq_getElem _ _ (by omega)]
    intro hzero
    exact hz (hzero ▸ List.getElem_mem _)

def Getstr.withText (s : Getstr) (val : List Byte) : Getstr :=
  let len := short val.length
  let s := if ¬ s.hasText ∨ len ≥ s.bufsize then { s with bufsize := len + 1, hasText := true } else s
  let s := s.strcpy val
  let s := { s with textlen := len }
  if s.maxlen = (0 : Int) then { s with maxlen := len } else s

theorem maxlen_holds (h : s.Holds) :
    (if s.maxlen = (0 : Int) then ({ s with maxlen := s.textlen } : Getstr) else s).Holds := by
  split_ifs
  · exact ⟨h.has, h.len, h.len, h.zero, h.nonzero, h.inside⟩
  · exact h

theorem withText_holds (h : s.Stored) {val : List Byte} (hl : val.length ≤ 1000) (hz : (0 : Byte) ∉ val) :
    (s.withText val).Holds := by
  have hmax := h.room
  unfold Getstr.withText
  dsimp only
  rw [short_of_range (by omega) (by omega)]
  have hgrown : ∀ t, (if ¬ s.hasText ∨ (val.length : Int) ≥ s.bufsize then
      ({ s with bufsize := val.length + 1, hasText := true } : Getstr) else s) = t →
      (∀ a ∈ t.touched, a.Inside) ∧ t.hasText = true ∧ (0 ≤ t.maxlen ∧ t.maxlen < t.bufsize) ∧
        (val.length : Int) < t.bufsize := by
    rintro t rfl
    by_cases hhas : s.hasText = true
    · have hh := h.full hhas
      have hroom := hh.room
      split_ifs with hnew
      · have hge := hnew.resolve_left (not_not.mpr hhas)
        exact ⟨hh.inside, rfl, ⟨hmax, by dsimp only; omega⟩, by dsimp only; omega⟩
      · exact ⟨hh.inside, hhas, hroom, lt_of_not_ge fun hge => hnew (Or.inr hge)⟩
    · obtain ⟨hnone, hin⟩ := h.none (Bool.eq_false_of_not_eq_true hhas)
      rw [if_pos (Or.inl hhas)]
      exact ⟨hin, rfl, ⟨hmax, by dsimp only; omega⟩, by dsimp only; omega⟩
  generalize (if ¬ s.hasText ∨ (val.length : Int) ≥ s.bufsize then
      ({ s with bufsize := val.length + 1, hasText := true } : Getstr) else s) = t at hgrown ⊢
  obtain ⟨hin, hhas, hroom, hlen⟩ := hgrown t rfl
  exact maxlen_holds (strcpy_holds hin hhas hroom hlen hz)

def Getstr.withLength (s : Getstr) (val : Int) : Getstr :=
  let s := { s with maxlen := short val }
  if s.maxlen ≥ s.bufsize then
    if s.hasText then
      let t : Getstr := { s.readString 0 with bufsize := s.maxlen + 1 }
      t.span 0 (stringLength s.text s.bufsize.toNat 0 + 1)
    else Getstr.put { s with bufsize := s.maxlen + 1, hasText := true } 0 0
  else s

theorem withLength_holds (h : s.Stored) {val : Int} (hval : 1 ≤ val ∧ val ≤ 1000) : (s.withLength val).Holds := by
  unfold Getstr.withLength
  dsimp only
  rw [short_of_range (by omega) (by omega)]
  by_cases hhas : s.hasText = true
  · have hh := h.full hhas
    have hlen := hh.len
    split_ifs with hnew
    · have hread := readString_inside (s := { s with maxlen := val }) hh.inside (le_refl 0) hlen.1 hlen.2 hh.zero
      have hstr := stringLength_le hh.zero s.bufsize.toNat hlen.1
      refine ⟨hhas, ⟨hlen.1, show s.textlen < val + 1 by omega⟩, ⟨show 0 ≤ val by omega, show val < val + 1 by omega⟩,
        hh.zero, hh.nonzero, span_inside hread (le_refl 0) ?_⟩
      change (0 : Int) + (stringLength s.text s.bufsize.toNat 0 + 1) ≤ val + 1
      omega
    · exact ⟨hhas, hlen, ⟨show 0 ≤ val by omega, show val < s.bufsize by omega⟩, hh.zero, hh.nonzero, hh.inside⟩
  · obtain ⟨⟨hbuf, -, hl⟩, hin⟩ := h.none (Bool.eq_false_of_not_eq_true hhas)
    rw [if_pos (by omega), if_neg hhas]
    refine ⟨rfl, ⟨show 0 ≤ s.textlen by omega, show s.textlen < val + 1 by omega⟩,
      ⟨show 0 ≤ val by omega, show val < val + 1 by omega⟩, ?_, fun i h0 hi => ?_,
      touch_inside (s := { s with maxlen := val, bufsize := val + 1, hasText := true }) hin
        ⟨le_refl 0, show 0 < val + 1 by omega⟩⟩
    · dsimp only [Getstr.put, Getstr.touch]
      rw [hl, Function.update_self]
    · have : i < s.textlen := hi
      omega

def Getstr.fit (s : Getstr) (wd : Int) : Int :=
  if s.usrshowlen > s.roomFor wd ∧ s.usrshowlen ≤ s.maxlen then s.usrshowlen else s.roomFor wd

theorem fit_nonneg (h : 0 ≤ s.maxlen) (wd : Int) : 0 ≤ s.fit wd := by
  have hroom : 0 ≤ s.roomFor wd := by
    unfold Getstr.roomFor
    dsimp only
    split_ifs <;> omega
  unfold Getstr.fit
  split_ifs <;> omega

theorem query_minsize_fit (s : Getstr) (wd : Int) : getstring_query_minsize { s with showlen := s.roomFor wd } =
    ({ s with showlen := s.fit wd }, max (s.char_width * s.fit wd + 2 * XBORDER) s.usrwd, s.fontht + 2 * YBORDER) := by
  unfold getstring_query_minsize Getstr.fit
  dsimp only
  split_ifs <;> rfl

structure Getstr.Loose (s : Getstr) : Prop extends s.Holds, s.Selected where
  textpos : 0 ≤ s.textpos
  cursor : 0 ≤ s.cursor
  within : s.textpos + s.cursor ≤ s.textlen
  showlen : 0 ≤ s.showlen
  wide : 1 ≤ s.char_width
  realized : s.is_realized = true
  returns : s.stuck = false

theorem Getstr.Loose.valid (h : s.Loose) (hc : s.cursor ≤ s.showlen) : s.Valid :=
  ⟨h.toHolds, ⟨h.textpos, ⟨h.cursor, hc⟩, h.within⟩, h.toSelected, h.wide, h.realized, h.returns⟩

theorem Getstr.Valid.loose (h : s.Valid) : s.Loose :=
  ⟨h.toHolds, h.toSelected, h.textpos, h.cursor.1, h.within, h.toPlaced.bounds.2, h.wide, h.realized, h.returns⟩

theorem Getstr.Loose.sized (h : s.Loose) {showlen : Int} (h0 : 0 ≤ showlen)
    (he : ∃ w xborder timer usrwd usrshowlen, t = { s with w, xborder, timer, usrwd, usrshowlen, showlen }) : t.Loose := by
  obtain ⟨_, _, _, _, _, rfl⟩ := he
  exact ⟨h.toHolds.moved ⟨rfl, rfl, rfl, rfl, rfl⟩ h.inside, ⟨h.copystart, h.copyend⟩, h.textpos, h.cursor, h.within,
    h0, h.wide, h.realized, h.returns⟩

theorem redraw_valid (h : s.Holds) (h0 : 0 ≤ s.showlen) (hw : 1 ≤ s.char_width) (hr : s.is_realized = true)
    (hs : s.stuck = false) : (redraw_getstring s).Valid := by
  obtain ⟨he, hh, hp, hsel⟩ := redraw_getstring_spec h h0
  obtain ⟨e1, e2, e3, -⟩ := he.fields
  exact ⟨hh, hp, hsel, e1 ▸ hw, e2.trans hr, e3.trans hs⟩

theorem stop_same (d : Getstring) (self : Int) : ∃ timer, (d.stop self).s = { d.s with timer } := by
  unfold Getstring.stop
  split_ifs
  · exact ⟨_, rfl⟩
  · exact ⟨d.s.timer, rfl⟩

def Getstr.ReshapeOk (s : Getstr) (wd : Int) : Prop :=
  if wd = s.w.w then s.cursor ≤ s.showlen
  else s.cursor ≤ s.fit wd ∨ max (max (s.char_width * s.fit wd + 2 * XBORDER) s.usrwd) wd ≠ s.w.w ∨
    s.fontht + 2 * YBORDER ≠ s.w.h

theorem query_minsize_grows (s : Getstr) : ∃ showlen, s.showlen ≤ showlen ∧
    (getstring_query_minsize s).1 = { s with showlen } := by
  unfold getstring_query_minsize
  dsimp only
  split_ifs with hg
  · exact ⟨_, le_of_lt hg.1, rfl⟩
  · exact ⟨_, le_refl _, rfl⟩

theorem resized_valid (h : d.s.Loose) (w : Int) : (redraw_getstring { (getstring_query_geometry (d.stop self).s).1 with
      w := { (getstring_query_geometry (d.stop self).s).1.w with w } }).Valid := by
  obtain ⟨timer, hstop⟩ := stop_same d self
  rw [hstop]
  obtain ⟨showlen, hge, hq⟩ := query_minsize_grows { d.s with timer }
  have hg : (getstring_query_geometry { d.s with timer }).1 = { d.s with timer, showlen } := hq
  rw [hg]
  have h0 := h.showlen
  have hl : ({ d.s with timer, showlen, w := { d.s.w with w } } : Getstr).Loose :=
    h.sized (le_trans h0 hge) ⟨_, _, _, _, _, rfl⟩
  exact redraw_valid hl.toHolds hl.showlen hl.wide hl.realized hl.returns

theorem reshape_valid (h : d.s.Loose) (ht : Int) (hok : d.s.ReshapeOk wd) :
    (getstring_reshape self d d.s.w.x d.s.w.y wd ht).1.s.Valid := by
  have hfit := fit_nonneg h.room.1 wd
  unfold Getstr.ReshapeOk at hok
  have hplace : ¬ (d.s.w.x ≠ d.s.w.x ∨ d.s.w.y ≠ d.s.w.y) := fun hne => hne.elim (fun hx => hx rfl) fun hy => hy rfl
  unfold getstring_reshape
  simp only [if_neg hplace]
  by_cases hwd : wd = d.s.w.w
  · rw [if_pos hwd] at hok
    rw [if_neg (not_not.mpr hwd)]
    exact h.valid hok
  · rw [if_neg hwd] at hok
    rw [if_pos hwd, query_minsize_fit]
    dsimp only
    have hmax : (if wd < max (d.s.char_width * d.s.fit wd + 2 * XBORDER) d.s.usrwd then
        max (d.s.char_width * d.s.fit wd + 2 * XBORDER) d.s.usrwd else wd) =
        max (max (d.s.char_width * d.s.fit wd + 2 * XBORDER) d.s.usrwd) wd := by
      split_ifs <;> omega
    rw [hmax]
    generalize max (max (d.s.char_width * d.s.fit wd + 2 * XBORDER) d.s.usrwd) wd = wd' at hok ⊢
    by_cases hsize : wd' ≠ d.s.w.w ∨ d.s.fontht + 2 * YBORDER ≠ d.s.w.h
    · rw [if_pos hsize, if_pos h.realized]
      exact resized_valid (d := ⟨_, d.T⟩) (h.sized hfit ⟨_, _, _, _, _, rfl⟩) _
    · rw [if_neg hsize]
      exact (h.sized hfit ⟨_, _, _, _, _, rfl⟩).valid (hok.resolve_right hsize)

def GetstringOpt.InRange : GetstringOpt → Prop
  | .string_address val => val.length ≤ 1000 ∧ (0 : Byte) ∉ val
  | .string_length val => 1 ≤ val ∧ val ≤ 1000
  | .string_mask _ => True
  | .string_width val => 1 ≤ val ∧ val ≤ 1000
  | .width val => 1 ≤ val ∧ val ≤ 1000

def GetstringOpt.Ok (s : Getstr) : GetstringOpt → Prop
  | .string_address _ => True
  | .string_length val => s.cursor ≤ val
  | .string_mask _ => True
  | .string_width val => s.cursor ≤ val ∨ s.w.w < max (s.char_width * val + 2 * XBORDER) s.usrwd
  | .width val => ({ s with usrwd := val } : Getstr).ReshapeOk val

theorem withText_same (s : Getstr) (val : List Byte) : (s.withText val).showlen = s.showlen ∧
    (s.withText val).char_width = s.char_width ∧ (s.withText val).is_realized = s.is_realized ∧
      (s.withText val).stuck = s.stuck := by
  unfold Getstr.withText Getstr.strcpy Getstr.span
  dsimp only
  split_ifs <;> exact ⟨rfl, rfl, rfl, rfl⟩

theorem string_address_valid (h : d.s.Valid) {val : List Byte} (hv : val.length ≤ 1000 ∧ (0 : Byte) ∉ val) :
    (getstring_setopt self d (.string_address val)).s.Valid := by
  have hh := withText_holds h.toHolds.stored hv.1 hv.2
  have hshow := h.toPlaced.bounds.2
  obtain ⟨e1, e2, e3, e4⟩ := withText_same d.s val
  have hr := redraw_valid hh (e1 ▸ hshow) (e2 ▸ h.wide) (e3.trans h.realized) (e4.trans h.returns)
  have hdef : getstring_setopt self d (.string_address val) =
      if (d.s.withText val).is_realized then Getstring.stop self ⟨redraw_getstring (d.s.withText val), d.T⟩
      else ⟨d.s.withText val, d.T⟩ := rfl
  rw [hdef, if_pos (e3.trans h.realized)]
  exact stop_valid (d := ⟨_, d.T⟩) hr

theorem withLength_same (s : Getstr) (val : Int) : ∃ text bufsize hasText touched,
    s.withLength val = { s with text, bufsize, maxlen := short val, hasText, touched } := by
  unfold Getstr.withLength
  dsimp only
  split_ifs
  · exact ⟨_, _, _, _, rfl⟩
  · exact ⟨_, _, _, _, rfl⟩
  · exact ⟨_, _, _, _, rfl⟩

theorem string_length_valid (h : d.s.Valid) {val : Int} (hv : 1 ≤ val ∧ val ≤ 1000) (hok : d.s.cursor ≤ val) :
    (getstring_setopt self d (.string_length val)).s.Valid := by
  have hh := withLength_holds h.toHolds.stored hv
  have hc := h.cursor
  obtain ⟨text, bufsize, hasText, touched, he⟩ := withLength_same d.s val
  rw [short_of_range (by omega) (by omega)] at he
  have hdef : (getstring_setopt self d (.string_length val)).s =
      if (d.s.withLength val).showlen > (d.s.withLength val).maxlen ∨ (d.s.withLength val).showlen = 0 then
        { d.s.withLength val with showlen := (d.s.withLength val).maxlen } else d.s.withLength val := rfl
  rw [hdef]
  rw [he] at hh ⊢
  have hall {showlen : Int} (hle : d.s.cursor ≤ showlen) :
      ({ d.s with text, bufsize, maxlen := val, hasText, touched, showlen } : Getstr).Valid :=
    ⟨hh.moved ⟨rfl, rfl, rfl, rfl, rfl⟩ hh.inside, ⟨h.textpos, ⟨hc.1, hle⟩, h.within⟩,
      ⟨h.copystart, h.copyend⟩, h.wide, h.realized, h.returns⟩
  split_ifs
  · exact hall hok
  · exact hall hc.2

theorem string_width_valid (h : d.s.Valid) {val : Int} (hv : 1 ≤ val ∧ val ≤ 1000)
    (hok : d.s.cursor ≤ val ∨ d.s.w.w < max (d.s.char_width * val + 2 * XBORDER) d.s.usrwd) :
    (getstring_setopt self d (.string_width val)).s.Valid := by
  have hl : ({ d.s with showlen := val, usrshowlen := val } : Getstr).Loose :=
    h.loose.sized (show 0 ≤ val by omega) ⟨_, _, _, _, _, rfl⟩
  have hdef : (getstring_setopt self d (.string_width val)).s =
      (check_size self ⟨{ d.s with showlen := short val, usrshowlen := short val }, d.T⟩).1.s := rfl
  rw [hdef, short_of_range (by omega) (by omega)]
  have hmin : getstring_query_minsize { d.s with showlen := val, usrshowlen := val } =
      ({ d.s with showlen := val, usrshowlen := val }, max (d.s.char_width * val + 2 * XBORDER) d.s.usrwd,
        d.s.fontht + 2 * YBORDER) := by
    unfold getstring_query_minsize
    dsimp only
    rw [if_neg (by omega)]
  unfold check_size
  rw [if_neg (not_not.mpr h.realized), hmin]
  dsimp only
  apply reshape_valid (d := ⟨{ d.s with showlen := val, usrshowlen := val }, d.T⟩) hl
  unfold Getstr.ReshapeOk
  dsimp only
  split_ifs with hbig heq heq
  · omega
  · right
    left
    omega
  · omega
  · omega

theorem width_valid (h : d.s.Valid) {val : Int} (hv : 1 ≤ val ∧ val ≤ 1000)
    (hok : ({ d.s with usrwd := val } : Getstr).ReshapeOk val) : (getstring_setopt self d (.width val)).s.Valid := by
  have hl : ({ d.s with usrwd := val } : Getstr).Loose := h.loose.sized h.loose.showlen ⟨_, _, _, _, _, rfl⟩
  have hdef : getstring_setopt self d (.width val) = (getstring_reshape self
      ⟨{ d.s with usrwd := short (max 0 val) }, d.T⟩ d.s.w.x d.s.w.y (short (max 0 val)) d.s.w.h).1 := rfl
  rw [hdef, max_eq_right (by omega), short_of_range (by omega) (by omega)]
  exact reshape_valid (d := ⟨{ d.s with usrwd := val }, d.T⟩) hl _ hok

theorem getstring_setopt_valid (h : d.s.Valid) {o : GetstringOpt} (hr : o.InRange) (hok : o.Ok d.s) :
    (getstring_setopt self d o).s.Valid := by
  cases o with
  | string_address val => exact string_address_valid h hr
  | string_length val => exact string_length_valid h hr hok
  | string_mask val =>
    exact ⟨h.toHolds.moved ⟨rfl, rfl, rfl, rfl, rfl⟩ h.inside, ⟨h.textpos, h.cursor, h.within⟩,
      ⟨h.copystart, h.copyend⟩, h.wide, h.realized, h.returns⟩
  | string_width val => exact string_width_valid h hr hok
  | width val => exact width_valid h hr hok

end WWindowSystem

namespace WWindowSystem

variable {s t : Getstr} {d : Getstring} {self wd : Int}

structure Getstr.Configured (s : Getstr) : Prop extends s.Stored where
  showlen : 0 ≤ s.showlen
  wide : 1 ≤ s.char_width
  unrealized : s.is_realized = false
  returns : s.stuck = false

theorem Getstr.Configured.sized (h : s.Configured) {showlen : Int} (h0 : 0 ≤ showlen)
    (he : ∃ w xborder usrwd usrshowlen mask, t = { s with w, xborder, usrwd, usrshowlen, mask, showlen }) :
    t.Configured := by
  obtain ⟨_, _, _, _, _, rfl⟩ := he
  exact ⟨h.toStored.moved ⟨rfl, rfl, rfl, rfl, rfl, rfl⟩, h0, h.wide, h.unrealized, h.returns⟩

theorem reshape_configured (h : d.s.Configured) (wd ht : Int) :
    (getstring_reshape self d d.s.w.x d.s.w.y wd ht).1.s.Configured := by
  have hfit := fit_nonneg h.room wd
  have hplace : ¬ (d.s.w.x ≠ d.s.w.x ∨ d.s.w.y ≠ d.s.w.y) := fun hne => hne.elim (fun hx => hx rfl) fun hy => hy rfl
  unfold getstring_reshape
  simp only [if_neg hplace]
  by_cases hwd : wd = d.s.w.w
  · rw [if_neg (not_not.mpr hwd)]
    exact h
  · rw [if_pos hwd, query_minsize_fit]
    dsimp only
    split_ifs with _ _ hr _ hr
    · exact absurd hr (by rw [h.unrealized]; decide)
    · exact h.sized hfit ⟨_, _, _, _, _, rfl⟩
    · exact h.sized hfit ⟨_, _, _, _, _, rfl⟩
    · exact absurd hr (by rw [h.unrealized]; decide)
    · exact h.sized hfit ⟨_, _, _, _, _, rfl⟩
    · exact h.sized hfit ⟨_, _, _, _, _, rfl⟩

theorem setopt_configured (h : d.s.Configured) {o : GetstringOpt} (hr : o.InRange) :
    (getstring_setopt self d o).s.Configured := by
  have hun : ¬ d.s.is_realized = true := by
    rw [h.unrealized]
    decide
  cases o with
  | string_address val =>
    have hh := withText_holds h.toStored hr.1 hr.2
    obtain ⟨e1, e2, e3, e4⟩ := withText_same d.s val
    have hdef : getstring_setopt self d (.string_address val) =
        if (d.s.withText val).is_realized then Getstring.stop self ⟨redraw_getstring (d.s.withText val), d.T⟩
        else ⟨d.s.withText val, d.T⟩ := rfl
    rw [hdef, if_neg (e3 ▸ hun)]
    exact ⟨hh.stored, e1 ▸ h.showlen, e2 ▸ h.wide, e3.trans h.unrealized, e4.trans h.returns⟩
  | string_length val =>
    have hv : 1 ≤ val ∧ val ≤ 1000 := hr
    have hh := withLength_holds h.toStored hv
    obtain ⟨text, bufsize, hasText, touched, he⟩ := withLength_same d.s val
    rw [short_of_range (by omega) (by omega)] at he
    have hdef : (getstring_setopt self d (.string_length val)).s =
        if (d.s.withLength val).showlen > (d.s.withLength val).maxlen ∨ (d.s.withLength val).showlen = 0 then
          { d.s.withLength val with showlen := (d.s.withLength val).maxlen } else d.s.withLength val := rfl
    rw [hdef]
    rw [he] at hh ⊢
    have hall {showlen : Int} (h0 : 0 ≤ showlen) :
        ({ d.s with text, bufsize, maxlen := val, hasText, touched, showlen } : Getstr).Configured :=
      ⟨hh.stored.moved ⟨rfl, rfl, rfl, rfl, rfl, rfl⟩, h0, h.wide, h.unrealized, h.returns⟩
    split_ifs
    · exact hall (show 0 ≤ val by omega)
    · exact hall h.showlen
  | string_mask val => exact h.sized h.showlen ⟨_, _, _, _, _, rfl⟩
  | string_width val =>
    have hv : 1 ≤ val ∧ val ≤ 1000 := hr
    have hdef : (getstring_setopt self d (.string_width val)).s =
        (check_size self ⟨{ d.s with showlen := short val, usrshowlen := short val }, d.T⟩).1.s := rfl
    rw [hdef, short_of_range (by omega) (by omega)]
    unfold check_size
    rw [if_pos hun]
    exact h.sized (show 0 ≤ val by omega) ⟨_, _, _, _, _, rfl⟩
  | width val =>
    have hl (usrwd : Int) : ({ d.s with usrwd } : Getstr).Configured := h.sized h.showlen ⟨_, _, _, _, _, rfl⟩
    exact reshape_configured (d := ⟨{ d.s with usrwd := short (max 0 val) }, d.T⟩) (hl _) _ _

theorem realize_valid (h : d.s.Configured) (hr : (getstring_realize d).s.is_realized = true) :
    (getstring_realize d).s.Valid := by
  have hun : ¬ d.s.is_realized = true := by
    rw [h.unrealized]
    decide
  unfold getstring_realize at hr ⊢
  by_cases hhas : d.s.hasText = true
  · rw [if_neg (fun hno => hno.elim hun fun hn => hn hhas)]
    dsimp only
    obtain ⟨showlen, hge, hq⟩ := query_minsize_grows d.s
    have hg : (getstring_query_geometry d.s).1 = { d.s with showlen } := hq
    rw [hg]
    have hh := h.full hhas
    have h0 := h.showlen
    have hm {w : widget_t} : ({ d.s with showlen, w } : Getstr).Holds := hh.moved ⟨rfl, rfl, rfl, rfl, rfl⟩ hh.inside
    obtain ⟨he, hd, hp, hsel⟩ := redraw_getstring_spec (hm (w := { d.s.w with
      w := (getstring_query_geometry d.s).2.1, h := (getstring_query_geometry d.s).2.2 })) (le_trans h0 hge)
    obtain ⟨e1, -, e3, -⟩ := he.fields
    exact ⟨hd.moved ⟨rfl, rfl, rfl, rfl, rfl⟩ hd.inside, ⟨hp.textpos, hp.cursor, hp.within⟩,
      ⟨hsel.copystart, hsel.copyend⟩, le_of_le_of_eq h.wide e1.symm, rfl, e3.trans h.returns⟩
  · rw [if_pos (Or.inr hhas)] at hr
    exact absurd hr hun

inductive GetstringCall where
  | event (e : GetstringEvent)
  | timer (mouse : Option Int)
  | focus (enter : Bool)
  | setopt (o : GetstringOpt)

def getstringCall (self : Int) (d : Getstring) : GetstringCall → Getstring
  | .event e => getstring_event self d e
  | .timer mouse => timer_callback self d mouse
  | .focus enter => getstring_focus self d enter
  | .setopt o => getstring_setopt self d o

def GetstringCall.Ok (s : Getstr) : GetstringCall → Prop
  | .event e => e.Ok s
  | .timer _ => True
  | .focus _ => True
  | .setopt o => o.InRange ∧ o.Ok s

theorem getstringCall_valid (h : d.s.Valid) {e : GetstringCall} (he : e.Ok d.s) : (getstringCall self d e).s.Valid := by
  cases e with
  | event e => exact getstring_event_valid h he
  | timer mouse => exact timer_callback_valid h mouse
  | focus enter =>
    cases enter with
    | false => exact stop_valid (d := ⟨cursor_invert d.s, d.T⟩) h.invert
    | true => exact h.invert
  | setopt o => exact getstring_setopt_valid h he.1 he.2

theorem create_configured {char_width : Int} (hw : 1 ≤ char_width) (fontht longMax : Int) :
    (getstring_create char_width fontht longMax).s.Configured :=
  ⟨⟨le_refl 0, fun hf => absurd hf Bool.false_ne_true, fun _ => ⟨⟨rfl, rfl, rfl⟩, fun _ ha => absurd ha List.not_mem_nil⟩⟩,
    le_refl 0, hw, rfl, rfl⟩

def getstringStart (self char_width fontht longMax : Int) (opts : List GetstringOpt) : Getstring :=
  getstring_realize (opts.foldl (getstring_setopt self) (getstring_create char_width fontht longMax))

theorem opts_configured {opts : List GetstringOpt} (h : d.s.Configured) (ho : ∀ o ∈ opts, o.InRange) :
    (opts.foldl (getstring_setopt self) d).s.Configured := by
  induction opts generalizing d with
  | nil => exact h
  | cons o opts ih =>
    exact ih (setopt_configured h (ho o List.mem_cons_self)) fun o' ho' => ho o' (List.mem_cons_of_mem o ho')

variable {char_width fontht longMax : Int} {opts : List GetstringOpt} {l : List GetstringCall}

theorem getstring_kept (hw : 1 ≤ char_width) (ho : ∀ o ∈ opts, o.InRange)
    (hr : (getstringStart self char_width fontht longMax opts).s.is_realized = true)
    (hl : AllSafe (getstringCall self) (fun d e => e.Ok d.s) (getstringStart self char_width fontht longMax opts) l) :
    (getstringStart self char_width fontht longMax opts).s.Valid ∧
      AllSafe (getstringCall self) (fun d e => (getstringCall self d e).s.Valid)
        (getstringStart self char_width fontht longMax opts) l := by
  have hstart := realize_valid (opts_configured (create_configured hw fontht longMax) ho) hr
  refine ⟨hstart, hl.imp (fun d => d.s.Valid) (fun d e h he => ?_) hstart⟩
  have hv : (getstringCall self d e).s.Valid := getstringCall_valid h he
  exact ⟨hv, hv⟩

instance (s : Getstr) (sel : Option (List Byte)) : Decidable (s.PasteOk sel) :=
  match sel with
  | none => inferInstanceAs (Decidable True)
  | some _ => inferInstanceAs (Decidable (_ ∧ _))

instance (s : Getstr) (x key : Int) (sel : Option (List Byte)) : Decidable (s.PressOk x key sel) :=
  inferInstanceAs (Decidable (_ ∧ (_ → _)))

instance (s : Getstr) : Decidable s.Undrifted := inferInstanceAs (Decidable (_ → _ → _))

instance (s : Getstr) (key : Int) : Decidable (s.KeyOk key) :=
  inferInstanceAs (Decidable (_ → _ → ((_ → _) ∧ (_ → _ → _ → _))))

instance (s : Getstr) (e : GetstringEvent) : Decidable (e.Ok s) :=
  match e with
  | .mpress _ _ _ _ => inferInstanceAs (Decidable (Getstr.PressOk _ _ _ _))
  | .mrelease _ => inferInstanceAs (Decidable True)
  | .key _ => inferInstanceAs (Decidable (Getstr.KeyOk _ _))

instance (s : Getstr) (wd : Int) : Decidable (s.ReshapeOk wd) :=
  inferInstanceAs (Decidable (if wd = s.w.w then s.cursor ≤ s.showlen else _ ≤ _ ∨ _ ≠ _ ∨ _ ≠ _))

instance (o : GetstringOpt) : Decidable o.InRange :=
  match o with
  | .string_address _ => inferInstanceAs (Decidable (_ ∧ _))
  | .string_length _ => inferInstanceAs (Decidable (_ ∧ _))
  | .string_mask _ => inferInstanceAs (Decidable True)
  | .string_width _ => inferInstanceAs (Decidable (_ ∧ _))
  | .width _ => inferInstanceAs (Decidable (_ ∧ _))

instance (s : Getstr) (o : GetstringOpt) : Decidable (o.Ok s) :=
  match o with
  | .string_address _ => inferInstanceAs (Decidable True)
  | .string_length _ => inferInstanceAs (Decidable (_ ≤ _))
  | .string_mask _ => inferInstanceAs (Decidable True)
  | .string_width _ => inferInstanceAs (Decidable (_ ∨ _))
  | .width _ => inferInstanceAs (Decidable (Getstr.ReshapeOk _ _))

instance (s : Getstr) (e : GetstringCall) : Decidable (e.Ok s) :=
  match e with
  | .event e => inferInstanceAs (Decidable (e.Ok s))
  | .timer _ => inferInstanceAs (Decidable True)
  | .focus _ => inferInstanceAs (Decidable True)
  | .setopt _ => inferInstanceAs (Decidable (_ ∧ _))

def eightKeys : List GetstringOpt :=
  [.string_length 8, .string_width 4, .string_address [97, 98, 99, 100, 101, 102, 103, 104]]

def replaceOne : List GetstringCall :=
  [.event (.key KEY_HOME), .event (.mpress 22 Getstr.BUTTON_LEFT none (some 31)), .event (.mrelease Getstr.BUTTON_LEFT),
    .event (.key 120), .setopt (.string_width 6), .event (.mpress 8 Getstr.BUTTON_RIGHT (some [121]) none)]

theorem getstring_kept_replaceOne : (getstringStart 7 8 16 1000 eightKeys).s.Valid ∧
      AllSafe (getstringCall 7) (fun d e => (getstringCall 7 d e).s.Valid) (getstringStart 7 8 16 1000 eightKeys)
        replaceOne :=
  getstring_kept (by decide) (by decide) (by decide +kernel) (by decide +kernel)

def scrolledPaint : List GetstringCall :=
  [.event (.key KEY_HOME), .event (.mpress 38 Getstr.BUTTON_LEFT none (some 100)), .timer (some 100), .timer (some 100),
    .timer (some 100), .event (.key 120)]

/-- The cursor is not where the selection was: the key comes behind the end of the text. -/
theorem getstring_not_kept : ¬ AllSafe (getstringCall 7) (fun d e => (getstringCall 7 d e).s.Valid)
    (getstringStart 7 8 16 1000 eightKeys) scrolledPaint := by
  intro h
  exact h.2.2.2.2.2.1.nonzero 4 (by decide) (by decide +kernel) (by decide +kernel)

end WWindowSystem
