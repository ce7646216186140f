import WWindowSystem.Wt.VtPutc

namespace WWindowSystem

open List

variable {P : Prop} {s t : Vt}

theorem Steady.size (hs : Steady P s t) : t.wd = s.wd ∧ t.screenht = s.screenht := by
  obtain ⟨-, ⟨⟨_, _, _, _, _, _, _, _, _, _, _, _, _, rfl⟩, -⟩, -⟩ := hs
  exact ⟨rfl, rfl⟩

theorem Vt.Calm.has_colors (h : s.Calm P) {v : vtchar_t} (hv : s.Has v) : P → s.Colors ≠ 0 →
    (v.fg.toNat : Int) < MAX_COLORS ∧ (v.bg.toNat : Int) < MAX_COLORS :=
  fun hP hne => (h.clean hP).colors hne v hv

theorem redrawCells_steady (n : Nat) (h : s.Calm P) (j : Int) {x : Int} (h0 : 0 ≤ x) (hx : x + n ≤ s.wd)
    (new : vtchar_t) (len : Nat) : Steady P s (redrawCells n s new len (rowStart s.wd s.screenht j + x)).1 ∧
      (redrawCells n s new len (rowStart s.wd s.screenht j + x)).2.2 = rowStart s.wd s.screenht j + (x + n) := by
  induction n generalizing s x new len with
  | zero => exact ⟨Steady.refl h, by rw [redrawCells, Int.natCast_zero, Int.add_zero]⟩
  | succ n ih =>
    have ht : Steady P s (s.touch s.screen_size (rowStart s.wd s.screenht j + x)) :=
      touch_steady h fun _ => rowStart_inside h.toFrame.sized.screenht j h0 (by omega)
    have hnext : rowStart s.wd s.screenht j + x + 1 = rowStart s.wd s.screenht j + (x + 1) := by omega
    have hlast : x + 1 + (n : Int) = x + (n + 1 : Nat) := by omega
    unfold redrawCells
    dsimp only
    rw [hnext]
    split_ifs
    · have hr := ht.trans (RESTORE_ATTRIBUTES_steady ht.calm
        (v := s.screen (rowStart s.wd s.screenht j + x))
        (ht.calm.has_colors (Or.inl ⟨j, x, h0, show x < s.wd by omega, rfl⟩)))
      obtain ⟨h1, h2⟩ := ih hr.calm (by omega : 0 ≤ x + 1) (by rw [hr.size.1]; omega)
        (s.screen (rowStart s.wd s.screenht j + x)) 1
      rw [hr.size.1, hr.size.2] at h1 h2
      rw [hlast] at h2
      exact ⟨hr.trans h1, h2⟩
    · obtain ⟨h1, h2⟩ := ih ht.calm (by omega : 0 ≤ x + 1) (by rw [ht.size.1]; omega) new (len + 1)
      rw [ht.size.1, ht.size.2] at h1 h2
      rw [hlast] at h2
      exact ⟨ht.trans h1, h2⟩

theorem redrawRows_steady (n : Nat) (h : s.Calm P) (new : vtchar_t) (j : Int) :
    Steady P s (redrawRows n s new (rowStart s.wd s.screenht j)) := by
  induction n generalizing s new j with
  | zero => exact Steady.refl h
  | succ n ih =>
    have hwd := h.wd
    obtain ⟨h1, h2⟩ := redrawCells_steady s.wd.toNat h j (le_refl 0) (by omega) new 0
    rw [Int.add_zero, show 0 + (s.wd.toNat : Int) = s.wd by omega] at h2
    rw [Int.add_zero] at h1
    rw [redrawRows]
    generalize redrawCells _ s new 0 _ = r at h1 h2 ⊢
    have hnl : vt_screen_nl r.1 r.2.2 = rowStart r.1.wd r.1.screenht (j + 1) := by
      rw [h2, ← h1.size.1, ← h1.size.2]
      exact vt_screen_nl_row h1.calm.toFrame.sized j
    rw [hnl]
    exact h1.trans (ih h1.calm r.2.1 (j + 1))

theorem vt_redraw_steady (h : s.Calm P) {y : Int} (h0 : 0 ≤ y) (hy : y < s.screenht) (ymax : Int) :
    Steady P s (vt_redraw s y ymax) := by
  have hwd := h.wd
  unfold vt_redraw
  rw [vt_screen_pos_row h.curoffs h0 hy, Int.add_zero]
  dsimp only
  have ht : Steady P s (s.touch s.screen_size (rowStart s.wd s.screenht (s.curoffs + y))) :=
    touch_steady h fun _ => by
      have := rowStart_inside h.toFrame.sized.screenht (s.curoffs + y) (le_refl 0) hwd
      rwa [Int.add_zero] at this
  have hr := ht.trans (RESTORE_ATTRIBUTES_steady ht.calm
    (v := s.screen (rowStart s.wd s.screenht (s.curoffs + y)))
    (ht.calm.has_colors (Or.inl ⟨s.curoffs + y, 0, le_refl 0, hwd, by rw [Vt.ring, Int.add_zero]; rfl⟩)))
  have hrows := redrawRows_steady (ymax - y).toNat hr.calm
    (s.screen (rowStart s.wd s.screenht (s.curoffs + y))) (s.curoffs + y)
  rw [hr.size.1, hr.size.2] at hrows
  have hall := hr.trans hrows
  exact hall.trans (RESTORE_ATTRIBUTES_steady hall.calm fun hP hne =>
    h.has_colors (Or.inr ⟨0, rfl⟩) hP (hall.colors ▸ hne))

theorem curvis_steady (h : s.Calm P) (curvis : Bool) : Steady P s { s with curvis } :=
  ⟨h.flags curvis s.curon s.autowrap s.xtermemu s.parameter s.outfn,
    ⟨⟨_, _, _, _, _, _, _, _, _, _, _, _, _, rfl⟩, fun _ _ _ => rfl⟩, id⟩

theorem vt_cursor_show_steady (h : s.Calm P) : Steady P s (vt_cursor_show s) := by
  unfold vt_cursor_show
  split_ifs
  · exact curvis_steady h true
  · exact Steady.refl h

theorem Vt.Idle.view (h : s.Idle P) {curoffs : Int} (hc : 0 ≤ curoffs ∧ curoffs < s.screenht) :
    ({ s with curoffs } : Vt).Idle P :=
  ⟨⟨h.wd, h.ht, h.hist, h.room, h.most, h.offs, hc, h.saved, h.params, fun hP =>
    (h.clean hP).next rfl (fun _ ha => Or.inl ha) fun v hv => ⟨v, hv, rfl, rfl⟩⟩, ⟨h.x, h.y⟩, h.empty⟩

def Vt.clamped (s : Vt) (offs : Int) : Int :=
  if offs < 0 then 0 else if offs > s.curhistsize then s.curhistsize else offs

theorem vt_vmove_spec (h : s.Idle P) (offs : Int) : ∃ curoffs, (0 ≤ curoffs ∧ curoffs < s.screenht) ∧
      curoffs % s.screenht = (s.offs - s.clamped offs) % s.screenht ∧
      Steady P { s with curoffs } (vt_vmove s offs) := by
  have ho := h.offs
  have hc := h.curoffs
  have hht := h.ht
  have hhist := h.hist
  have hroom := h.room
  have hk : 0 ≤ s.clamped offs ∧ s.clamped offs ≤ s.curhistsize := by
    unfold Vt.clamped
    split_ifs <;> omega
  have hwrap (a : Int) : (if a < 0 then a + s.screenht else a) % s.screenht = a % s.screenht := by
    split_ifs
    · exact Int.add_emod_right a s.screenht
    · rfl
  unfold vt_vmove vt_cursor_hide
  dsimp only
  rw [show (if offs < 0 then 0 else if offs > s.curhistsize then s.curhistsize else offs) = s.clamped offs from rfl]
  generalize s.clamped offs = k at hk
  generalize hold : (if s.offs - s.curoffs < 0 then s.offs - s.curoffs + s.screenht else s.offs - s.curoffs) = old
  by_cases hdist : (k - old).natAbs = 0
  · rw [if_pos hdist]
    refine ⟨s.curoffs, hc, ?_, Steady.refl h.calm⟩
    have := hwrap (s.offs - s.curoffs)
    rw [hold, show old = k by omega] at this
    rw [Int.sub_emod, this, ← Int.sub_emod]
    congr 1
    omega
  · rw [if_neg hdist]
    have hin : 0 ≤ (if s.offs - k < 0 then s.offs - k + s.screenht else s.offs - k) ∧
        (if s.offs - k < 0 then s.offs - k + s.screenht else s.offs - k) < s.screenht := by
      split_ifs <;> omega
    have hsame := hwrap (s.offs - k)
    generalize (if s.offs - k < 0 then s.offs - k + s.screenht else s.offs - k) = cur at hin hsame ⊢
    have hview := h.view hin
    refine ⟨cur, hin, hsame, ?_⟩
    have hhide := curvis_steady hview.calm false
    have hdraw {y : Int} (h0 : 0 ≤ y) (hy : y < s.screenht) (ymax : Int) :=
      hhide.trans (vt_redraw_steady hhide.calm h0 hy ymax)
    split_ifs
    · have hr := hdraw (le_refl 0) (by omega) ((k - old).natAbs : Int)
      exact hr.trans (vt_cursor_show_steady hr.calm)
    · have hr := hdraw (y := s.ht - (k - old).natAbs) (by omega) (by omega) s.ht
      exact hr.trans (vt_cursor_show_steady hr.calm)
    · have hr := hdraw (le_refl 0) (by omega) s.ht
      exact hr.trans (vt_cursor_show_steady hr.calm)

theorem Steady.idle (hs : Steady P s t) (h : s.outbuf = []) : t.Idle P :=
  ⟨hs.calm.toFrame, hs.calm.toCursor, hs.empty h⟩

theorem vt_vmove_idle (h : s.Idle P) (offs : Int) : (vt_vmove s offs).Idle P := by
  obtain ⟨c, -, -, hs⟩ := vt_vmove_spec h offs
  exact hs.idle h.empty

theorem vt_vmove_shown (h : s.Idle P) (offs : Int) : (vt_vmove s offs).shown = s.shown := by
  obtain ⟨c, hc, -, hs⟩ := vt_vmove_spec h offs
  exact hs.alike.shown (h.view hc).toFrame

theorem vt_vmove_rest (h : s.Idle P) : (vt_vmove s 0).Rest P := by
  obtain ⟨c, hc, he, hs⟩ := vt_vmove_spec h 0
  refine ⟨hs.idle h.empty, ?_⟩
  have hz : s.clamped 0 = 0 := by
    have := h.hist
    unfold Vt.clamped
    rw [if_neg (by omega), if_neg (by omega)]
  have ho := h.offs
  rw [hz, Int.sub_zero, Int.emod_eq_of_lt hc.1 hc.2, Int.emod_eq_of_lt ho.1 ho.2] at he
  obtain ⟨-, ⟨⟨_, _, _, _, _, _, _, _, _, _, _, _, _, ht⟩, -⟩, -⟩ := hs
  rw [ht]
  exact he

theorem vt_setattr_nil (h : s.outbuf = []) (attr : Byte) :
    vt_setattr s attr = { s with curattr := attr &&& (s.font_mask ||| s.style_mask) } := by
  unfold vt_setattr
  rw [vt_flush_nil h]

theorem useColor_nil (h : s.outbuf = []) (col : Byte) : s.useColor col = s.touch MAX_COLORS col.toNat := by
  unfold Vt.useColor
  rw [vt_flush_nil h, ite_self]

structure Repainted (s t : Vt) : Prop where
  same : ∃ touched curattr curbg curfg bgmode, t = { s with touched, curattr, curbg, curfg, bgmode }
  touched : ∀ a ∈ t.touched, a ∈ s.touched ∨ a.Inside
  colors : s.Colors ≠ 0 → (t.curfg.toNat : Int) < MAX_COLORS ∧ (t.curbg.toNat : Int) < MAX_COLORS

theorem vt_set_bgcol_nil (hnil : s.outbuf = []) (hne : s.Colors ≠ 0) (bg : Byte) :
    vt_set_bgcol s (bg + 0x30) = { s.touch MAX_COLORS bg.toNat with curbg := bg.setWidth 4 } := by
  unfold vt_set_bgcol
  rw [digit_sub, if_pos hne, useColor_nil hnil]

theorem vt_set_fgcol_nil (hnil : s.outbuf = []) (hne : s.Colors ≠ 0) (fg : Byte) :
    vt_set_fgcol s (fg + 0x30) = { s.touch MAX_COLORS fg.toNat with curfg := fg.setWidth 4 } := by
  unfold vt_set_fgcol
  rw [digit_sub, if_pos hne, useColor_nil hnil]

theorem color_repainted (hnil : s.outbuf = []) (hne : s.Colors ≠ 0) {fg bg : Byte}
    (hf : (fg.toNat : Int) < MAX_COLORS) (hb : (bg.toNat : Int) < MAX_COLORS) :
    Repainted s (vt_setattr { vt_set_fgcol (vt_set_bgcol s (bg + 0x30)) (fg + 0x30) with bgmode := VT_CLEAR }
      VT_NORMAL) := by
  have hbg := vt_set_bgcol_nil hnil hne bg
  rw [hbg, vt_set_fgcol_nil (by exact hnil) (by exact hne), vt_setattr_nil (by exact hnil)]
  refine ⟨⟨_, _, _, _, _, rfl⟩, fun a ha => ?_, fun _ => ?_⟩
  · change a ∈ (⟨MAX_COLORS, fg.toNat⟩ : Access) :: ⟨MAX_COLORS, bg.toNat⟩ :: s.touched at ha
    rw [mem_cons, mem_cons] at ha
    obtain rfl | rfl | ha := ha
    · exact Or.inr ⟨Int.natCast_nonneg _, hf⟩
    · exact Or.inr ⟨Int.natCast_nonneg _, hb⟩
    · exact Or.inl ha
  · have h1 := setWidth_le fg
    have h2 := setWidth_le bg
    exact ⟨show ((fg.setWidth 4).toNat : Int) < _ by omega, show ((bg.setWidth 4).toNat : Int) < _ by omega⟩

theorem mode_repainted (hnil : s.outbuf = []) (hne : ¬ s.Colors ≠ 0) (bgmode attr : Byte) :
    Repainted s (vt_setattr { s with bgmode } attr) := by
  rw [vt_setattr_nil (by exact hnil)]
  exact ⟨⟨_, _, _, _, _, rfl⟩, fun _ ha => Or.inl ha, fun hne' => absurd hne' hne⟩

theorem vt_normal_repainted (hnil : s.outbuf = []) (hc : (s.Colors : Int) ≤ MAX_COLORS) :
    ∃ t, Repainted s t ∧ vt_normal s = vt_cursor_on t := by
  have hlast : ((BitVec.ofNat 8 (s.Colors - 1)).toNat : Int) < MAX_COLORS := by
    have hm : MAX_COLORS = 8 := rfl
    rw [BitVec.toNat_ofNat]
    omega
  have hzero : ((0 : Byte).toNat : Int) < MAX_COLORS := by decide
  unfold vt_normal
  dsimp only
  split_ifs with hne
  · exact ⟨_, color_repainted hnil hne hlast hzero, rfl⟩
  · exact ⟨_, color_repainted hnil hne hzero hlast, rfl⟩
  · exact ⟨_, mode_repainted hnil hne VT_DRAW VT_REVERSE, rfl⟩
  · exact ⟨_, mode_repainted hnil hne VT_CLEAR VT_NORMAL, rfl⟩

def Vt.allocated (s : Vt) (wd ht screenht : Int) : Vt :=
  { s with
    wd, ht, offs := 0, screenht, screen := fun _ => s.stored DEF_BGCHAR
    touched := (List.range (wd * screenht).toNat).map (fun i : Nat => (⟨wd * screenht, i⟩ : Access)) ++ s.touched
    curx := 0, savx := 0, cury := 0, savy := 0, outx := 0, outy := 0, outbuf := [], outfn := .putc_normal }

variable {o : VtOptions} {wd ht : Int}

theorem allocated_idle (hc : (o.Colors : Int) ≤ MAX_COLORS) (hwd : 1 ≤ wd) (hht : 1 ≤ ht)
    (hh : 0 ≤ o.histsize) {touched : List Access} (ha : ∀ a ∈ touched, a.Inside)
    (ht' : Repainted { vt_create o with curon := true, autowrap := true, touched } t) :
    ((vt_cursor_on t).allocated wd ht (ht + o.histsize)).Idle P := by
  obtain ⟨⟨acc, curattr, curbg, curfg, bgmode, rfl⟩, htouched, hcolors⟩ := ht'
  have hin : 0 ≤ (0 : Int) ∧ 0 < ht + o.histsize := by omega
  refine ⟨⟨by exact hwd, by exact hht, le_refl 0, ?_, hh, hin, hin, ⟨⟨le_refl 0, hwd⟩, le_refl 0, hht⟩,
    ⟨le_refl 0, show (0 : Int) < MAX_PARAMETERS by decide⟩, fun _ => ⟨fun a hm => ?_, hc, fun hne v hv => ?_⟩⟩,
    ⟨⟨le_refl 0, hwd⟩, le_refl 0, hht⟩, rfl⟩
  · change 0 ≤ ht + o.histsize - ht
    omega
  · obtain hm | hm := mem_append.mp hm
    · obtain ⟨i, hi, rfl⟩ := mem_map.mp hm
      rw [mem_range] at hi
      exact ⟨by dsimp only; omega, by dsimp only; omega⟩
    · obtain hm | hm := htouched a hm
      · exact ha a hm
      · exact hm
  · obtain ⟨_, _, _, _, rfl⟩ | ⟨_, rfl⟩ := hv
    · exact hcolors hne
    · exact hcolors hne

theorem vt_realize_idle (hc : (o.Colors : Int) ≤ MAX_COLORS) (hwd : 1 ≤ wd) (hht : 1 ≤ ht)
    (hh : 0 ≤ o.histsize) : (vt_realize o wd ht).Idle P := by
  have hcolors (a : Access) (ha : a ∈ (List.range o.Colors).map (fun i : Nat => (⟨MAX_COLORS, i⟩ : Access)) ++ []) :
      a.Inside := by
    rw [append_nil, mem_map] at ha
    obtain ⟨i, hi, rfl⟩ := ha
    rw [mem_range] at hi
    exact ⟨Int.natCast_nonneg _, by dsimp only; omega⟩
  obtain ⟨t, ht', he⟩ := vt_normal_repainted (s := { vt_create o with
    curon := true, autowrap := true
    touched := (List.range o.Colors).map (fun i : Nat => (⟨MAX_COLORS, i⟩ : Access)) ++ [] }) rfl hc
  have hi : ((vt_cursor_on t).allocated wd ht (ht + o.histsize)).Idle P :=
    allocated_idle hc hwd hht hh hcolors ht'
  have hshow := (vt_cursor_show_steady hi.calm).idle hi.empty
  have hv : vt_realize o wd ht =
      { vt_cursor_show ((vt_cursor_on t).allocated wd ht (ht + o.histsize)) with is_realized := true } := by
    rw [← he]
    rfl
  rw [hv]
  exact ⟨⟨hshow.wd, hshow.ht, hshow.hist, hshow.room, hshow.most, hshow.offs, hshow.curoffs, hshow.saved,
    hshow.params, fun hP => (hshow.clean hP).next rfl (fun _ ha => Or.inl ha) fun v hv => ⟨v, hv, rfl, rfl⟩⟩,
    ⟨hshow.x, hshow.y⟩, hshow.empty⟩

end WWindowSystem
