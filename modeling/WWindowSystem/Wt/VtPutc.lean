import WWindowSystem.Wt.VtPrint

namespace WWindowSystem

structure Presents (P : Prop) (t : Vt) (m : Terminal) : Prop where
  live : t.Live P
  shown : t.shown = m

variable {P : Prop} {s t u : Vt} {m n : Terminal}

theorem Steady.presents (hs : Steady P s t) (h : s.Live P) : Presents P t s.shown :=
  ⟨hs.live h, hs.alike.shown h.toFrame⟩

theorem Presents.ite {p : Prop} [Decidable p] (h1 : p → Presents P t m) (h2 : ¬ p → Presents P u n) :
    Presents P (if p then t else u) (if p then m else n) := by
  split_ifs with hp
  · exact h1 hp
  · exact h2 hp

theorem Presents.ite_left {p : Prop} [Decidable p] (h1 : p → Presents P t m) (h2 : ¬ p → Presents P u m) :
    Presents P (if p then t else u) m := by
  split_ifs with hp
  · exact h1 hp
  · exact h2 hp

theorem flush_at (h : s.Live P) {curx cury : Int} (hx : 0 ≤ curx ∧ curx < s.wd) (hy : 0 ≤ cury ∧ cury < s.ht) :
    Presents P { vt_flush s with curx, cury } { s.shown with curx, cury } := by
  have hsame := h.flush_shown
  have hr := h.flush
  obtain ⟨_, _, he⟩ := vt_flush_draw h.toFrame h.toFlushable
  rw [he] at hsame hr ⊢
  exact ⟨(hr.move hx hy).live, congrArg (fun t : Terminal => { t with curx, cury }) hsame⟩

theorem flush_row (h : s.Live P) {curx : Int} (hx : 0 ≤ curx ∧ curx < s.wd) :
    Presents P { vt_flush s with curx } { s.shown with curx } := by
  have hf := flush_at h hx h.y
  obtain ⟨_, _, he⟩ := vt_flush_draw h.toFrame h.toFlushable
  rw [he] at hf ⊢
  exact hf

theorem flush_column (h : s.Live P) {cury : Int} (hy : 0 ≤ cury ∧ cury < s.ht) :
    Presents P { vt_flush s with cury } { s.shown with cury } := by
  have hf := flush_at h h.x hy
  obtain ⟨_, _, he⟩ := vt_flush_draw h.toFrame h.toFlushable
  rw [he] at hf ⊢
  exact hf

theorem flush_column_to (h : s.Live P) {y cury : Int} (hy : cury = max 0 (min y (s.ht - 1))) :
    Presents P { vt_flush s with cury } (s.shown.moveTo s.curx y) := by
  have hx := h.x
  have hht := h.ht
  have hf : Presents P { vt_flush s with cury } { s.shown with cury } := flush_column h (by omega)
  refine ⟨hf.live, hf.shown.trans ?_⟩
  unfold Terminal.moveTo
  rw [show max 0 (min s.curx (s.shown.wd - 1)) = s.curx by change max 0 (min s.curx (s.wd - 1)) = _; omega, hy]
  rfl

theorem flush_row_to (h : s.Live P) {x curx : Int} (hx : curx = max 0 (min x (s.wd - 1))) :
    Presents P { vt_flush s with curx } (s.shown.moveTo x s.cury) := by
  have hy := h.y
  have hwd := h.wd
  have hf : Presents P { vt_flush s with curx } { s.shown with curx } := flush_row h (by omega)
  refine ⟨hf.live, hf.shown.trans ?_⟩
  unfold Terminal.moveTo
  rw [show max 0 (min s.cury (s.shown.ht - 1)) = s.cury by change max 0 (min s.cury (s.ht - 1)) = _; omega, hx]
  rfl

theorem vt_cursor_up_presents (h : s.Live P) : Presents P (vt_cursor_up s) (s.shown.moveTo s.curx (s.cury - 1)) := by
  have hy := h.y
  apply flush_column_to h
  split_ifs <;> omega

theorem vt_cursor_down_presents (h : s.Live P) :
    Presents P (vt_cursor_down s) (s.shown.moveTo s.curx (s.cury + 1)) := by
  have hy := h.y
  apply flush_column_to h
  split_ifs <;> omega

theorem vt_cursor_left_presents (h : s.Live P) :
    Presents P (vt_cursor_left s) (s.shown.moveTo (s.curx - 1) s.cury) := by
  have hx := h.x
  apply flush_row_to h
  split_ifs <;> omega

theorem vt_cursor_right_presents (h : s.Live P) :
    Presents P (vt_cursor_right s) (s.shown.moveTo (s.curx + 1) s.cury) := by
  have hx := h.x
  apply flush_row_to h
  split_ifs <;> omega

theorem vt_tab_presents (h : s.Live P) : Presents P (vt_tab s) (s.shown.moveTo ((s.curx / 8 + 1) * 8) s.cury) := by
  have hx := h.x
  apply flush_row_to h
  split_ifs <;> omega

theorem cursorPos_eq (c : Byte) {size : Int} (h : 0 < size) :
    cursorPos c size = max 0 (min (((c.toNat : Int) - 32) % 128) (size - 1)) := by
  unfold cursorPos
  dsimp only
  split_ifs <;> omega

theorem vt_cursor_xpos_presents (h : s.Live P) (c : Byte) :
    Presents P (vt_cursor_xpos s c) (s.shown.moveTo (((c.toNat : Int) - 32) % 128) s.cury) :=
  flush_row_to h (cursorPos_eq c h.wd)

theorem vt_cursor_ypos_presents (h : s.Live P) (c : Byte) :
    Presents P (vt_cursor_ypos s c) (s.shown.moveTo s.curx (((c.toNat : Int) - 32) % 128)) :=
  flush_column_to h (cursorPos_eq c h.ht)

theorem vt_cursor_home_presents (h : s.Live P) : Presents P (vt_cursor_home s) { s.shown with curx := 0, cury := 0 } :=
  flush_at h ⟨le_refl 0, h.wd⟩ ⟨le_refl 0, h.ht⟩

theorem vt_cursor_restore_presents (h : s.Live P) :
    Presents P (vt_cursor_restore s) { s.shown with curx := s.savx, cury := s.savy } :=
  flush_at h h.saved.1 h.saved.2

theorem vt_cr_presents (h : s.Live P) : Presents P (vt_cr s) { s.shown with curx := 0 } :=
  flush_row h ⟨le_refl 0, h.wd⟩

theorem erase_congr {p q : Int → Int → Bool} (hpq : ∀ y x : Nat, p y x = q y x) : m.erase p = m.erase q := by
  unfold Terminal.erase
  simp only [hpq]

theorem Erases.presents {p q : Int → Int → Bool} (he : Erases (vt_flush s) t p) (h : s.Live P)
    (hp : ∀ k x, k < 0 → p k x = false) (hq : ∀ k x, 0 ≤ k → p k x = q k x) : Presents P t (s.shown.erase q) := by
  refine ⟨(he.drawn.rest h.flush).live, (he.shown h.flush hp).trans ?_⟩
  rw [h.flush_shown]
  exact erase_congr fun y x => hq y x (by omega)

theorem flush_cursor (h : s.Live P) : (vt_flush s).curx = s.curx ∧ (vt_flush s).cury = s.cury := by
  obtain ⟨_, _, he⟩ := vt_flush_draw h.toFrame h.toFlushable
  rw [he]
  exact ⟨rfl, rfl⟩

theorem vt_clear_screen_presents (h : s.Live P) : Presents P (vt_clear_screen s) (s.shown.erase fun _ _ => true) := by
  apply (vt_clear_screen_spec h).presents h
  · intro k x hk
    simpa using hk
  · intro k x hk
    simpa using hk

theorem vt_clear_eol_presents (h : s.Live P) :
    Presents P (vt_clear_eol s) (s.shown.erase fun y x => decide (y = s.cury ∧ s.curx ≤ x)) := by
  have hy := h.y
  have he := vt_clear_eol_spec h
  rw [(flush_cursor h).1, (flush_cursor h).2] at he
  apply he.presents h
  · intro k x hk
    rw [decide_eq_false_iff_not]
    omega
  · intro k x hk
    rfl

theorem vt_clear_sol_presents (h : s.Live P) :
    Presents P (vt_clear_sol s) (s.shown.erase fun y x => decide (y = s.cury ∧ x < s.curx)) := by
  have hy := h.y
  have he := vt_clear_sol_spec h
  rw [(flush_cursor h).1, (flush_cursor h).2] at he
  apply he.presents h
  · intro k x hk
    rw [decide_eq_false_iff_not]
    omega
  · intro k x hk
    rfl

theorem vt_clear_eop_presents (h : s.Live P) : Presents P (vt_clear_eop s)
    (s.shown.erase fun y x => decide (y = s.cury ∧ s.curx ≤ x ∨ s.cury < y)) := by
  have hy := h.y
  have he := vt_clear_eop_spec h
  rw [(flush_cursor h).1, (flush_cursor h).2] at he
  apply he.presents h
  · intro k x hk
    rw [decide_eq_false_iff_not]
    omega
  · intro k x hk
    rfl

theorem vt_clear_sop_presents (h : s.Live P) : Presents P (vt_clear_sop s)
    (s.shown.erase fun y x => decide (y < s.cury ∨ y = s.cury ∧ x < s.curx)) := by
  have hy := h.y
  have he := vt_clear_sop_spec h
  rw [(flush_cursor h).1, (flush_cursor h).2] at he
  apply he.presents h
  · intro k x hk
    rw [decide_eq_false_iff_not]
    omega
  · intro k x hk
    rw [decide_eq_decide]
    omega

theorem Vt.Rest.left (h : t.Rest P) : Presents P { t with curx := 0 } { t.shown with curx := 0 } :=
  ⟨(h.move ⟨le_refl 0, h.wd⟩ h.y).live, rfl⟩

theorem vt_insert_line_presents (h : s.Live P) :
    Presents P (vt_insert_line s) { s.shown.insertRow s.cury with curx := 0 } := by
  obtain ⟨t, he, hm⟩ := vt_insert_line_spec h
  rw [(flush_cursor h).2] at hm
  have hrow : s.cury < (vt_flush s).ht := by
    have := h.flush.y
    rw [(flush_cursor h).2] at this
    exact this.2
  have hshown := hm.shown_insert h.flush h.y.1 hrow
  rw [h.flush_shown] at hshown
  rw [he, ← hshown]
  exact (hm.drawn.rest h.flush).left

theorem vt_delete_line_presents (h : s.Live P) :
    Presents P (vt_delete_line s) { s.shown.deleteRow s.cury with curx := 0 } := by
  obtain ⟨t, he, hm⟩ := vt_delete_line_spec h
  rw [(flush_cursor h).2] at hm
  have hrow : s.cury < (vt_flush s).ht := by
    have := h.flush.y
    rw [(flush_cursor h).2] at this
    exact this.2
  have hshown := hm.shown_delete h.flush h.y.1 hrow
  rw [h.flush_shown] at hshown
  rw [he, ← hshown]
  exact (hm.drawn.rest h.flush).left

theorem vt_rev_index_presents (h : s.Live P) : Presents P (vt_rev_index s)
    (if s.cury = 0 then s.shown.insertRow 0 else { s.shown with cury := s.cury - 1 }) := by
  have hy := h.y
  have hspec := vt_rev_index_spec h
  rw [(flush_cursor h).2] at hspec
  split_ifs at hspec ⊢ with h0
  · rw [h0] at hspec
    have hht : 0 < (vt_flush s).ht := h.flush.ht
    refine ⟨(hspec.drawn.rest h.flush).live, ?_⟩
    rw [hspec.shown_insert h.flush (le_refl 0) hht, h.flush_shown]
  · rw [hspec]
    exact flush_column h (by omega)

theorem vt_lf_presents (h : s.Live P) (hroom : s.cury = s.ht - 1 → s.Room) : Presents P (vt_lf s) s.shown.nextRow := by
  have hr := h.flush
  have hsame := h.flush_shown
  unfold vt_lf
  obtain ⟨_, _, he⟩ := vt_flush_draw h.toFrame h.toFlushable
  rw [he] at hr hsame ⊢
  obtain ⟨h1, h2⟩ := nextRow_spec hr hroom
  rw [hsame] at h2
  exact ⟨h1.live, h2⟩

theorem Vt.Live.flags (h : s.Live P) (curvis curon autowrap : Bool) (outfn : OutFn) :
    ({ s with curvis, curon, autowrap, outfn } : Vt).Live P :=
  ⟨h.toCalm.flags curvis curon autowrap s.xtermemu s.parameter outfn, h.bottom⟩

theorem Vt.Live.next (h : s.Live P) (outfn : OutFn) : Presents P { s with outfn } { s.shown with outfn } :=
  ⟨h.flags s.curvis s.curon s.autowrap outfn, rfl⟩

theorem vt_autowrap_presents (h : s.Live P) (autowrap : Bool) :
    Presents P { s with autowrap } { s.shown with autowrap } :=
  ⟨h.flags s.curvis s.curon autowrap s.outfn, rfl⟩

theorem curon_presents (h : s.Live P) (curon : Bool) : Presents P { s with curon } s.shown :=
  ⟨h.flags s.curvis curon s.autowrap s.outfn, rfl⟩

theorem attr_presents (h : s.Live P) (attr : Byte) : Presents P (vt_setattr s attr) s.shown :=
  (vt_setattr_steady h.toCalm attr).presents h

theorem vt_reverse_on_presents (h : s.Live P) : Presents P (vt_reverse_on s) s.shown := by
  unfold vt_reverse_on
  exact Presents.ite_left (fun _ => attr_presents h _) fun _ => attr_presents h _

theorem vt_reverse_off_presents (h : s.Live P) : Presents P (vt_reverse_off s) s.shown := by
  unfold vt_reverse_off
  exact Presents.ite_left (fun _ => attr_presents h _) fun _ => attr_presents h _

theorem vt_normal_presents (h : s.Live P) : Presents P (vt_normal s) s.shown := (vt_normal_steady h.toCalm).presents h

theorem home_presents (h : s.Live P) :
    Presents P (vt_cursor_home (vt_clear_screen s)) { s.shown.erase fun _ _ => true with curx := 0, cury := 0 } := by
  have hc := vt_clear_screen_presents h
  have hh := vt_cursor_home_presents hc.live
  rw [hc.shown] at hh
  exact hh

theorem attribute_presents (h : s.Live P) (c : Byte) : Presents P (if c = 0x47 then vt_normal s
     else if c = 0x67 then vt_bold_on s else if c = 0x68 then vt_bold_off s else if c = 0x69 then vt_underline_on s
     else if c = 0x6d then vt_underline_off s else if c = 0x6e then vt_italic_on s else if c = 0x72 then vt_italic_off s
     else if c = 0x73 then vt_dim_on s else if c = 0x74 then vt_dim_off s else s) s.shown := by
  apply Presents.ite_left (fun _ => vt_normal_presents h)
  intro _
  iterate 8
    apply Presents.ite_left (fun _ => attr_presents h _)
    intro _
  exact ⟨h, rfl⟩

theorem putc_esc_presents (h : s.Live P) (c : Byte) : Presents P (putc_esc s c) (s.shown.esc c) := by
  have hs := (h.next .putc_normal).live
  unfold putc_esc Terminal.esc
  dsimp only
  apply Presents.ite (fun _ => h.next _)
  intro _
  apply Presents.ite (fun _ => vt_cursor_up_presents hs)
  intro _
  apply Presents.ite (fun _ => vt_cursor_down_presents hs)
  intro _
  apply Presents.ite (fun _ => vt_cursor_right_presents hs)
  intro _
  apply Presents.ite (fun _ => vt_cursor_left_presents hs)
  intro _
  apply Presents.ite (fun _ => home_presents hs)
  intro _
  apply Presents.ite (fun _ => vt_cursor_home_presents hs)
  intro _
  apply Presents.ite (fun _ => vt_rev_index_presents hs)
  intro _
  apply Presents.ite (fun _ => vt_clear_eop_presents hs)
  intro _
  apply Presents.ite (fun _ => vt_clear_eol_presents hs)
  intro _
  apply Presents.ite (fun _ => vt_insert_line_presents hs)
  intro _
  apply Presents.ite (fun _ => vt_delete_line_presents hs)
  intro _
  apply Presents.ite (fun _ => h.next _)
  intro _
  apply Presents.ite (fun _ => h.next _)
  intro _
  apply Presents.ite (fun _ => h.next _)
  intro _
  apply Presents.ite (fun _ => vt_clear_sop_presents hs)
  intro _
  apply Presents.ite_left
  · rintro rfl
    exact curon_presents hs true
  intro _
  apply Presents.ite_left
  · rintro rfl
    exact curon_presents hs false
  intro _
  apply Presents.ite (fun _ => ⟨⟨hs.toCalm.save, hs.bottom⟩, rfl⟩)
  intro _
  apply Presents.ite (fun _ => vt_cursor_restore_presents hs)
  intro _
  apply Presents.ite (fun _ => vt_clear_sol_presents hs)
  intro _
  apply Presents.ite_left
  · rintro rfl
    exact vt_reverse_on_presents hs
  intro _
  apply Presents.ite_left
  · rintro rfl
    exact vt_reverse_off_presents hs
  intro _
  apply Presents.ite (fun _ => vt_autowrap_presents hs true)
  intro _
  apply Presents.ite (fun _ => vt_autowrap_presents hs false)
  intro _
  exact attribute_presents hs c

theorem parameter_inside {i : Int} (h0 : 0 ≤ i) (hi : i < MAX_PARAMETERS) : P → 0 ≤ i ∧ i < MAX_PARAMETERS :=
  fun _ => ⟨h0, hi⟩

theorem mouseMode_steady (h : s.Calm P) {i : Nat} (hi : (i : Int) ≤ MAX_PARAMETERS) (value : BitVec 16) :
    Steady P s (mouseMode i s value).1 := by
  induction i generalizing s value with
  | zero => exact Steady.refl h
  | succ i ih =>
    have ht := touch_steady h (parameter_inside (i := i) (by omega) (by omega))
    exact ht.trans (ih ht.calm (by omega) _)

theorem color_inside {value lo : Int} (h : value ≥ lo ∧ value ≤ lo + 7) :
    ((BitVec.ofInt 8 (value - lo) + 0x30 - 0x30 : Byte).toNat : Int) < MAX_COLORS := by
  have hm : MAX_COLORS = 8 := rfl
  rw [digit_sub, BitVec.toNat_ofInt]
  omega

theorem setParameter_steady (h : s.Calm P) {i : Int} (h0 : 0 ≤ i) (hi : i < MAX_PARAMETERS) :
    Steady P s (setParameter s i) := by
  have ht := touch_steady h (parameter_inside h0 hi)
  unfold setParameter
  dsimp only
  split_ifs with hfg hbg
  · exact ht.trans (vt_set_fgcol_steady ht.calm _ fun _ _ => color_inside hfg)
  · exact ht.trans (vt_set_bgcol_steady ht.calm _ fun _ _ => color_inside hbg)
  · exact ht.trans (vt_normal_steady ht.calm)
  · exact ht

theorem setParameters_steady (h : s.Calm P) {l : List Nat} (hl : ∀ i ∈ l, (i : Int) < MAX_PARAMETERS) :
    Steady P s (l.foldl (fun s i => setParameter s i) s) := by
  induction l generalizing s with
  | nil => exact Steady.refl h
  | cons i l ih =>
    have hs := setParameter_steady h (i := i) (by omega) (hl i List.mem_cons_self)
    exact hs.trans (ih hs.calm fun j hj => hl j (List.mem_cons_of_mem i hj))

theorem parameter_steady (h : s.Calm P) (parameter : Int → Int) : Steady P s { s with parameter } :=
  ⟨h.flags s.curvis s.curon s.autowrap s.xtermemu parameter s.outfn,
    ⟨⟨_, _, _, _, _, _, _, _, _, _, _, _, _, rfl⟩, fun _ _ _ => rfl⟩, id⟩

theorem xtermemu_steady (h : s.Calm P) (xtermemu : BitVec 16) : Steady P s { s with xtermemu } :=
  ⟨h.flags s.curvis s.curon s.autowrap xtermemu s.parameter s.outfn,
    ⟨⟨_, _, _, _, _, _, _, _, _, _, _, _, _, rfl⟩, fun _ _ _ => rfl⟩, id⟩

theorem clearParameters_steady (h : s.Calm P) {n : Nat} (hn : (n : Int) ≤ MAX_PARAMETERS) :
    Steady P s (clearParameters n s) := by
  induction n generalizing s with
  | zero => exact Steady.refl h
  | succ n ih =>
    have ht := touch_steady h (parameter_inside (i := n) (by omega) (by omega))
    have hp := parameter_steady ht.calm (Function.update s.parameter n 0)
    exact ht.trans (hp.trans (ih hp.calm (by omega)))

theorem final_steady (h : s.Calm P) (c : Byte) : Steady P s
    (if c = 0x68 ∨ c = 0x6c then
      { (mouseMode (s.params + 1).toNat s 0).1 with
        xtermemu := if c = 0x6c then
            (mouseMode (s.params + 1).toNat s 0).1.xtermemu &&& ~~~(mouseMode (s.params + 1).toNat s 0).2
          else (mouseMode (s.params + 1).toNat s 0).1.xtermemu ||| (mouseMode (s.params + 1).toNat s 0).2 }
    else if c = 0x6d then (List.range (s.params + 1).toNat).foldl (fun s i => setParameter s i) s
    else s) := by
  obtain ⟨h0, hp⟩ := h.params
  split_ifs
  · have hm := mouseMode_steady h (i := (s.params + 1).toNat) (by omega) 0
    exact hm.trans (xtermemu_steady hm.calm _)
  · have hm := mouseMode_steady h (i := (s.params + 1).toNat) (by omega) 0
    exact hm.trans (xtermemu_steady hm.calm _)
  · apply setParameters_steady h
    intro i hi
    rw [List.mem_range] at hi
    omega
  · exact Steady.refl h

theorem putc_xparam_presents (h : s.Live P) (c : Byte) : Presents P (putc_xparam s c) (s.shown.xparam c) := by
  obtain ⟨h0, hp⟩ := h.params
  unfold putc_xparam Terminal.xparam
  apply Presents.ite
  · rintro ⟨-, hlt⟩
    exact ⟨⟨h.toCalm.params' ⟨by omega, by omega⟩, h.bottom⟩, rfl⟩
  intro _
  apply Presents.ite
  · intro _
    have ht := touch_steady h.toCalm (parameter_inside h0 hp)
    exact (ht.trans (parameter_steady ht.calm _)).presents h
  intro _
  have hf := final_steady h.toCalm c
  have hc := hf.trans (clearParameters_steady hf.calm (n := (s.params + 1).toNat) (by omega))
  have hshown := (hc.presents h).shown
  have hzero : Vt.Live P { clearParameters (s.params + 1).toNat _ with params := 0 } :=
    ⟨hc.calm.params' ⟨le_refl 0, by decide⟩, (hc.live h).bottom⟩
  have hr := hzero.next .putc_normal
  exact ⟨hr.live, hr.shown.trans (congrArg
    (fun t : Terminal => { t with params := 0, outfn := .putc_normal }) hshown)⟩

theorem putc_xterm_presents (h : s.Live P) (c : Byte) : Presents P (putc_xterm s c)
    (if isDigit c ∨ c = 0x3f then { s.shown with outfn := .putc_xparam } else s.shown.xparam c) := by
  unfold putc_xterm
  by_cases hd : isDigit c = true
  · rw [if_pos hd, if_pos (Or.inl hd)]
    have ht := touch_steady h.toCalm (parameter_inside h.params.1 h.params.2)
    have hs := ht.trans (parameter_steady ht.calm (Function.update s.parameter s.params (c.toNat - 0x30)))
    have hn := (hs.live h).next .putc_xparam
    rw [(hs.presents h).shown] at hn
    exact hn
  · rw [if_neg hd]
    by_cases hq : c = 0x3f
    · rw [if_pos hq, if_pos (Or.inr hq)]
      exact h.next _
    · rw [if_neg hq, if_neg (not_or.mpr ⟨hd, hq⟩)]
      exact putc_xparam_presents h c

def Vt.Scrolls (s : Vt) (c : Byte) : Prop :=
  s.outfn = .putc_normal ∧ s.cury = s.ht - 1 ∧ (c = 10 ∨ s.autowrap = true ∧ s.curx = s.wd - 1)

theorem putc_normal_presents (h : s.Live P) (c : Byte)
    (hroom : s.cury = s.ht - 1 → (c = 10 ∨ s.autowrap = true ∧ s.curx = s.wd - 1) → s.Room) :
    Presents P (putc_normal s c) (s.shown.normal c) := by
  unfold putc_normal Terminal.normal
  by_cases h0 : c = 0 ∨ c = 7
  · rw [if_pos h0, if_pos (by tauto)]
    exact ⟨h, rfl⟩
  by_cases h127 : c = 127
  · rw [h127]
    exact ⟨h, rfl⟩
  rw [if_neg h0, if_neg (show ¬ (c = 0 ∨ c = 7 ∨ c = 127) by tauto), if_neg h127]
  apply Presents.ite (fun _ => vt_cursor_left_presents h)
  intro _
  apply Presents.ite (fun _ => vt_tab_presents h)
  intro _
  apply Presents.ite
  · intro hc
    have hlf := vt_lf_presents h fun hy => hroom hy (Or.inl hc)
    have hcr := vt_cr_presents hlf.live
    rw [hlf.shown] at hcr
    exact hcr
  intro _
  apply Presents.ite (fun _ => vt_cr_presents h)
  intro _
  apply Presents.ite (fun _ => h.next _)
  intro _
  obtain ⟨h1, h2⟩ := vt_print_spec h (show c ≠ 0 by tauto) fun ha hx hy => hroom hy (Or.inr ⟨ha, hx⟩)
  exact ⟨h1, h2⟩

def Vt.Colored (s : Vt) (c : Byte) : Prop :=
  s.outfn = .putc_esc_b ∨ s.outfn = .putc_esc_c → s.Colors ≠ 0 → ((c - 0x30).toNat : Int) < MAX_COLORS

theorem putc_presents (h : s.Live P) (c : Byte) (hcolor : P → s.Colored c) (hroom : s.Scrolls c → s.Room) :
    Presents P (s.putc c) (s.shown.putc c) := by
  have hs (outfn : OutFn) := h.next outfn
  unfold Vt.putc Terminal.putc
  rw [show s.shown.outfn = s.outfn from rfl]
  cases hout : s.outfn with
  | putc_normal =>
    exact putc_normal_presents h c fun hy hx => hroom ⟨hout, hy, hx⟩
  | putc_esc => exact putc_esc_presents h c
  | putc_esc_y1 =>
    exact vt_cursor_ypos_presents (hs .putc_esc_y2).live c
  | putc_esc_y2 =>
    exact vt_cursor_xpos_presents (hs .putc_normal).live c
  | putc_esc_c =>
    exact (vt_set_bgcol_steady (hs .putc_normal).live.toCalm c fun hP => hcolor hP (Or.inr hout)).presents
      (hs .putc_normal).live
  | putc_esc_b =>
    exact (vt_set_fgcol_steady (hs .putc_normal).live.toCalm c fun hP => hcolor hP (Or.inl hout)).presents
      (hs .putc_normal).live
  | putc_xterm => exact putc_xterm_presents h c
  | putc_xparam => exact putc_xparam_presents h c

end WWindowSystem
