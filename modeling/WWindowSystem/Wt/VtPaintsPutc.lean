import WWindowSystem.Wt.VtPaints

namespace WWindowSystem

variable {s t u : Vt} {win : WinCells}

theorem Paints.ite {c : Prop} [Decidable c] {win' : WinCells} (h : c → Paints s win) (h' : ¬ c → Paints t win') :
    Paints (if c then s else t) (if c then win else win') := by
  split_ifs with hc
  · exact h hc
  · exact h' hc

theorem vt_setattr_paints (h : s.Calm False) (hp : Paints s win) (attr : Byte) :
    Paints (vt_setattr s attr) (vt_flush_win s win) :=
  (hp.flush h.toFrame h.toFlushable).of_same ⟨rfl, rfl, rfl, rfl, rfl, rfl⟩

theorem mode_paints (h : s.Calm False) (hp : Paints s win) (bgmode attr : Byte) :
    Paints (vt_setattr { s with bgmode } attr) (vt_flush_win s win) :=
  vt_setattr_paints (bgmode_steady h bgmode).calm (hp.of_same ⟨rfl, rfl, rfl, rfl, rfl, rfl⟩) attr

theorem vt_change_bgmode_paints (h : s.Calm False) (hp : Paints s win) (reverse : Bool) :
    Paints (vt_change_bgmode s reverse) (vt_change_bgmode_win s reverse win) := by
  unfold vt_change_bgmode vt_change_bgmode_win
  generalize (if reverse = true then VT_DRAW else VT_CLEAR) = mode
  dsimp only
  apply Paints.ite
  · intro _
    apply Paints.ite
    · intro _
      exact mode_paints h hp mode _
    · intro _
      exact hp.of_same ⟨rfl, rfl, rfl, rfl, rfl, rfl⟩
  · intro _
    exact hp

theorem useColor_paints (h : s.Calm False) (hp : Paints s win) (col : Byte) :
    Paints (s.useColor col) (s.useColor_win col win) := by
  unfold Vt.useColor Vt.useColor_win
  dsimp only
  split_ifs
  · exact (hp.flush h.toFrame h.toFlushable).of_same ⟨rfl, rfl, rfl, rfl, rfl, rfl⟩
  · exact hp.of_same ⟨rfl, rfl, rfl, rfl, rfl, rfl⟩

theorem vt_set_fgcol_paints (h : s.Calm False) (hp : Paints s win) (col : Byte) :
    Paints (vt_set_fgcol s col) (vt_set_fgcol_win s col win) := by
  unfold vt_set_fgcol vt_set_fgcol_win
  apply Paints.ite
  · intro _
    exact (useColor_paints h hp _).of_same ⟨rfl, rfl, rfl, rfl, rfl, rfl⟩
  · intro _
    exact vt_change_bgmode_paints h hp _

theorem vt_set_bgcol_paints (h : s.Calm False) (hp : Paints s win) (col : Byte) :
    Paints (vt_set_bgcol s col) (vt_set_bgcol_win s col win) := by
  unfold vt_set_bgcol vt_set_bgcol_win
  apply Paints.ite
  · intro _
    exact (useColor_paints h hp _).of_same ⟨rfl, rfl, rfl, rfl, rfl, rfl⟩
  · intro _
    exact vt_change_bgmode_paints h hp _

theorem colors_paints (h : s.Calm False) (hp : Paints s win) (fg bg : Byte) :
    Paints (vt_setattr { vt_set_fgcol (vt_set_bgcol s bg) fg with bgmode := VT_CLEAR } VT_NORMAL)
      (vt_flush_win (vt_set_fgcol (vt_set_bgcol s bg) fg)
        (vt_set_fgcol_win (vt_set_bgcol s bg) fg (vt_set_bgcol_win s bg win))) := by
  have h1 := (vt_set_bgcol_steady h bg False.elim).calm
  have h2 := (vt_set_fgcol_steady h1 fg False.elim).calm
  exact mode_paints h2 (vt_set_fgcol_paints h1 (vt_set_bgcol_paints h hp bg) fg) VT_CLEAR VT_NORMAL

theorem vt_normal_paints (h : s.Calm False) (hp : Paints s win) : Paints (vt_normal s) (vt_normal_win s win) := by
  unfold vt_normal vt_normal_win vt_cursor_on
  dsimp only
  split_ifs
  · exact (colors_paints h hp _ _).of_same ⟨rfl, rfl, rfl, rfl, rfl, rfl⟩
  · exact (colors_paints h hp _ _).of_same ⟨rfl, rfl, rfl, rfl, rfl, rfl⟩
  · exact (mode_paints h hp VT_DRAW VT_REVERSE).of_same ⟨rfl, rfl, rfl, rfl, rfl, rfl⟩
  · exact (mode_paints h hp VT_CLEAR VT_NORMAL).of_same ⟨rfl, rfl, rfl, rfl, rfl, rfl⟩

theorem vt_reverse_paints (h : s.Calm False) (hp : Paints s win) :
    Paints (vt_reverse_on s) (vt_flush_win s win) ∧ Paints (vt_reverse_off s) (vt_flush_win s win) := by
  unfold vt_reverse_on vt_reverse_off
  constructor
  · split_ifs
    · exact vt_setattr_paints h hp _
    · exact vt_setattr_paints h hp _
  · split_ifs
    · exact vt_setattr_paints h hp _
    · exact vt_setattr_paints h hp _

theorem setParameter_paints (h : s.Calm False) (hp : Paints s win) {i : Int} (hi : 0 ≤ i ∧ i < MAX_PARAMETERS) :
    Paints (setParameter s i) (setParameter_win s i win) := by
  have ht := (touch_steady h (parameter_inside hi.1 hi.2)).calm
  have hpt : Paints (s.touch MAX_PARAMETERS i) win := hp.of_same ⟨rfl, rfl, rfl, rfl, rfl, rfl⟩
  unfold setParameter setParameter_win
  apply Paints.ite
  · intro _
    exact vt_set_fgcol_paints ht hpt _
  · intro _
    apply Paints.ite
    · intro _
      exact vt_set_bgcol_paints ht hpt _
    · intro _
      exact Paints.ite (fun _ => vt_normal_paints ht hpt) fun _ => hpt

theorem setParameters_paints {l : List Nat} (h : s.Calm False) (hp : Paints s win)
    (hl : ∀ i ∈ l, (i : Int) < MAX_PARAMETERS) : Paints (l.foldl (fun s i => setParameter s i) s)
      (l.foldl (fun d (i : Nat) => d.setParameter i) (⟨s, win⟩ : VtWindow)).win := by
  induction l generalizing s win with
  | nil => exact hp
  | cons i l ih =>
    have hi := hl i List.mem_cons_self
    exact ih (setParameter_steady h (by omega) hi).calm (setParameter_paints h hp ⟨by omega, hi⟩)
      fun j hj => hl j (List.mem_cons_of_mem i hj)

theorem mouseMode_eq (n : Nat) (s : Vt) (value : BitVec 16) :
    ∃ touched, (mouseMode n s value).1 = { s with touched } := by
  induction n generalizing s value with
  | zero => exact ⟨s.touched, rfl⟩
  | succ n ih =>
    obtain ⟨touched, he⟩ := ih (s.touch MAX_PARAMETERS n) (if (s.touch MAX_PARAMETERS n).parameter n = 9 then value ||| 1
      else if (s.touch MAX_PARAMETERS n).parameter n = 1000 ∨ (s.touch MAX_PARAMETERS n).parameter n = 1001
      then value ||| 2 else value)
    exact ⟨touched, he⟩

theorem clearParameters_eq (n : Nat) (s : Vt) :
    ∃ touched parameter, clearParameters n s = { s with touched, parameter } := by
  induction n generalizing s with
  | zero => exact ⟨s.touched, s.parameter, rfl⟩
  | succ n ih =>
    obtain ⟨touched, parameter, he⟩ := ih { s.touch MAX_PARAMETERS n with
      parameter := Function.update s.parameter n 0 }
    exact ⟨touched, parameter, he⟩

theorem putc_xparam_paints (h : s.Calm False) (hp : Paints s win) (c : Byte) :
    Paints (putc_xparam s c) (putc_xparam_win s c win) := by
  have hp5 := h.params
  have hm : MAX_PARAMETERS = 6 := rfl
  unfold putc_xparam putc_xparam_win
  dsimp only
  apply Paints.ite
  · intro _
    exact hp.of_same ⟨rfl, rfl, rfl, rfl, rfl, rfl⟩
  intro _
  apply Paints.ite
  · intro _
    exact hp.of_same ⟨rfl, rfl, rfl, rfl, rfl, rfl⟩
  intro _
  have hclear {v : Vt} {w : WinCells} (hv : Paints v w) :
      Paints { clearParameters (s.params + 1).toNat v with params := 0, outfn := .putc_normal } w := by
    obtain ⟨_, _, he⟩ := clearParameters_eq (s.params + 1).toNat v
    rw [he]
    exact hv.of_same ⟨rfl, rfl, rfl, rfl, rfl, rfl⟩
  apply hclear
  apply Paints.ite
  · intro _
    obtain ⟨_, he⟩ := mouseMode_eq (s.params + 1).toNat s 0
    rw [he]
    exact hp.of_same ⟨rfl, rfl, rfl, rfl, rfl, rfl⟩
  intro _
  apply Paints.ite
  · intro _
    apply setParameters_paints h hp
    intro i hi
    rw [List.mem_range] at hi
    omega
  · intro _
    exact hp

theorem putc_xterm_paints (h : s.Calm False) (hp : Paints s win) (c : Byte) :
    Paints (putc_xterm s c) (putc_xterm_win s c win) := by
  unfold putc_xterm putc_xterm_win
  apply Paints.ite
  · intro _
    exact hp.of_same ⟨rfl, rfl, rfl, rfl, rfl, rfl⟩
  intro _
  apply Paints.ite
  · intro _
    exact hp.of_same ⟨rfl, rfl, rfl, rfl, rfl, rfl⟩
  · intro _
    exact putc_xparam_paints h hp c

def Vt.Ghostless (s : Vt) (c : Byte) : Prop :=
  s.outfn = .putc_esc → c = 0x4a ∨ c = 0x4b → s.BlankMargin

theorem attribute_paints (h : s.Calm False) (hp : Paints s win) (c : Byte) : Paints (if c = 0x47 then vt_normal s
     else if c = 0x67 then vt_bold_on s else if c = 0x68 then vt_bold_off s else if c = 0x69 then vt_underline_on s
     else if c = 0x6d then vt_underline_off s else if c = 0x6e then vt_italic_on s else if c = 0x72 then vt_italic_off s
     else if c = 0x73 then vt_dim_on s else if c = 0x74 then vt_dim_off s else s) (if c = 0x47 then vt_normal_win s win
     else if c = 0x67 then vt_flush_win s win else if c = 0x68 then vt_flush_win s win
     else if c = 0x69 then vt_flush_win s win else if c = 0x6d then vt_flush_win s win
     else if c = 0x6e then vt_flush_win s win else if c = 0x72 then vt_flush_win s win
     else if c = 0x73 then vt_flush_win s win else if c = 0x74 then vt_flush_win s win else win) := by
  apply Paints.ite (fun _ => vt_normal_paints h hp)
  intro _
  iterate 8
    apply Paints.ite (fun _ => vt_setattr_paints h hp _)
    intro _
  exact hp

theorem putc_esc_paints (h : s.Live False) (hp : Paints s win) {c : Byte}
    (hb : c = 0x4a ∨ c = 0x4b → s.BlankMargin) : Paints (putc_esc s c) (putc_esc_win s c win) := by
  have hn := (h.next .putc_normal).live
  have hpn : Paints { s with outfn := .putc_normal } win := hp.of_same ⟨rfl, rfl, rfl, rfl, rfl, rfl⟩
  have hsame (outfn : OutFn) : Paints { s with outfn } win := hp.of_same ⟨rfl, rfl, rfl, rfl, rfl, rfl⟩
  have hmove (curx cury : Int) : Paints { vt_flush { s with outfn := .putc_normal } with curx, cury } (vt_flush_win s win) :=
    (hpn.flush hn.toFrame hn.toFlushable).of_same ⟨rfl, rfl, rfl, rfl, rfl, rfl⟩
  have hrow (curx : Int) : Paints { vt_flush { s with outfn := .putc_normal } with curx } (vt_flush_win s win) :=
    (hpn.flush hn.toFrame hn.toFlushable).of_same ⟨rfl, rfl, rfl, rfl, rfl, rfl⟩
  have hcolumn (cury : Int) : Paints { vt_flush { s with outfn := .putc_normal } with cury } (vt_flush_win s win) :=
    (hpn.flush hn.toFrame hn.toFlushable).of_same ⟨rfl, rfl, rfl, rfl, rfl, rfl⟩
  unfold putc_esc putc_esc_win
  apply Paints.ite (fun _ => hsame _)
  intro _
  apply Paints.ite (fun _ => hcolumn _)
  intro _
  apply Paints.ite (fun _ => hcolumn _)
  intro _
  apply Paints.ite (fun _ => hrow _)
  intro _
  apply Paints.ite (fun _ => hrow _)
  intro _
  apply Paints.ite
  · intro _
    have hc := vt_clear_screen_paints hn hpn
    have hl := (vt_clear_screen_presents hn).live
    have he : vt_flush (vt_clear_screen { s with outfn := .putc_normal }) = vt_clear_screen { s with outfn := .putc_normal } :=
      vt_flush_nil ((vt_clear_screen_spec hn).drawn.rest hn.flush).empty
    unfold vt_cursor_home
    rw [he]
    exact hc.of_same ⟨rfl, rfl, rfl, rfl, rfl, rfl⟩
  intro _
  apply Paints.ite (fun _ => hmove 0 0)
  intro _
  apply Paints.ite (fun _ => vt_rev_index_paints hn hpn)
  intro _
  apply Paints.ite (fun hc => vt_clear_eop_paints hn hpn (hb (Or.inl hc)))
  intro _
  apply Paints.ite (fun hc => vt_clear_eol_paints hn hpn (hb (Or.inr hc)))
  intro _
  apply Paints.ite (fun _ => vt_insert_line_paints hn hpn)
  intro _
  apply Paints.ite (fun _ => vt_delete_line_paints hn hpn)
  intro _
  apply Paints.ite (fun _ => hsame _)
  intro _
  apply Paints.ite (fun _ => hsame _)
  intro _
  apply Paints.ite (fun _ => hsame _)
  intro _
  apply Paints.ite (fun _ => vt_clear_sop_paints hn hpn)
  intro _
  apply Paints.ite
  · intro _
    exact hpn.of_same ⟨rfl, rfl, rfl, rfl, rfl, rfl⟩
  intro _
  apply Paints.ite
  · intro _
    exact hpn.of_same ⟨rfl, rfl, rfl, rfl, rfl, rfl⟩
  intro _
  apply Paints.ite
  · intro _
    exact hpn.of_same ⟨rfl, rfl, rfl, rfl, rfl, rfl⟩
  intro _
  apply Paints.ite (fun _ => hmove s.savx s.savy)
  intro _
  apply Paints.ite (fun _ => vt_clear_sol_paints hn hpn)
  intro _
  apply Paints.ite (fun _ => (vt_reverse_paints hn.toCalm hpn).1)
  intro _
  apply Paints.ite (fun _ => (vt_reverse_paints hn.toCalm hpn).2)
  intro _
  apply Paints.ite
  · intro _
    exact hpn.of_same ⟨rfl, rfl, rfl, rfl, rfl, rfl⟩
  intro _
  apply Paints.ite
  · intro _
    exact hpn.of_same ⟨rfl, rfl, rfl, rfl, rfl, rfl⟩
  intro _
  exact attribute_paints hn.toCalm hpn c

theorem vt_addchar_paints (h : s.Live False) (hp : Paints s win) (c : Byte) :
    Paints (vt_addchar s c) (vt_addchar_win s win) := by
  have hf := hp.flush h.toFrame h.toFlushable
  unfold vt_addchar vt_addchar_win
  dsimp only
  split_ifs
  · exact hf.of_same ⟨rfl, rfl, rfl, rfl, rfl, rfl⟩
  · exact hf.of_same ⟨rfl, rfl, rfl, rfl, rfl, rfl⟩
  · exact hp.of_same ⟨rfl, rfl, rfl, rfl, rfl, rfl⟩
  · exact hp.of_same ⟨rfl, rfl, rfl, rfl, rfl, rfl⟩

theorem margin_paints (h : s.Frame False) (hnil : s.outbuf = []) (hp : Paints s win) :
    Paints (if ¬ s.autowrap then { s with curx := s.wd - 1 } else { s with curx := 0 }.nextRow)
      (if ¬ s.autowrap then win else { s with curx := 0 }.nextRow_win win) := by
  apply Paints.ite
  · intro _
    exact hp.of_same ⟨rfl, rfl, rfl, rfl, rfl, rfl⟩
  · intro _
    have hz : Paints { s with curx := 0 } win := hp.of_same ⟨rfl, rfl, rfl, rfl, rfl, rfl⟩
    exact nextRow_paints (h.cursor 0 s.cury) hnil hz

theorem vt_print_paints (h : s.Live False) (hp : Paints s win) {c : Byte} (hc : c ≠ 0) :
    Paints (vt_print s c) (vt_print_win s c win) := by
  have hb := (vt_addchar_spec h hc).1
  have ha : Paints { vt_addchar s c with curx := (vt_addchar s c).curx + 1 } (vt_addchar_win s win) :=
    (vt_addchar_paints h hp c).of_same ⟨rfl, rfl, rfl, rfl, rfl, rfl⟩
  have hf := ha.flush hb.toFrame hb.toFlushable
  have hm := margin_paints (vt_flush_frame hb.toFrame hb.toFlushable) (vt_flush_empty _) hf
  exact Paints.ite (fun _ => hm) fun _ => ha

theorem putc_normal_paints (h : s.Live False) (hp : Paints s win) (c : Byte) :
    Paints (putc_normal s c) (putc_normal_win s c win) := by
  have hf := hp.flush h.toFrame h.toFlushable
  have hrow (curx : Int) : Paints { vt_flush s with curx } (vt_flush_win s win) :=
    hf.of_same ⟨rfl, rfl, rfl, rfl, rfl, rfl⟩
  unfold putc_normal putc_normal_win
  apply Paints.ite (fun _ => hp)
  intro h0
  apply Paints.ite (fun _ => hrow _)
  intro _
  apply Paints.ite (fun _ => hrow _)
  intro _
  apply Paints.ite
  · intro _
    have hl := (vt_lf_presents h fun _ => hp.room).live
    have hlf : Paints (vt_lf s) (vt_lf_win s win) := nextRow_paints h.flush.toFrame h.flush.empty hf
    exact (hlf.flush hl.toFrame hl.toFlushable).of_same ⟨rfl, rfl, rfl, rfl, rfl, rfl⟩
  intro _
  apply Paints.ite (fun _ => hrow _)
  intro _
  apply Paints.ite
  · intro _
    exact hp.of_same ⟨rfl, rfl, rfl, rfl, rfl, rfl⟩
  intro _
  apply Paints.ite (fun _ => hp)
  intro _
  exact vt_print_paints h hp fun hc => h0 (Or.inl hc)

theorem putc_paints (h : s.Live False) (hp : Paints s win) {c : Byte} (hg : s.Ghostless c) :
    Paints (s.putc c) (s.outfn.win s c win) := by
  have hf (outfn : OutFn) : Paints (vt_flush { s with outfn }) (vt_flush_win s win) := by
    have hl := (h.next outfn).live
    have hs : Paints { s with outfn } win := hp.of_same ⟨rfl, rfl, rfl, rfl, rfl, rfl⟩
    exact hs.flush hl.toFrame hl.toFlushable
  have hn := (h.next .putc_normal).live.toCalm
  have hpn : Paints { s with outfn := .putc_normal } win := hp.of_same ⟨rfl, rfl, rfl, rfl, rfl, rfl⟩
  unfold Vt.putc
  unfold Vt.Ghostless at hg
  generalize hout : s.outfn = f at hg ⊢
  cases f with
  | putc_normal => exact putc_normal_paints h hp c
  | putc_esc => exact putc_esc_paints h hp (hg rfl)
  | putc_esc_y1 => exact (hf .putc_esc_y2).of_same ⟨rfl, rfl, rfl, rfl, rfl, rfl⟩
  | putc_esc_y2 => exact (hf .putc_normal).of_same ⟨rfl, rfl, rfl, rfl, rfl, rfl⟩
  | putc_esc_c => exact vt_set_bgcol_paints hn hpn c
  | putc_esc_b => exact vt_set_fgcol_paints hn hpn c
  | putc_xterm => exact putc_xterm_paints h.toCalm hp c
  | putc_xparam => exact putc_xparam_paints h.toCalm hp c

end WWindowSystem
