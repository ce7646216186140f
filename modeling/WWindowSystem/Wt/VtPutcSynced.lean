import WWindowSystem.Library.Run
import WWindowSystem.Wt.VtSynced

namespace WWindowSystem

/-- The characters in the buffer are gone, or a color that is set does not change what they look like
or lets them go first. -/
def Vt.ColorReady (s : Vt) (cur : BitVec 4) (col : Byte) (reverse : Bool) : Prop :=
  s.outbuf = [] ∨
    if s.Colors ≠ 0 then col.toNat < s.Colors ∨ cur = col.setWidth 4
    else s.bgmode = if reverse then VT_DRAW else VT_CLEAR

def Vt.FgReady (s : Vt) (col : Byte) : Prop := s.ColorReady s.curfg (col - 0x30) (col - 0x30 ≠ 0)
def Vt.BgReady (s : Vt) (col : Byte) : Prop := s.ColorReady s.curbg (col - 0x30) (col - 0x30 = 0)

def Vt.NormalReady (s : Vt) : Prop :=
  s.outbuf = [] ∨ s.Colors ≠ 0 ∨ s.bgmode = if s.reversed then VT_DRAW else VT_CLEAR

def Vt.ParameterReady (s : Vt) (i : Nat) : Prop :=
  let value := s.parameter i
  if value ≥ 30 ∧ value ≤ 37 then s.FgReady (BitVec.ofInt 8 (value - 30) + 0x30)
  else if value ≥ 40 ∧ value ≤ 47 then s.BgReady (BitVec.ofInt 8 (value - 40) + 0x30)
  else if value = 0 then s.NormalReady
  else True

def Vt.ParametersReady (s : Vt) : Prop :=
  AllSafe (fun s (i : Nat) => setParameter s i) Vt.ParameterReady s (List.range (s.params + 1).toNat)

def OutFn.Ready : OutFn → Vt → Byte → Prop
  | .putc_esc_b, s, c => s.FgReady c
  | .putc_esc_c, s, c => s.BgReady c
  | .putc_esc, s, c => c = 0x47 → s.NormalReady
  | .putc_xterm, s, c => c = 0x6d → s.ParametersReady
  | .putc_xparam, s, c => c = 0x6d → s.ParametersReady
  | _, _, _ => True

def Vt.Ready (s : Vt) (c : Byte) : Prop := s.outfn.Ready s c

instance (s : Vt) (cur : BitVec 4) (col : Byte) (reverse : Bool) : Decidable (s.ColorReady cur col reverse) :=
  inferInstanceAs (Decidable (_ ∨ ite _ _ _))

instance (s : Vt) (col : Byte) : Decidable (s.FgReady col) := inferInstanceAs (Decidable (Vt.ColorReady _ _ _ _))
instance (s : Vt) (col : Byte) : Decidable (s.BgReady col) := inferInstanceAs (Decidable (Vt.ColorReady _ _ _ _))
instance (s : Vt) : Decidable s.NormalReady := inferInstanceAs (Decidable (_ ∨ _ ∨ _))

instance (s : Vt) (i : Nat) : Decidable (s.ParameterReady i) :=
  inferInstanceAs (Decidable (ite _ _ (ite _ _ (ite _ _ _))))

instance (s : Vt) : Decidable s.ParametersReady := inferInstanceAs (Decidable (AllSafe _ _ _ _))

instance OutFn.Ready.decidable : (f : OutFn) → (s : Vt) → (c : Byte) → Decidable (f.Ready s c)
  | .putc_normal, _, _ => .isTrue trivial
  | .putc_esc, _, _ => inferInstanceAs (Decidable (_ → _))
  | .putc_esc_y1, _, _ => .isTrue trivial
  | .putc_esc_y2, _, _ => .isTrue trivial
  | .putc_esc_c, _, _ => inferInstanceAs (Decidable (Vt.BgReady _ _))
  | .putc_esc_b, _, _ => inferInstanceAs (Decidable (Vt.FgReady _ _))
  | .putc_xterm, _, _ => inferInstanceAs (Decidable (_ → _))
  | .putc_xparam, _, _ => inferInstanceAs (Decidable (_ → _))

instance Vt.Ready.decidable (s : Vt) (c : Byte) : Decidable (s.Ready c) :=
  inferInstanceAs (Decidable (OutFn.Ready _ _ _))

variable {s t : Vt}

theorem Synced.ite {c : Prop} [Decidable c] {s' t' : Vt} (h : c → Synced s t) (h' : ¬ c → Synced s' t') :
    Synced (if c then s else s') (if c then t else t') := by
  split_ifs with hc
  · exact h hc
  · exact h' hc

theorem Synced.color (h : Synced s t) (hc : s.Colors ≠ 0) {curfg curbg curfg' curbg' : BitVec 4}
    (hnil : s.outbuf = [] ∨ curfg = s.curfg ∧ curbg = s.curbg) (hf : curfg' = curfg) (hb : curbg' = curbg) :
    Synced { s with curfg, curbg } { t with curfg := curfg', curbg := curbg' } := by
  rw [hf, hb]
  obtain hnil | ⟨rfl, rfl⟩ := hnil
  · exact (color_blur (h.of_empty hnil) hc curfg curbg).synced
  · obtain ⟨_, _, _, _, rfl⟩ := h.same
    exact h

variable {cur : BitVec 4} {reverse : Bool} {col : Byte}

theorem Synced.useColor (h : Synced s t)
    (hr : s.ColorReady cur col reverse) (hc : s.Colors ≠ 0) : Synced (s.useColor col) (t.useColor col) ∧
      ((s.useColor col).outbuf = [] ∨ cur = col.setWidth 4) := by
  have hcolors : t.Colors = s.Colors := h.attributes.2.2.2.1
  unfold Vt.useColor
  dsimp only
  rw [hcolors]
  split_ifs with hlt
  · rw [h.flush]
    exact ⟨h.blur.synced.touch _ _, Or.inl (vt_flush_empty s)⟩
  · refine ⟨h.touch _ _, ?_⟩
    obtain hnil | hr := hr
    · exact Or.inl hnil
    · rw [if_pos hc] at hr
      exact Or.inr (hr.resolve_left hlt)

theorem useColor_same (s : Vt) (col : Byte) : (s.useColor col).Colors = s.Colors ∧
    (s.useColor col).curfg = s.curfg ∧ (s.useColor col).curbg = s.curbg ∧ (s.useColor col).bgmode = s.bgmode := by
  unfold Vt.useColor
  dsimp only
  split_ifs
  · obtain ⟨_, _, _, he⟩ := vt_flush_same s
    rw [he]
    exact ⟨rfl, rfl, rfl, rfl⟩
  · exact ⟨rfl, rfl, rfl, rfl⟩

theorem Synced.set_fgcol (h : Synced s t) (hr : s.FgReady col) :
    Synced (vt_set_fgcol s col) (vt_set_fgcol t col) := by
  have hcolors : t.Colors = s.Colors := h.attributes.2.2.2.1
  unfold vt_set_fgcol
  dsimp only
  by_cases hc : s.Colors ≠ 0
  · rw [if_pos hc, if_pos (hcolors ▸ hc)]
    obtain ⟨hu, hnil⟩ := h.useColor hr hc
    obtain ⟨e1, e2, -, -⟩ := useColor_same s (col - 0x30)
    have hbg : (t.useColor (col - 0x30)).curbg = (s.useColor (col - 0x30)).curbg := by
      obtain ⟨_, _, _, _, he⟩ := hu.same
      rw [he]
    refine hu.color (by rw [e1]; exact hc) (hnil.imp_right fun he => ⟨?_, rfl⟩) rfl hbg
    rw [e2, he]
  · rw [if_neg hc, if_neg (hcolors ▸ hc)]
    apply h.change_bgmode
    obtain hnil | hr := hr
    · exact Or.inl hnil
    · rw [if_neg hc] at hr
      exact Or.inr hr

theorem Synced.set_bgcol (h : Synced s t) (hr : s.BgReady col) :
    Synced (vt_set_bgcol s col) (vt_set_bgcol t col) := by
  have hcolors : t.Colors = s.Colors := h.attributes.2.2.2.1
  unfold vt_set_bgcol
  dsimp only
  by_cases hc : s.Colors ≠ 0
  · rw [if_pos hc, if_pos (hcolors ▸ hc)]
    obtain ⟨hu, hnil⟩ := h.useColor hr hc
    obtain ⟨e1, -, e3, -⟩ := useColor_same s (col - 0x30)
    have hfg : (t.useColor (col - 0x30)).curfg = (s.useColor (col - 0x30)).curfg := by
      obtain ⟨_, _, _, _, he⟩ := hu.same
      rw [he]
    refine hu.color (by rw [e1]; exact hc) (hnil.imp_right fun he => ⟨rfl, ?_⟩) hfg rfl
    rw [e3, he]
  · rw [if_neg hc, if_neg (hcolors ▸ hc)]
    apply h.change_bgmode
    obtain hnil | hr := hr
    · exact Or.inl hnil
    · rw [if_neg hc] at hr
      exact Or.inr hr

theorem Synced.attrOn (h : Synced s t) {attr : Byte} (h6 : Six attr) : Synced (s.attrOn attr) (t.attrOn attr) := by
  have ha := h.attributes.1
  have hs : Six s.curattr := ha ▸ h.whole.six
  exact h.setattr (hs.or h6) (by rw [ha])

theorem Synced.attrOff (h : Synced s t) (attr : Byte) : Synced (s.attrOff attr) (t.attrOff attr) := by
  have ha := h.attributes.1
  have hs : Six s.curattr := ha ▸ h.whole.six
  exact h.setattr (hs.and _) (by rw [ha])

theorem Synced.reverse_on (h : Synced s t) : Synced (vt_reverse_on s) (vt_reverse_on t) := by
  unfold vt_reverse_on
  rw [h.attributes.2.1]
  exact Synced.ite (fun _ => h.attrOff VT_REVERSE) fun _ => h.attrOn six_reverse

theorem Synced.reverse_off (h : Synced s t) : Synced (vt_reverse_off s) (vt_reverse_off t) := by
  unfold vt_reverse_off
  rw [h.attributes.2.1]
  exact Synced.ite (fun _ => h.attrOn six_reverse) fun _ => h.attrOff VT_REVERSE

theorem color_ready (hc : s.Colors ≠ 0) (hlt : col.toNat < s.Colors) :
    s.ColorReady cur col reverse := by
  apply Or.inr
  rw [if_pos hc]
  exact Or.inl hlt

theorem Synced.mode (h : Synced s t) {bgmode attr : Byte} (h6 : Six attr) (hr : s.outbuf = [] ∨ s.bgmode = bgmode) :
    Synced (vt_setattr { s with bgmode } attr) (vt_setattr { t with bgmode } attr) := by
  obtain hnil | rfl := hr
  · exact (vt_setattr_blur (bgmode_blur (h.of_empty hnil) bgmode) h6 rfl).synced
  · have hs := h.setattr h6 rfl
    obtain ⟨_, _, _, _, rfl⟩ := h.same
    exact hs

theorem set_color (hc : s.Colors ≠ 0) (hlt : (col - 0x30).toNat < s.Colors) :
    (vt_set_bgcol s col).Colors = s.Colors ∧ (vt_set_fgcol s col).outbuf = [] := by
  have hempty : (s.useColor (col - 0x30)).outbuf = [] := by
    unfold Vt.useColor
    dsimp only
    rw [if_pos hlt]
    exact vt_flush_empty s
  unfold vt_set_bgcol vt_set_fgcol
  dsimp only
  rw [if_pos hc, if_pos hc]
  exact ⟨(useColor_same s _).1, hempty⟩

theorem Synced.colors_mode (h : Synced s t) (hc : s.Colors ≠ 0) {fg bg : Byte}
    (hf : (fg - 0x30).toNat < s.Colors) (hb : (bg - 0x30).toNat < s.Colors) :
    Synced (vt_setattr { vt_set_fgcol (vt_set_bgcol s bg) fg with bgmode := VT_CLEAR } VT_NORMAL)
      (vt_setattr { vt_set_fgcol (vt_set_bgcol t bg) fg with bgmode := VT_CLEAR } VT_NORMAL) := by
  have hcolors := (set_color hc hb).1
  have hc' : (vt_set_bgcol s bg).Colors ≠ 0 := by
    rw [hcolors]
    exact hc
  have hf' : (fg - 0x30).toNat < (vt_set_bgcol s bg).Colors := by
    rw [hcolors]
    exact hf
  have h1 := h.set_bgcol (color_ready hc hb)
  have h2 := h1.set_fgcol (color_ready hc' hf')
  exact h2.mode (by unfold Six; decide) (Or.inl (set_color hc' hf').2)

theorem Synced.normal (h : Synced s t) (hr : s.NormalReady) : Synced (vt_normal s) (vt_normal t) := by
  obtain ⟨-, -, -, hcolors, hrev⟩ := h.attributes
  have hm : MAX_COLORS = 8 := rfl
  have hmax := h.whole.colors
  rw [hcolors] at hmax
  have hmode (hc0 : ¬ s.Colors ≠ 0) : s.outbuf = [] ∨ s.bgmode = if s.reversed then VT_DRAW else VT_CLEAR := by
    obtain hnil | hne | he := hr
    · exact Or.inl hnil
    · exact absurd hne hc0
    · exact Or.inr he
  unfold vt_normal
  dsimp only
  apply Synced.cursor_on
  by_cases hne : s.Colors ≠ 0
  · have hlast : (BitVec.ofNat 8 (s.Colors - 1) + 0x30 - 0x30).toNat < s.Colors := by
      rw [BitVec.add_sub_cancel, BitVec.toNat_ofNat]
      omega
    have hzero : (0x30 - 0x30 : Byte).toNat < s.Colors := by
      change 0 < s.Colors
      omega
    have hne' : t.Colors ≠ 0 := by
      rw [hcolors]
      exact hne
    rw [if_pos hne, if_pos hne', hcolors]
    by_cases hv : s.reversed = true
    · have hv' : t.reversed = true := hrev.trans hv
      rw [if_pos hv, if_pos hv']
      exact h.colors_mode hne hlast hzero
    · have hv' : ¬ t.reversed = true := by
        rw [hrev]
        exact hv
      rw [if_neg hv, if_neg hv']
      exact h.colors_mode hne hzero hlast
  · have hr' := hmode hne
    have hne' : ¬ t.Colors ≠ 0 := by
      rw [hcolors]
      exact hne
    rw [if_neg hne, if_neg hne']
    by_cases hv : s.reversed = true
    · have hv' : t.reversed = true := hrev.trans hv
      rw [if_pos hv] at hr'
      rw [if_pos hv, if_pos hv']
      exact h.mode six_reverse hr'
    · have hv' : ¬ t.reversed = true := by
        rw [hrev]
        exact hv
      rw [if_neg hv] at hr'
      rw [if_neg hv, if_neg hv']
      exact h.mode (by unfold Six; decide) hr'

theorem mouseMode_synced (n : Nat) (h : Synced s t) (value : BitVec 16) :
    Synced (mouseMode n s value).1 (mouseMode n t value).1 ∧ (mouseMode n t value).2 = (mouseMode n s value).2 := by
  induction n generalizing s t value with
  | zero => exact ⟨h, rfl⟩
  | succ n ih =>
    have hp : (t.touch MAX_PARAMETERS n).parameter = (s.touch MAX_PARAMETERS n).parameter := by
      obtain ⟨_, _, _, _, rfl⟩ := h.same
      rfl
    unfold mouseMode
    dsimp only
    rw [hp]
    exact ih (h.touch MAX_PARAMETERS n) _

theorem clearParameters_synced (n : Nat) (h : Synced s t) : Synced (clearParameters n s) (clearParameters n t) := by
  induction n generalizing s t with
  | zero => exact h
  | succ n ih =>
    unfold clearParameters
    apply ih
    have hf := h.touch MAX_PARAMETERS n
    have hp := hf.fields s.curon s.autowrap s.savx s.savy s.params (Function.update s.parameter n 0) s.xtermemu s.outfn
    obtain ⟨_, _, _, _, rfl⟩ := h.same
    exact hp

theorem setParameter_synced (h : Synced s t) {i : Nat} (hr : s.ParameterReady i) :
    Synced (setParameter s i) (setParameter t i) := by
  have ht := h.touch MAX_PARAMETERS i
  have hp : (t.touch MAX_PARAMETERS i).parameter = s.parameter := by
    obtain ⟨_, _, _, _, rfl⟩ := h.same
    rfl
  unfold Vt.ParameterReady at hr
  unfold setParameter
  dsimp only at hr ⊢
  rw [hp, show (s.touch MAX_PARAMETERS i).parameter = s.parameter from rfl]
  split_ifs at hr ⊢
  · exact ht.set_fgcol hr
  · exact ht.set_bgcol hr
  · exact ht.normal hr
  · exact ht

theorem setParameters_synced {l : List Nat} (h : Synced s t)
    (hr : AllSafe (fun s (i : Nat) => setParameter s i) Vt.ParameterReady s l) :
    Synced (l.foldl (fun s i => setParameter s i) s) (l.foldl (fun s i => setParameter s i) t) := by
  induction l generalizing s t with
  | nil => exact h
  | cons i l ih => exact ih (setParameter_synced h hr.1) hr.2

variable {c : Byte}

theorem final_synced (h : Synced s t) (hr : c = 0x6d → s.ParametersReady) (n : Nat)
    (hn : n = (s.params + 1).toNat) : Synced
    (if c = 0x68 ∨ c = 0x6c then
      { (mouseMode n s 0).1 with
        xtermemu := if c = 0x6c then (mouseMode n s 0).1.xtermemu &&& ~~~(mouseMode n s 0).2
          else (mouseMode n s 0).1.xtermemu ||| (mouseMode n s 0).2 }
     else if c = 0x6d then (List.range n).foldl (fun s i => setParameter s i) s
     else s)
    (if c = 0x68 ∨ c = 0x6c then
      { (mouseMode n t 0).1 with
        xtermemu := if c = 0x6c then (mouseMode n t 0).1.xtermemu &&& ~~~(mouseMode n t 0).2
          else (mouseMode n t 0).1.xtermemu ||| (mouseMode n t 0).2 }
     else if c = 0x6d then (List.range n).foldl (fun s i => setParameter s i) t
     else t) := by
  apply Synced.ite
  · intro _
    obtain ⟨h1, h2⟩ := mouseMode_synced n h 0
    rw [h2]
    generalize mouseMode n s 0 = r at h1 ⊢
    generalize (mouseMode n t 0).1 = u at h1 ⊢
    have hf := h1.fields r.1.curon r.1.autowrap r.1.savx r.1.savy r.1.params r.1.parameter
      (if c = 0x6c then r.1.xtermemu &&& ~~~r.2 else r.1.xtermemu ||| r.2) r.1.outfn
    obtain ⟨_, _, _, _, rfl⟩ := h1.same
    exact hf
  · intro _
    apply Synced.ite
    · intro hm
      have hp := hr hm
      unfold Vt.ParametersReady at hp
      rw [← hn] at hp
      exact setParameters_synced h hp
    · intro _
      exact h

theorem putc_xparam_synced (h : Synced s t) (hr : c = 0x6d → s.ParametersReady) :
    Synced (putc_xparam s c) (putc_xparam t c) := by
  obtain ⟨touched, curvis, outx, outy, ht⟩ := h.same
  have hsame : t.params = s.params := by rw [ht]
  unfold putc_xparam
  dsimp only
  rw [hsame]
  apply Synced.ite
  · intro _
    have hp := h.fields s.curon s.autowrap s.savx s.savy (s.params + 1) s.parameter s.xtermemu s.outfn
    subst ht
    exact hp
  · intro _
    apply Synced.ite
    · intro _
      have hp := (h.touch MAX_PARAMETERS s.params).fields s.curon s.autowrap s.savx s.savy s.params
        (Function.update s.parameter s.params (short (short (s.parameter s.params * 10) + (c.toNat - 0x30))))
        s.xtermemu s.outfn
      subst ht
      exact hp
    · intro _
      have hf := clearParameters_synced (s.params + 1).toNat (final_synced h hr _ rfl)
      generalize clearParameters _ _ = u at hf ⊢
      generalize clearParameters _ _ = v at hf ⊢
      have hp := hf.fields u.curon u.autowrap u.savx u.savy 0 u.parameter u.xtermemu .putc_normal
      obtain ⟨_, _, _, _, rfl⟩ := hf.same
      exact hp

theorem putc_xterm_synced (h : Synced s t) (hr : c = 0x6d → s.ParametersReady) :
    Synced (putc_xterm s c) (putc_xterm t c) := by
  unfold putc_xterm
  apply Synced.ite
  · intro _
    have hp := (h.touch MAX_PARAMETERS s.params).fields s.curon s.autowrap s.savx s.savy s.params
      (Function.update s.parameter s.params (c.toNat - 0x30)) s.xtermemu .putc_xparam
    obtain ⟨_, _, _, _, rfl⟩ := h.same
    exact hp
  · intro _
    apply Synced.ite
    · intro _
      exact h.next .putc_xparam
    · intro _
      exact putc_xparam_synced h hr

theorem attribute_synced (h : Synced s t) (hr : c = 0x47 → s.NormalReady) : Synced
    (if c = 0x70 then vt_reverse_on s else if c = 0x71 then vt_reverse_off s else if c = 0x76 then vt_autowrap_on s
     else if c = 0x77 then vt_autowrap_off s else if c = 0x47 then vt_normal s else if c = 0x67 then vt_bold_on s
     else if c = 0x68 then vt_bold_off s else if c = 0x69 then vt_underline_on s
     else if c = 0x6d then vt_underline_off s else if c = 0x6e then vt_italic_on s else if c = 0x72 then vt_italic_off s
     else if c = 0x73 then vt_dim_on s else if c = 0x74 then vt_dim_off s else s) (if c = 0x70 then vt_reverse_on t
     else if c = 0x71 then vt_reverse_off t else if c = 0x76 then vt_autowrap_on t
     else if c = 0x77 then vt_autowrap_off t else if c = 0x47 then vt_normal t else if c = 0x67 then vt_bold_on t
     else if c = 0x68 then vt_bold_off t else if c = 0x69 then vt_underline_on t
     else if c = 0x6d then vt_underline_off t else if c = 0x6e then vt_italic_on t else if c = 0x72 then vt_italic_off t
     else if c = 0x73 then vt_dim_on t else if c = 0x74 then vt_dim_off t else t) := by
  have hsix : Six VT_BOLD ∧ Six VT_UNDERLINE ∧ Six VT_ITALIC ∧ Six VT_LIGHT := by
    unfold Six
    decide
  obtain ⟨hb, hu, hi, hl⟩ := hsix
  apply Synced.ite (fun _ => h.reverse_on)
  intro _
  apply Synced.ite (fun _ => h.reverse_off)
  intro _
  apply Synced.ite (fun _ => h.autowrap true)
  intro _
  apply Synced.ite (fun _ => h.autowrap false)
  intro _
  apply Synced.ite (fun hc => h.normal (hr hc))
  intro _
  apply Synced.ite (fun _ => h.attrOn hb)
  intro _
  apply Synced.ite (fun _ => h.attrOff VT_BOLD)
  intro _
  apply Synced.ite (fun _ => h.attrOn hu)
  intro _
  apply Synced.ite (fun _ => h.attrOff VT_UNDERLINE)
  intro _
  apply Synced.ite (fun _ => h.attrOn hi)
  intro _
  apply Synced.ite (fun _ => h.attrOff VT_ITALIC)
  intro _
  apply Synced.ite (fun _ => h.attrOn hl)
  intro _
  exact Synced.ite (fun _ => h.attrOff VT_LIGHT) fun _ => h

theorem draw_flush (s : Vt) : vt_clear_screen (vt_flush s) = vt_clear_screen s ∧
    vt_clear_eop (vt_flush s) = vt_clear_eop s ∧ vt_clear_sop (vt_flush s) = vt_clear_sop s ∧
    vt_clear_eol (vt_flush s) = vt_clear_eol s ∧ vt_clear_sol (vt_flush s) = vt_clear_sol s ∧
    vt_insert_line (vt_flush s) = vt_insert_line s ∧ vt_delete_line (vt_flush s) = vt_delete_line s ∧
    vt_rev_index (vt_flush s) = vt_rev_index s := by
  unfold vt_clear_screen vt_clear_eop vt_clear_sop vt_clear_eol vt_clear_sol vt_insert_line vt_delete_line
    vt_rev_index
  rw [vt_flush_flush]
  exact ⟨rfl, rfl, rfl, rfl, rfl, rfl, rfl, rfl⟩

theorem putc_esc_synced (h : Synced s t) (hr : c = 0x47 → s.NormalReady) :
    Synced (putc_esc s c) (putc_esc t c) := by
  have hn := h.next .putc_normal
  obtain ⟨e1, e2, e3, e4⟩ := hn.size
  obtain ⟨f1, f2, f3, f4, f5, f6, f7, f8⟩ := draw_flush { s with outfn := .putc_normal }
  unfold putc_esc
  dsimp only
  apply Synced.ite (fun _ => h.next _)
  intro _
  apply Synced.ite (fun _ => hn.column (by rw [e4]))
  intro _
  apply Synced.ite (fun _ => hn.column (by rw [e2, e4]))
  intro _
  apply Synced.ite (fun _ => hn.row (by rw [e1, e3]))
  intro _
  apply Synced.ite (fun _ => hn.row (by rw [e3]))
  intro _
  apply Synced.ite (fun _ => (hn.of_flush f1 vt_clear_screen_blur).move rfl rfl)
  intro _
  apply Synced.ite (fun _ => hn.move rfl rfl)
  intro _
  apply Synced.ite (fun _ => hn.of_flush f8 vt_rev_index_blur)
  intro _
  apply Synced.ite (fun _ => hn.of_flush f2 vt_clear_eop_blur)
  intro _
  apply Synced.ite (fun _ => hn.of_flush f4 vt_clear_eol_blur)
  intro _
  apply Synced.ite (fun _ => hn.of_flush f6 vt_insert_line_blur)
  intro _
  apply Synced.ite (fun _ => hn.of_flush f7 vt_delete_line_blur)
  intro _
  apply Synced.ite (fun _ => h.next _)
  intro _
  apply Synced.ite (fun _ => h.next _)
  intro _
  apply Synced.ite (fun _ => h.next _)
  intro _
  apply Synced.ite (fun _ => hn.of_flush f3 vt_clear_sop_blur)
  intro _
  apply Synced.ite (fun _ => hn.cursor_on true)
  intro _
  apply Synced.ite (fun _ => hn.cursor_on false)
  intro _
  apply Synced.ite (fun _ => hn.save)
  intro _
  apply Synced.ite
  · intro _
    have hsav : t.savx = s.savx ∧ t.savy = s.savy := by
      obtain ⟨_, _, _, _, rfl⟩ := h.same
      exact ⟨rfl, rfl⟩
    exact hn.move hsav.1 hsav.2
  intro _
  apply Synced.ite (fun _ => hn.of_flush f5 vt_clear_sol_blur)
  intro _
  exact attribute_synced hn hr

end WWindowSystem
