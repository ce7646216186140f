import WWindowSystem.Wt.VtPutcSynced
import WWindowSystem.Wt.VtRedraw

namespace WWindowSystem

variable {s t : Vt}

theorem append_eq (s : Vt) (c : Byte) :
    ∃ outx outy, s.append c = { s with outx, outy, outbuf := s.outbuf ++ [c], curx := s.curx + 1 } := by
  unfold Vt.append
  dsimp only
  split_ifs
  · exact ⟨_, _, rfl⟩
  · exact ⟨_, _, rfl⟩

theorem screen_pos_add (s : Vt) (x y d : Int) : vt_screen_pos s x y + d = vt_screen_pos s (x + d) y := by
  unfold vt_screen_pos
  dsimp only
  omega

theorem append_flushed (hp : s.outbuf ≠ [] → s.outx + s.outbuf.length = s.curx ∧ s.outy = s.cury) (c : Byte) :
    (s.append c).flushed = Function.update s.flushed (vt_screen_pos s s.curx s.cury) (s.stored c) := by
  unfold Vt.append
  dsimp only
  split_ifs with hnil
  · rw [flushed_of_empty hnil]
    unfold Vt.flushed
    dsimp only
    rw [hnil]
    rfl
  · obtain ⟨h1, h2⟩ := hp hnil
    have hpos : vt_screen_pos s s.outx s.outy + s.outbuf.length = vt_screen_pos s s.curx s.cury := by
      rw [screen_pos_add, h1, h2]
    have hc := typed_concat s.stored s.screen (vt_screen_pos s s.outx s.outy) s.outbuf c
    rw [hpos] at hc
    exact hc

theorem append_synced (h : Synced s t) {c : Byte} (hc : c ≠ 0) : Synced (s.append c) (vt_flush (t.append c)) := by
  have hs := append_flushed h.pending c
  have ht := append_flushed (s := t) (fun hne => absurd h.empty hne) c
  have hcell : Function.update t.flushed (vt_screen_pos t t.curx t.cury) (t.stored c) =
      Function.update s.flushed (vt_screen_pos s s.curx s.cury) (s.stored c) := by
    rw [flushed_of_empty h.empty]
    obtain ⟨_, _, _, _, rfl⟩ := h.same
    rfl
  have hlen : s.outbuf ++ [c] ≠ [] → (s.append c).outx + (s.outbuf ++ [c]).length = s.curx + 1 ∧
      (s.append c).outy = s.cury := by
    intro _
    rw [List.length_append, List.length_singleton]
    unfold Vt.append
    dsimp only
    split_ifs with hnil
    · rw [hnil, List.length_nil]
      exact ⟨rfl, rfl⟩
    · obtain ⟨h1, h2⟩ := h.pending hnil
      exact ⟨by omega, h2⟩
  obtain ⟨outx, outy, es⟩ := append_eq s c
  obtain ⟨outx', outy', et⟩ := append_eq t c
  have hzero : 0 ∉ (t.append c).outbuf := by
    rw [et]
    dsimp only
    rw [h.empty, List.nil_append, List.mem_singleton]
    exact hc.symm
  obtain ⟨touched, ef⟩ := vt_flush_eq hzero
  rw [ef, ht, hcell, ← hs]
  rw [es] at hlen hs ⊢
  rw [et]
  refine ⟨?_, hlen, h.bottom, ⟨h.whole.realized, h.whole.colors, h.whole.hist, h.whole.room, h.whole.offs,
    h.whole.six, h.whole.masked, fun h0 => ⟨(h.whole.plain h0).1, (h.whole.plain h0).2.1, fun p => ?_⟩⟩, ?_⟩
  · dsimp only
    rw [List.mem_append, List.mem_singleton, not_or]
    exact ⟨h.nonzero, hc.symm⟩
  · dsimp only
    rw [hs, ← hcell, flushed_of_empty h.empty, Function.update_apply]
    split_ifs
    · exact h.whole.stored_bg c h0
    · exact (h.whole.plain h0).2.2 p
  · obtain ⟨_, _, _, _, rfl⟩ := h.same
    exact ⟨_, _, _, _, rfl⟩

theorem addchar_synced (h : Synced s t) {c : Byte} (hc : c ≠ 0) :
    Synced { vt_addchar s c with curx := (vt_addchar s c).curx + 1 }
      (vt_flush { vt_addchar t c with curx := (vt_addchar t c).curx + 1 }) := by
  have hshort : ¬ t.outbuf.length ≥ VT_BUFSIZE := by
    rw [h.empty]
    decide
  rw [vt_addchar_append, vt_addchar_append, if_neg hshort]
  split_ifs
  · exact append_synced h.blur.synced hc
  · exact append_synced h hc

def Vt.wrapped (s : Vt) : Vt :=
  if ¬ s.autowrap then { s with curx := s.wd - 1 } else { s with curx := 0 }.nextRow

theorem wrapped_blur (h : Blur s t) : Blur s.wrapped t.wrapped := by
  have ha : t.autowrap = s.autowrap := by
    obtain ⟨_, _, _, _, rfl⟩ := h.same
    rfl
  have hwrap := nextRow_blur (row_blur h (x := 0) rfl)
  have hwd : t.wd - 1 = s.wd - 1 := by rw [h.size.1]
  have hlast := row_blur h hwd
  unfold Vt.wrapped
  by_cases hw : ¬ s.autowrap = true
  · have hw' : ¬ t.autowrap = true := by
      rw [ha]
      exact hw
    rw [if_pos hw, if_pos hw']
    exact hlast
  · have hw' : ¬ ¬ t.autowrap = true := by
      rw [ha]
      exact hw
    rw [if_neg hw, if_neg hw']
    exact hwrap

theorem vt_print_synced (h : Synced s t) {c : Byte} (hc : c ≠ 0) : Synced (vt_print s c) (vt_flush (vt_print t c)) := by
  have ha := addchar_synced h hc
  have hp (u : Vt) : vt_print u c =
      if (vt_addchar u c).curx + 1 ≥ (vt_addchar u c).wd then
        (vt_flush { vt_addchar u c with curx := (vt_addchar u c).curx + 1 }).wrapped
      else { vt_addchar u c with curx := (vt_addchar u c).curx + 1 } := rfl
  have hsize : (vt_addchar t c).wd = (vt_addchar s c).wd ∧
      (vt_addchar t c).curx + 1 = (vt_addchar s c).curx + 1 := by
    obtain ⟨_, _, _, he⟩ := vt_flush_same { vt_addchar t c with curx := (vt_addchar t c).curx + 1 }
    obtain ⟨h1, -, h2, -⟩ := ha.size
    rw [he] at h1 h2
    exact ⟨h1, h2⟩
  rw [hp s, hp t]
  by_cases hw : (vt_addchar s c).curx + 1 ≥ (vt_addchar s c).wd
  · have hb := wrapped_blur ha.blur
    rw [if_pos hw, if_pos (by rw [hsize.1, hsize.2]; exact hw), hb.flush.2]
    exact hb.synced
  · rw [if_neg hw, if_neg (by rw [hsize.1, hsize.2]; exact hw)]
    exact ha

theorem vt_lf_synced (h : Synced s t) : Synced (vt_lf s) (vt_lf t) := by
  unfold vt_lf
  rw [h.flush]
  exact (nextRow_blur h.blur).synced

theorem putc_normal_synced (h : Synced s t) (c : Byte) : Synced (putc_normal s c) (vt_flush (putc_normal t c)) := by
  have hflush {u v : Vt} (hu : Synced u v) : Synced u (vt_flush v) := by
    rw [hu.flush]
    exact hu
  obtain ⟨e1, e2, e3, e4⟩ := h.size
  unfold putc_normal
  rw [apply_ite vt_flush]
  apply Synced.ite (fun _ => hflush h)
  intro h0
  rw [apply_ite vt_flush]
  apply Synced.ite (fun _ => hflush (h.row (by rw [e3])))
  intro _
  rw [apply_ite vt_flush]
  apply Synced.ite (fun _ => hflush (h.row (by rw [e1, e3])))
  intro _
  rw [apply_ite vt_flush]
  apply Synced.ite (fun _ => hflush ((vt_lf_synced h).row rfl))
  intro _
  rw [apply_ite vt_flush]
  apply Synced.ite (fun _ => hflush (h.row rfl))
  intro _
  rw [apply_ite vt_flush]
  apply Synced.ite (fun _ => hflush (h.next _))
  intro _
  rw [apply_ite vt_flush]
  apply Synced.ite (fun _ => hflush h)
  intro _
  exact vt_print_synced h fun hc => h0 (Or.inl hc)

theorem putc_synced (h : Synced s t) {c : Byte} (hr : s.Ready c) : Synced (s.putc c) (vt_flush (t.putc c)) := by
  have hflush {u v : Vt} (hu : Synced u v) : Synced u (vt_flush v) := by
    rw [hu.flush]
    exact hu
  have hout : t.outfn = s.outfn := by
    obtain ⟨_, _, _, _, rfl⟩ := h.same
    rfl
  unfold Vt.putc
  rw [hout]
  unfold Vt.Ready at hr
  generalize s.outfn = f at hr ⊢
  cases f with
  | putc_normal => exact putc_normal_synced h c
  | putc_esc => exact hflush (putc_esc_synced h hr)
  | putc_esc_y1 => exact hflush ((h.next .putc_esc_y2).column (by rw [(h.next .putc_esc_y2).size.2.1]))
  | putc_esc_y2 => exact hflush ((h.next .putc_normal).row (by rw [(h.next .putc_normal).size.1]))
  | putc_esc_c => exact hflush ((h.next .putc_normal).set_bgcol hr)
  | putc_esc_b => exact hflush ((h.next .putc_normal).set_fgcol hr)
  | putc_xterm => exact hflush (putc_xterm_synced h hr)
  | putc_xparam => exact hflush (putc_xparam_synced h hr)

end WWindowSystem

namespace WWindowSystem

inductive ViewCall where
  | output (cp : List Byte)
  | vmove (offs : Int)
  deriving DecidableEq

def viewCall (s : Vt) : ViewCall → Vt
  | .output cp => vt_output s cp
  | .vmove offs => vt_vmove s offs

def ViewCall.bytes : ViewCall → List Byte
  | .output cp => cp
  | .vmove _ => []

def Vt.position (s : Vt) : Int :=
  if s.offs - s.curoffs < 0 then s.offs - s.curoffs + s.screenht else s.offs - s.curoffs

def Vt.Restores (s : Vt) (offs : Int) : Prop :=
  s.Colors ≠ 0 ∨ s.bgmode = VT_DRAW ∨ s.clamped offs = s.position

def ViewCall.Exact (s : Vt) : ViewCall → Prop
  | .output cp => s.Restores 0 ∧ AllSafe Vt.putc Vt.Ready (vt_cursor_hide (vt_vmove s 0)) cp
  | .vmove offs => s.Restores offs

instance (s : Vt) (offs : Int) : Decidable (s.Restores offs) := inferInstanceAs (Decidable (_ ∨ _ ∨ _))

instance ViewCall.Exact.decidable (s : Vt) (e : ViewCall) : Decidable (e.Exact s) :=
  match e with
  | .output _ => inferInstanceAs (Decidable (_ ∧ AllSafe _ _ _ _))
  | .vmove _ => inferInstanceAs (Decidable (Vt.Restores _ _))

def SameVt (s t : Vt) : Prop := ∃ touched curvis curoffs outx outy,
  t = { s with touched, curvis, curoffs, outx, outy }

structure Tracks (s t : Vt) : Prop where
  empty : s.outbuf = []
  view : 0 ≤ s.curoffs ∧ s.curoffs < s.screenht
  whole : s.Whole
  agree : SameVt s t
  bottom : t.curoffs = t.offs

variable {s t u : Vt}

structure Tinted (s t : Vt) : Prop where
  same : ∃ touched curattr curbg curfg bgmode, t = { s with touched, curattr, curbg, curfg, bgmode }
  color : s.Colors ≠ 0 → t.bgmode = s.bgmode
  mono : s.Colors = 0 → t.curfg = s.curfg ∧ t.curbg = s.curbg

theorem Tinted.trans (h : Tinted s t) (h' : Tinted t u) : Tinted s u := by
  obtain ⟨⟨_, _, _, _, _, rfl⟩, h1, h2⟩ := h
  obtain ⟨⟨_, _, _, _, _, rfl⟩, h3, h4⟩ := h'
  refine ⟨⟨_, _, _, _, _, rfl⟩, fun hc => (h3 hc).trans (h1 hc), fun hc => ?_⟩
  exact ⟨(h4 hc).1.trans (h2 hc).1, (h4 hc).2.trans (h2 hc).2⟩

theorem touch_tinted (s : Vt) (size index : Int) : Tinted s (s.touch size index) :=
  ⟨⟨_, _, _, _, _, rfl⟩, fun _ => rfl, fun _ => ⟨rfl, rfl⟩⟩

theorem change_bgmode_eq (h : s.outbuf = []) (hr : s.is_realized = true) (reverse : Bool) :
    vt_change_bgmode s reverse = { s with
      bgmode := if reverse then VT_DRAW else VT_CLEAR
      curattr := if s.bgmode ≠ (if reverse then VT_DRAW else VT_CLEAR) then
        (s.curattr ^^^ VT_REVERSE) &&& (s.font_mask ||| s.style_mask) else s.curattr } := by
  unfold vt_change_bgmode
  generalize (if reverse = true then VT_DRAW else VT_CLEAR) = mode
  dsimp only
  by_cases hm : s.bgmode ≠ mode
  · rw [if_pos hm, if_pos hm, if_pos hr, vt_setattr_nil (by exact h)]
  · rw [if_neg hm, if_neg hm, ← not_not.mp hm]

theorem RESTORE_ATTRIBUTES_color (h : s.outbuf = []) (hc : s.Colors ≠ 0) (v : vtchar_t) :
    ∃ touched, RESTORE_ATTRIBUTES s v = { s with
      curattr := v.attr.setWidth 8 &&& (s.font_mask ||| s.style_mask), curfg := v.fg, curbg := v.bg, touched } := by
  have hw (c : BitVec 4) : (c.setWidth 8).setWidth 4 = c := by
    apply BitVec.eq_of_getLsbD_eq
    intro i hi
    rw [BitVec.getLsbD_setWidth, BitVec.getLsbD_setWidth]
    simp [hi, show i < 8 by omega]
  unfold RESTORE_ATTRIBUTES
  dsimp only
  rw [vt_setattr_nil h, vt_set_fgcol_nil (by exact h) (by exact hc), vt_set_bgcol_nil (by exact h) (by exact hc), hw, hw]
  exact ⟨_, rfl⟩

theorem set_color_mono (hc : s.Colors = 0) (col : Byte) : vt_set_fgcol s (col + 0x30) = vt_change_bgmode s (col ≠ 0) ∧
      vt_set_bgcol s (col + 0x30) = vt_change_bgmode s (col = 0) := by
  unfold vt_set_fgcol vt_set_bgcol
  dsimp only
  rw [digit_sub, if_neg (not_not.mpr hc), if_neg (not_not.mpr hc)]
  exact ⟨rfl, rfl⟩

theorem RESTORE_ATTRIBUTES_mono (h : s.outbuf = []) (hr : s.is_realized = true) (hc : s.Colors = 0) (v : vtchar_t) :
    RESTORE_ATTRIBUTES s v =
      vt_change_bgmode (vt_change_bgmode
        { s with curattr := v.attr.setWidth 8 &&& (s.font_mask ||| s.style_mask) } (v.fg.setWidth 8 ≠ (0 : Byte)))
        (v.bg.setWidth 8 = (0 : Byte)) := by
  unfold RESTORE_ATTRIBUTES
  dsimp only
  rw [vt_setattr_nil h, (set_color_mono (by exact hc) _).1]
  refine (set_color_mono ?_ _).2
  rw [change_bgmode_eq (by exact h) (by exact hr)]
  exact hc

theorem RESTORE_ATTRIBUTES_tinted (h : s.outbuf = []) (hr : s.is_realized = true) (v : vtchar_t) :
    Tinted s (RESTORE_ATTRIBUTES s v) ∧ (s.Colors = 0 → v.bg = 0 → (RESTORE_ATTRIBUTES s v).bgmode = VT_DRAW) := by
  by_cases hc : s.Colors = 0
  · have he := change_bgmode_eq (s := { s with curattr := v.attr.setWidth 8 &&& (s.font_mask ||| s.style_mask) })
      h hr (v.fg.setWidth 8 ≠ (0 : Byte))
    rw [RESTORE_ATTRIBUTES_mono h hr hc, he, change_bgmode_eq (by exact h) (by exact hr)]
    refine ⟨⟨⟨_, _, _, _, _, rfl⟩, fun hne => absurd hc hne, fun _ => ⟨rfl, rfl⟩⟩, fun _ hb => ?_⟩
    dsimp only
    rw [hb]
    rfl
  · obtain ⟨touched, he⟩ := RESTORE_ATTRIBUTES_color h hc v
    rw [he]
    exact ⟨⟨⟨_, _, _, _, _, rfl⟩, fun _ => rfl, fun h0 => absurd h0 hc⟩, fun h0 => absurd h0 hc⟩

structure Refreshed (s t : Vt) : Prop extends Tinted s t where
  drawn : s.Colors = 0 → s.bgmode = VT_DRAW → t.bgmode = VT_DRAW

theorem Refreshed.trans (h : Refreshed s t) (h' : Refreshed t u) : Refreshed s u := by
  refine ⟨h.toTinted.trans h'.toTinted, fun hc hb => ?_⟩
  obtain ⟨_, _, _, _, _, rfl⟩ := h.same
  exact h'.drawn hc (h.drawn hc hb)

theorem Tinted.fields (h : Tinted s t) : t.outbuf = s.outbuf ∧ t.is_realized = s.is_realized ∧
    t.screen = s.screen ∧ t.Colors = s.Colors := by
  obtain ⟨⟨_, _, _, _, _, rfl⟩, -, -⟩ := h
  exact ⟨rfl, rfl, rfl, rfl⟩

theorem redrawCells_redrawn (n : Nat) (h : s.outbuf = []) (hr : s.is_realized = true)
    (hbg : s.Colors = 0 → ∀ p, (s.screen p).bg = 0) (new : vtchar_t) (len : Nat) (vcp : Int) :
    Refreshed s (redrawCells n s new len vcp).1 := by
  induction n generalizing s new len vcp with
  | zero => exact ⟨⟨⟨_, _, _, _, _, rfl⟩, fun _ => rfl, fun _ => ⟨rfl, rfl⟩⟩, fun _ hb => hb⟩
  | succ n ih =>
    have ht : Refreshed s (s.touch s.screen_size vcp) := ⟨touch_tinted s _ _, fun _ hb => hb⟩
    unfold redrawCells
    dsimp only
    split_ifs
    · obtain ⟨h1, h2⟩ := RESTORE_ATTRIBUTES_tinted (s := s.touch s.screen_size vcp) h hr (s.screen vcp)
      obtain ⟨e1, e2, e3, e4⟩ := h1.fields
      have hrest : Refreshed (s.touch s.screen_size vcp) (RESTORE_ATTRIBUTES (s.touch s.screen_size vcp) (s.screen vcp)) :=
        ⟨h1, fun hc _ => h2 hc (hbg hc vcp)⟩
      refine ht.trans (hrest.trans (ih (e1.trans h) (e2.trans hr) ?_ _ _ _))
      rw [e3, e4]
      exact hbg
    · exact ht.trans (ih (s := s.touch s.screen_size vcp) h hr hbg _ _ _)

theorem redrawRows_redrawn (n : Nat) (h : s.outbuf = []) (hr : s.is_realized = true)
    (hbg : s.Colors = 0 → ∀ p, (s.screen p).bg = 0) (new : vtchar_t) (vcp : Int) :
    Refreshed s (redrawRows n s new vcp) := by
  induction n generalizing s new vcp with
  | zero => exact ⟨⟨⟨_, _, _, _, _, rfl⟩, fun _ => rfl, fun _ => ⟨rfl, rfl⟩⟩, fun _ hb => hb⟩
  | succ n ih =>
    have hcells := redrawCells_redrawn s.wd.toNat h hr hbg new 0 vcp
    obtain ⟨e1, e2, e3, e4⟩ := hcells.toTinted.fields
    unfold redrawRows
    dsimp only
    refine hcells.trans (ih (e1.trans h) (e2.trans hr) ?_ _ _)
    rw [e3, e4]
    exact hbg

theorem twice_reversed {a m : Byte} (h : a &&& m = a) : (((a ^^^ VT_REVERSE) &&& m) ^^^ VT_REVERSE) &&& m = a := by
  rw [xor_and, BitVec.and_assoc, BitVec.and_self, xor_and, BitVec.xor_assoc, BitVec.xor_self, BitVec.xor_zero, h]

theorem six_attr {a : Byte} (h : Six a) : (a.setWidth 6).setWidth 8 = a := by
  unfold Six at h
  rw [← h]
  apply BitVec.eq_of_getLsbD_eq
  intro i hi
  rw [BitVec.getLsbD_setWidth, BitVec.getLsbD_setWidth]
  interval_cases i <;> simp

theorem change_bgmode_twice (h : s.outbuf = []) (hr : s.is_realized = true) (hb : s.bgmode = VT_DRAW)
    (hm : s.curattr &&& (s.font_mask ||| s.style_mask) = s.curattr) :
    vt_change_bgmode (vt_change_bgmode s false) true = s := by
  have hne : VT_DRAW ≠ VT_CLEAR ∧ VT_CLEAR ≠ VT_DRAW := by decide
  have he := change_bgmode_eq h hr false
  simp only [Bool.false_eq_true, if_false] at he
  rw [if_pos (by rw [hb]; exact hne.1)] at he
  have he' := change_bgmode_eq (s := vt_change_bgmode s false) (by rw [he]; exact h) (by rw [he]; exact hr) true
  rw [he', he]
  dsimp only
  rw [if_pos rfl, if_pos hne.2, twice_reversed hm, ← hb]

theorem RESTORE_ATTRIBUTES_saved (hw : s.Whole) (h : s.outbuf = []) (ht : Tinted s t)
    (hb : s.Colors = 0 → t.bgmode = VT_DRAW) : ∃ touched, RESTORE_ATTRIBUTES t (s.stored 0) =
      { s with touched, bgmode := if s.Colors ≠ 0 then s.bgmode else VT_DRAW } := by
  have hmono := ht.mono
  have hcolor := ht.color
  have hattr : ((s.stored 0).attr.setWidth 8 &&& (s.font_mask ||| s.style_mask)) = s.curattr := by
    change (s.curattr.setWidth 6).setWidth 8 &&& _ = _
    rw [six_attr hw.six, hw.masked]
  obtain ⟨touched, curattr, curbg, curfg, bgmode, rfl⟩ := ht.same
  by_cases hc : s.Colors = 0
  · obtain ⟨hf, hbg, -⟩ := hw.plain hc
    obtain ⟨e1, e2⟩ := hmono hc
    dsimp only at e1 e2
    have e3 := hb hc
    dsimp only at e3
    subst e1 e2 e3
    refine ⟨touched, ?_⟩
    rw [RESTORE_ATTRIBUTES_mono (by exact h) (by exact hw.realized) (by exact hc)]
    change vt_change_bgmode (vt_change_bgmode _ (s.curfg.setWidth 8 ≠ (0 : Byte))) (s.curbg.setWidth 8 = (0 : Byte)) = _
    rw [if_neg (not_not.mpr hc)]
    dsimp only
    rw [hattr, hf, hbg]
    exact change_bgmode_twice h hw.realized rfl hw.masked
  · obtain ⟨touched', he⟩ := RESTORE_ATTRIBUTES_color (s := { s with touched, curattr, curbg, curfg, bgmode }) h hc (s.stored 0)
    have e := hcolor hc
    dsimp only at e
    subst e
    refine ⟨touched', ?_⟩
    rw [he, if_pos hc]
    dsimp only
    rw [hattr]
    rfl

theorem vt_redraw_eq (hw : s.Whole) (h : s.outbuf = []) (y ymax : Int) :
    ∃ touched, vt_redraw s y ymax = { s with touched, bgmode := if s.Colors ≠ 0 then s.bgmode else VT_DRAW } := by
  unfold vt_redraw
  dsimp only
  generalize vt_screen_pos s 0 y = vcp
  have ht := touch_tinted s s.screen_size vcp
  obtain ⟨h1, h2⟩ := RESTORE_ATTRIBUTES_tinted (s := s.touch s.screen_size vcp) h hw.realized (s.screen vcp)
  have hplain (hc : s.Colors = 0) := (hw.plain hc).2.2
  obtain ⟨e1, e2, e3, e4⟩ := h1.fields
  have hrows := redrawRows_redrawn (ymax - y).toNat (e1.trans h) (e2.trans hw.realized)
    (by rw [e3, e4]; exact hplain) (s.screen vcp) vcp
  exact RESTORE_ATTRIBUTES_saved hw h (ht.trans (h1.trans hrows.toTinted)) fun hc =>
    hrows.drawn (by rw [e4]; exact hc) (h2 hc (hplain hc vcp))

end WWindowSystem
