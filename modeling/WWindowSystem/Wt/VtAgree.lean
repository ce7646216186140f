import WWindowSystem.Wt.VtCuts
import WWindowSystem.Wt.VtRun

namespace WWindowSystem

variable {s t : Vt}

theorem vt_cursor_show_eq (s : Vt) : ∃ curvis, vt_cursor_show s = { s with curvis } := by
  unfold vt_cursor_show
  split_ifs
  · exact ⟨true, rfl⟩
  · exact ⟨s.curvis, rfl⟩

theorem vt_vmove_eq (hw : s.Whole) (h : s.outbuf = []) (hv : 0 ≤ s.curoffs ∧ s.curoffs < s.screenht) {offs : Int}
    (hr : s.Restores offs) : ∃ touched curvis curoffs, vt_vmove s offs = { s with touched, curvis, curoffs } ∧
      (0 ≤ curoffs ∧ curoffs < s.screenht) ∧ (offs = 0 → curoffs = s.offs) := by
  obtain ⟨h0, h1⟩ := hw.hist
  obtain ⟨h2, h3⟩ := hw.offs
  have hroom := hw.room
  have hk : 0 ≤ s.clamped offs ∧ s.clamped offs ≤ s.curhistsize ∧ (offs = 0 → s.clamped offs = 0) := by
    unfold Vt.clamped
    split_ifs <;> omega
  unfold vt_vmove vt_cursor_hide
  dsimp only
  rw [show (if offs < 0 then 0 else if offs > s.curhistsize then s.curhistsize else offs) = s.clamped offs from rfl,
    show (if s.offs - s.curoffs < 0 then s.offs - s.curoffs + s.screenht else s.offs - s.curoffs) = s.position from rfl]
  unfold Vt.Restores at hr
  generalize s.clamped offs = k at hk hr ⊢
  by_cases hdist : (k - s.position).natAbs = 0
  · rw [if_pos hdist]
    refine ⟨s.touched, s.curvis, s.curoffs, rfl, hv, fun he => ?_⟩
    have hpos : s.position = 0 := by
      have := hk.2.2 he
      omega
    unfold Vt.position at hpos
    split_ifs at hpos <;> omega
  · rw [if_neg hdist]
    have hmode : (if s.Colors ≠ 0 then s.bgmode else VT_DRAW) = s.bgmode := by
      obtain hc | hb | he := hr
      · exact if_pos hc
      · rw [hb, ite_self]
      · exact absurd (by rw [he]; omega) hdist
    generalize (if (k - s.position).natAbs < s.ht then _ else _ : Int × Int) = r
    obtain ⟨y, ymax⟩ := r
    dsimp only
    have hcur : 0 ≤ (if s.offs - k < 0 then s.offs - k + s.screenht else s.offs - k) ∧
        (if s.offs - k < 0 then s.offs - k + s.screenht else s.offs - k) < s.screenht ∧
        (offs = 0 → (if s.offs - k < 0 then s.offs - k + s.screenht else s.offs - k) = s.offs) := by
      split_ifs <;> omega
    generalize (if s.offs - k < 0 then s.offs - k + s.screenht else s.offs - k) = curoffs at hcur ⊢
    obtain ⟨touched, he⟩ := vt_redraw_eq (s := { s with curvis := false, curoffs })
      ⟨hw.realized, hw.colors, hw.hist, hw.room, hw.offs, hw.six, hw.masked, hw.plain⟩ h y ymax
    rw [he]
    obtain ⟨curvis, hs⟩ := vt_cursor_show_eq { s with curvis := false, curoffs, touched, bgmode := if s.Colors ≠ 0 then s.bgmode else VT_DRAW }
    rw [hs, hmode]
    exact ⟨touched, curvis, curoffs, rfl, ⟨hcur.1, hcur.2.1⟩, hcur.2.2⟩

theorem vt_vmove_tracks (h : Tracks s t) {offs : Int} (hr : s.Restores offs) : Tracks (vt_vmove s offs) t := by
  obtain ⟨_, _, curoffs, he, hv, -⟩ := vt_vmove_eq h.whole h.empty h.view hr
  have hw := h.whole
  rw [he]
  refine ⟨h.empty, hv, ⟨hw.realized, hw.colors, hw.hist, hw.room, hw.offs, hw.six, hw.masked, hw.plain⟩, ?_, h.bottom⟩
  obtain ⟨_, _, _, _, _, rfl⟩ := h.agree
  exact ⟨_, _, _, _, _, rfl⟩

theorem started_blur (h : Tracks s t) (hr : s.Restores 0) : Blur (vt_cursor_hide (vt_vmove s 0)) t := by
  obtain ⟨_, _, curoffs, he, -, hb⟩ := vt_vmove_eq h.whole h.empty h.view hr
  have hw := h.whole
  unfold vt_cursor_hide
  rw [he, hb rfl]
  refine ⟨h.empty, rfl, ⟨hw.realized, hw.colors, hw.hist, hw.room, hw.offs, hw.six, hw.masked, hw.plain⟩, ?_⟩
  have hbot := h.bottom
  obtain ⟨touched, curvis, curoffs', outx, outy, rfl⟩ := h.agree
  dsimp only at hbot
  rw [hbot]
  exact ⟨touched, curvis, outx, outy, rfl⟩

def Vt.feed (s : Vt) (c : Byte) : Vt := vt_flush (s.putc c)

theorem putcs_synced {cp : List Byte} (h : Synced s t) (hr : AllSafe Vt.putc Vt.Ready s cp) :
    Synced (cp.foldl Vt.putc s) (cp.foldl Vt.feed t) := by
  induction cp generalizing s t with
  | nil => exact h
  | cons c cp ih => exact ih (putc_synced h hr.1) hr.2

theorem Blur.tracks (h : Blur s t) : Tracks (vt_cursor_show s) t := by
  obtain ⟨curvis, he⟩ := vt_cursor_show_eq s
  have hw := h.whole
  rw [he]
  refine ⟨h.empty, ?_, ⟨hw.realized, hw.colors, hw.hist, hw.room, hw.offs, hw.six, hw.masked, hw.plain⟩, ?_, ?_⟩
  · dsimp only
    rw [h.bottom]
    exact hw.offs
  · obtain ⟨_, _, _, _, rfl⟩ := h.same
    exact ⟨_, _, _, _, _, rfl⟩
  · obtain ⟨_, _, _, _, rfl⟩ := h.same
    exact h.bottom

theorem viewCall_tracks (h : Tracks s t) {e : ViewCall} (he : e.Exact s) :
    Tracks (viewCall s e) (e.bytes.foldl Vt.feed t) := by
  cases e with
  | output cp =>
    have hs := putcs_synced (started_blur h he.1).synced he.2
    exact hs.blur.tracks
  | vmove offs => exact vt_vmove_tracks h he

theorem viewCalls_track {l : List ViewCall} (h : Tracks s t) (hl : AllSafe viewCall ViewCall.Exact s l) :
    Tracks (l.foldl viewCall s) ((l.flatMap ViewCall.bytes).foldl Vt.feed t) := by
  induction l generalizing s t with
  | nil => exact h
  | cons e l ih =>
    rw [List.flatMap_cons, List.foldl_append]
    exact ih (viewCall_tracks h hl.1) hl.2

theorem SameVt.symm (h : SameVt s t) : SameVt t s := by
  obtain ⟨_, _, _, _, _, rfl⟩ := h
  exact ⟨s.touched, s.curvis, s.curoffs, s.outx, s.outy, rfl⟩

theorem SameVt.fields (h : SameVt s t) : t.screen = s.screen ∧ t.bgmode = s.bgmode := by
  obtain ⟨_, _, _, _, _, rfl⟩ := h
  exact ⟨rfl, rfl⟩

theorem SameVt.trans {u : Vt} (h : SameVt s t) (h' : SameVt t u) : SameVt s u := by
  obtain ⟨_, _, _, _, _, rfl⟩ := h
  obtain ⟨_, _, _, _, _, rfl⟩ := h'
  exact ⟨_, _, _, _, _, rfl⟩

structure Normalized (s t : Vt) : Prop where
  same : ∃ touched bgmode curbg curfg attr, Six attr ∧
    t = { s with touched, bgmode, curbg, curfg, curattr := attr &&& (s.font_mask ||| s.style_mask) }
  mono : s.Colors = 0 → t.curfg = s.curfg ∧ t.curbg = s.curbg

theorem color_normalized (h : s.outbuf = []) (hc : s.Colors ≠ 0) (fg bg : Byte) :
    Normalized s (vt_setattr { vt_set_fgcol (vt_set_bgcol s (bg + 0x30)) (fg + 0x30) with bgmode := VT_CLEAR }
      VT_NORMAL) := by
  have hbg := vt_set_bgcol_nil h hc bg
  rw [hbg, vt_set_fgcol_nil (by exact h) (by exact hc), vt_setattr_nil (by exact h)]
  exact ⟨⟨_, _, _, _, VT_NORMAL, by unfold Six; decide, rfl⟩, fun h0 => absurd h0 hc⟩

theorem mode_normalized (h : s.outbuf = []) (bgmode : Byte) {attr : Byte} (h6 : Six attr) :
    Normalized s (vt_setattr { s with bgmode } attr) := by
  rw [vt_setattr_nil (by exact h)]
  exact ⟨⟨_, _, _, _, attr, h6, rfl⟩, fun _ => ⟨rfl, rfl⟩⟩

theorem vt_normal_normalized (h : s.outbuf = []) : ∃ t, Normalized s t ∧ vt_normal s = vt_cursor_on t := by
  have hzero : Six VT_NORMAL := by
    unfold Six
    decide
  unfold vt_normal
  dsimp only
  split_ifs with hc
  · exact ⟨_, color_normalized h hc (BitVec.ofNat 8 (s.Colors - 1)) 0, rfl⟩
  · exact ⟨_, color_normalized h hc 0 (BitVec.ofNat 8 (s.Colors - 1)), rfl⟩
  · exact ⟨_, mode_normalized h VT_DRAW six_reverse, rfl⟩
  · exact ⟨_, mode_normalized h VT_CLEAR hzero, rfl⟩

variable {o : VtOptions} {wd ht : Int}

theorem vt_realize_tracks (hc : (o.Colors : Int) ≤ MAX_COLORS) (hh : 0 ≤ o.histsize) (hht : 1 ≤ ht) :
    Tracks (vt_realize o wd ht) (vt_realize o wd ht) := by
  let u : Vt := { vt_create o with
    curon := true, autowrap := true
    touched := (List.range o.Colors).map (fun i : Nat => (⟨MAX_COLORS, i⟩ : Access)) ++ [] }
  obtain ⟨t, hn, he⟩ := vt_normal_normalized (s := u) rfl
  have hmono := hn.mono
  obtain ⟨touched, bgmode, curbg, curfg, attr, h6, rfl⟩ := hn.same
  obtain ⟨curvis, hs⟩ := vt_cursor_show_eq ((vt_cursor_on { u with
    touched, bgmode, curbg, curfg, curattr := attr &&& (u.font_mask ||| u.style_mask) }).allocated wd ht (ht + o.histsize))
  have hv : vt_realize o wd ht = { vt_cursor_show ((vt_normal u).allocated wd ht (ht + o.histsize)) with
      is_realized := true } := rfl
  rw [hv, he, hs]
  have hmask : (attr &&& (u.font_mask ||| u.style_mask)) &&& (u.font_mask ||| u.style_mask) =
      attr &&& (u.font_mask ||| u.style_mask) := by
    rw [BitVec.and_assoc, BitVec.and_self]
  have hin : 0 ≤ (0 : Int) ∧ 0 < ht + o.histsize := by omega
  refine ⟨rfl, hin, ⟨rfl, hc, ⟨le_refl 0, hh⟩, ?_, hin, h6.and _, hmask, fun h0 => ?_⟩, ⟨_, _, _, _, _, rfl⟩, rfl⟩
  · change o.histsize < ht + o.histsize
    omega
  · obtain ⟨h1, h2⟩ := hmono h0
    exact ⟨h1, h2, fun _ => h2⟩

/-- However a stream of bytes is cut, and whatever part of the history is shown in between, the
widget ends in the same state. -/
theorem cuts_agree (hc : (o.Colors : Int) ≤ MAX_COLORS) (hh : 0 ≤ o.histsize) (hht : 1 ≤ ht)
    {l l' : List ViewCall} (hb : l.flatMap ViewCall.bytes = l'.flatMap ViewCall.bytes)
    (hl : AllSafe viewCall ViewCall.Exact (vt_realize o wd ht) l)
    (hl' : AllSafe viewCall ViewCall.Exact (vt_realize o wd ht) l') :
    SameVt (l.foldl viewCall (vt_realize o wd ht)) (l'.foldl viewCall (vt_realize o wd ht)) := by
  have h : Tracks (vt_realize o wd ht) (vt_realize o wd ht) := vt_realize_tracks hc hh hht
  have h1 := viewCalls_track h hl
  have h2 := viewCalls_track h hl'
  rw [hb] at h1
  exact h1.agree.trans h2.agree.symm

def monochrome : VtOptions where
  Colors := 0
  histsize := 2
  style_mask := 0x1e
  font_mask := 0x01
  reversed := false
  bgmode := VT_CLEAR

def cutRed : List ViewCall := [.output [65, 10, 27], .vmove 1, .output [98], .vmove 0, .output [0x31, 66]]

theorem cuts_agree_cutRed : SameVt ([ViewCall.output [65, 10, 27, 98, 0x31, 66]].foldl viewCall (vt_realize colored 2 1))
    (cutRed.foldl viewCall (vt_realize colored 2 1)) :=
  cuts_agree (by decide) (by decide) (by decide) rfl (by decide +kernel) (by decide +kernel)

/-- A color that does not exist or the other background mode goes to the characters in the buffer, too,
and a look at the history turns the background mode on. -/
theorem cuts_disagree : ¬ SameVt ([ViewCall.output [65, 27, 98, 126]].foldl viewCall (vt_realize colored 2 1))
      ([ViewCall.output [65], .output [27, 98, 126]].foldl viewCall (vt_realize colored 2 1)) ∧
    ¬ SameVt ([ViewCall.output [65, 27, 98, 0x31]].foldl viewCall (vt_realize monochrome 2 1))
      ([ViewCall.output [65], .output [27, 98, 0x31]].foldl viewCall (vt_realize monochrome 2 1)) ∧
    ¬ SameVt ([ViewCall.output [65, 10]].foldl viewCall (vt_realize monochrome 2 1))
      ([ViewCall.output [65, 10], .vmove 1].foldl viewCall (vt_realize monochrome 2 1)) := by
  refine ⟨fun h => ?_, fun h => ?_, fun h => ?_⟩
  · have hfg := congrArg (fun screen : Int → vtchar_t => (screen 0).fg) h.fields.1
    exact absurd hfg (by decide +kernel)
  · have hmode := congrArg (fun screen : Int → vtchar_t => (screen 0).mode) h.fields.1
    exact absurd hmode (by decide +kernel)
  · exact absurd h.fields.2 (by decide +kernel)

end WWindowSystem
