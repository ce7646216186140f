import Mathlib.Data.List.TakeWhile
import WWindowSystem.Wt.VtLoops

namespace WWindowSystem

structure Vt.Clean (s : Vt) : Prop where
  touched : ∀ a ∈ s.touched, a.Inside
  Colors : (s.Colors : Int) ≤ MAX_COLORS
  colors : s.Colors ≠ 0 → ∀ v, s.Has v → (v.fg.toNat : Int) < MAX_COLORS ∧ (v.bg.toNat : Int) < MAX_COLORS

/-- The widget without its cursor and its output buffer; `P` tells whether the accesses count. -/
structure Vt.Frame (P : Prop) (s : Vt) : Prop where
  wd : 0 < s.wd
  ht : 0 < s.ht
  hist : 0 ≤ s.curhistsize
  room : s.curhistsize ≤ s.screenht - s.ht
  most : s.curhistsize ≤ s.histsize
  offs : 0 ≤ s.offs ∧ s.offs < s.screenht
  curoffs : 0 ≤ s.curoffs ∧ s.curoffs < s.screenht
  saved : (0 ≤ s.savx ∧ s.savx < s.wd) ∧ 0 ≤ s.savy ∧ s.savy < s.ht
  params : 0 ≤ s.params ∧ s.params < MAX_PARAMETERS
  clean : P → s.Clean

structure Vt.Flushable (s : Vt) : Prop where
  nonzero : 0 ∉ s.outbuf
  bounded : s.outbuf.length ≤ VT_BUFSIZE
  fits : s.outbuf ≠ [] → s.curoffs = s.offs ∧ (0 ≤ s.outx ∧ s.outx + s.outbuf.length ≤ s.wd) ∧
    0 ≤ s.outy ∧ s.outy < s.ht

structure Vt.Cursor (s : Vt) : Prop where
  x : 0 ≤ s.curx ∧ s.curx < s.wd
  y : 0 ≤ s.cury ∧ s.cury < s.ht

structure Vt.Calm (P : Prop) (s : Vt) : Prop extends s.Frame P, s.Flushable, s.Cursor where
  pending : s.outbuf ≠ [] → s.outx + s.outbuf.length = s.curx ∧ s.outy = s.cury

structure Vt.Live (P : Prop) (s : Vt) : Prop extends s.Calm P where
  bottom : s.curoffs = s.offs

variable {P : Prop} {s t : Vt}

theorem Vt.Frame.sized (h : s.Frame P) : s.Sized := by
  have := h.ht
  have := h.hist
  have := h.room
  exact ⟨h.wd, by omega⟩

theorem Drawn.frame (hd : Drawn s t) (h : s.Frame P) : t.Frame P := by
  obtain ⟨_, _, rfl, ht, hv⟩ := hd
  refine ⟨h.wd, h.ht, h.hist, h.room, h.most, h.offs, h.curoffs, h.saved, h.params, fun hP => ?_⟩
  obtain ⟨h1, h2, h3⟩ := h.clean hP
  refine ⟨fun a ha => ?_, h2, fun hc v hs => h3 hc v (hv v hs)⟩
  obtain ha | ha := ht a ha
  · exact h1 a ha
  · exact ha

theorem vt_screen_pos_row (ho : 0 ≤ s.curoffs ∧ s.curoffs < s.screenht) {y : Int} (h0 : 0 ≤ y)
    (hy : y < s.screenht) (x : Int) : vt_screen_pos s x y = rowStart s.wd s.screenht (s.curoffs + y) + x := by
  unfold vt_screen_pos
  dsimp only
  split_ifs with hw
  · rw [← rowStart_of_lt (W := s.wd) (H := s.screenht) (k := y + s.curoffs - s.screenht) (by omega) (by omega),
      ← rowStart_period, show y + s.curoffs - s.screenht + s.screenht = s.curoffs + y by omega]
  · rw [← rowStart_of_lt (W := s.wd) (H := s.screenht) (k := y + s.curoffs) (by omega) (by omega),
      Int.add_comm y]

def Vt.cell (s : Vt) (k x : Int) : vtchar_t := s.ring (s.offs + k) x

structure Vt.InRows (s : Vt) (k x : Int) : Prop where
  low : s.ht - s.screenht ≤ k
  high : k < s.ht
  left : 0 ≤ x
  right : x < s.wd

theorem vt_flush_nil (h : s.outbuf = []) : vt_flush s = s := by
  unfold vt_flush
  rw [if_pos h]

def Vt.cleared (s : Vt) : Vt := { s with outbuf := [] }

theorem vt_flush_spec (h : s.Frame P) (hf : s.Flushable) :
    ∃ t, Drawn s t ∧ vt_flush s = t.cleared ∧ ∀ k x, s.InRows k x → t.cell k x =
      if k = s.outy ∧ s.outx ≤ x ∧ x < s.outx + s.outbuf.length then
        s.stored (s.outbuf.getD (x - s.outx).toNat 0) else s.cell k x := by
  by_cases hnil : s.outbuf = []
  · refine ⟨s, Drawn.refl s, ?_, fun k x _ => ?_⟩
    · rw [vt_flush_nil hnil, Vt.cleared, ← hnil]
    · rw [hnil, List.length_nil, if_neg (by omega)]
  · obtain ⟨hb, ⟨hx0, hx⟩, hy0, hy⟩ := hf.fits hnil
    have hroom := h.room
    have hhist := h.hist
    have hall : s.outbuf.takeWhile (· ≠ 0) = s.outbuf := by
      rw [List.takeWhile_eq_self_iff]
      intro c hc
      simpa using fun h0 : c = 0 => hf.nonzero (h0 ▸ hc)
    obtain ⟨hd, hr⟩ := putChars_spec s.outbuf h.sized (s.curoffs + s.outy) hx0 hx
    refine ⟨_, hd, ?_, fun k x hk => ?_⟩
    · unfold vt_flush
      rw [if_neg hnil, hall, vt_screen_pos_row h.curoffs hy0 (by omega)]
      rfl
    · have hrow : (s.offs + k) % s.screenht = (s.curoffs + s.outy) % s.screenht ↔ k = s.outy := by
        obtain ⟨h1, h2, -, -⟩ := hk
        rw [hb]
        refine ⟨fun he => ?_, fun he => by rw [he]⟩
        have := row_inj he (by omega) (by omega)
        omega
      have hcell := hr (s.offs + k) x hk.left hk.right
      simp only [hrow] at hcell
      obtain ⟨_, _, he, -⟩ := hd
      rw [he] at hcell ⊢
      exact hcell

theorem Vt.Clean.next (h : s.Clean) (hc : t.Colors = s.Colors) (ht : ∀ a ∈ t.touched, a ∈ s.touched ∨ a.Inside)
    (hv : ∀ v, t.Has v → ∃ w, s.Has w ∧ w.fg = v.fg ∧ w.bg = v.bg) : t.Clean := by
  refine ⟨fun a ha => ?_, hc ▸ h.Colors, fun hne v hs => ?_⟩
  · obtain ha | ha := ht a ha
    · exact h.touched a ha
    · exact ha
  · obtain ⟨w, hw, hf, hb⟩ := hv v hs
    rw [← hf, ← hb]
    exact h.colors (hc ▸ hne) w hw

theorem Vt.Frame.cleared (h : s.Frame P) : s.cleared.Frame P :=
  ⟨h.wd, h.ht, h.hist, h.room, h.most, h.offs, h.curoffs, h.saved, h.params, fun hP =>
    (h.clean hP).next rfl (fun _ ha => Or.inl ha) fun v hv => ⟨v, hv, rfl, rfl⟩⟩

theorem vt_flush_draw (h : s.Frame P) (hf : s.Flushable) :
    ∃ screen touched, vt_flush s = (s.draw screen touched).cleared := by
  obtain ⟨t, hd, he, -⟩ := vt_flush_spec h hf
  obtain ⟨_, _, rfl, -⟩ := hd
  exact ⟨_, _, he⟩

theorem vt_flush_frame (h : s.Frame P) (hf : s.Flushable) : (vt_flush s).Frame P := by
  obtain ⟨t, hd, he, -⟩ := vt_flush_spec h hf
  rw [he]
  exact (hd.frame h).cleared

structure Vt.Idle (P : Prop) (s : Vt) : Prop extends s.Frame P, s.Cursor where
  empty : s.outbuf = []

structure Vt.Rest (P : Prop) (s : Vt) : Prop extends s.Idle P where
  bottom : s.curoffs = s.offs

theorem Vt.Idle.calm (h : s.Idle P) : s.Calm P :=
  ⟨h.toFrame, ⟨by rw [h.empty]; exact List.not_mem_nil, by rw [h.empty]; exact Nat.zero_le _,
    fun hne => absurd h.empty hne⟩, h.toCursor, fun hne => absurd h.empty hne⟩

theorem Vt.Rest.live (h : s.Rest P) : s.Live P := ⟨h.calm, h.bottom⟩

theorem Vt.Calm.flush (h : s.Calm P) : (vt_flush s).Idle P := by
  have hf := vt_flush_frame h.toFrame h.toFlushable
  obtain ⟨_, _, he⟩ := vt_flush_draw h.toFrame h.toFlushable
  rw [he] at hf ⊢
  exact ⟨hf, ⟨h.x, h.y⟩, rfl⟩

theorem Vt.Live.flush (h : s.Live P) : (vt_flush s).Rest P := by
  refine ⟨h.toCalm.flush, ?_⟩
  obtain ⟨_, _, he⟩ := vt_flush_draw h.toFrame h.toFlushable
  rw [he]
  exact h.bottom

theorem Drawn.idle (hd : Drawn s t) (h : s.Idle P) : t.Idle P := by
  have hf := hd.frame h.toFrame
  obtain ⟨_, _, rfl, -⟩ := hd
  exact ⟨hf, ⟨h.x, h.y⟩, h.empty⟩

theorem Drawn.rest (hd : Drawn s t) (h : s.Rest P) : t.Rest P := by
  refine ⟨hd.idle h.toIdle, ?_⟩
  obtain ⟨_, _, rfl, -⟩ := hd
  exact h.bottom

theorem Vt.Rest.move (h : s.Rest P) {curx cury : Int} (hx : 0 ≤ curx ∧ curx < s.wd)
    (hy : 0 ≤ cury ∧ cury < s.ht) : ({ s with curx, cury } : Vt).Rest P :=
  ⟨⟨⟨h.wd, h.ht, h.hist, h.room, h.most, h.offs, h.curoffs, h.saved, h.params, fun hP =>
    (h.clean hP).next rfl (fun _ ha => Or.inl ha) fun v hv => ⟨v, hv, rfl, rfl⟩⟩, ⟨hx, hy⟩, h.empty⟩, h.bottom⟩

theorem Vt.Calm.flags (h : s.Calm P) (curvis curon autowrap : Bool) (xtermemu : BitVec 16)
    (parameter : Int → Int) (outfn : OutFn) :
    ({ s with curvis, curon, autowrap, xtermemu, parameter, outfn } : Vt).Calm P :=
  ⟨⟨h.wd, h.ht, h.hist, h.room, h.most, h.offs, h.curoffs, h.saved, h.params, fun hP =>
    (h.clean hP).next rfl (fun _ ha => Or.inl ha) fun v hv => ⟨v, hv, rfl, rfl⟩⟩,
    ⟨h.nonzero, h.bounded, h.fits⟩, ⟨h.x, h.y⟩, h.pending⟩

theorem Vt.Calm.params' (h : s.Calm P) {params : Int} (hp : 0 ≤ params ∧ params < MAX_PARAMETERS) :
    ({ s with params } : Vt).Calm P :=
  ⟨⟨h.wd, h.ht, h.hist, h.room, h.most, h.offs, h.curoffs, h.saved, hp, fun hP =>
    (h.clean hP).next rfl (fun _ ha => Or.inl ha) fun v hv => ⟨v, hv, rfl, rfl⟩⟩,
    ⟨h.nonzero, h.bounded, h.fits⟩, ⟨h.x, h.y⟩, h.pending⟩

theorem Vt.Calm.save (h : s.Calm P) : (vt_cursor_save s).Calm P :=
  ⟨⟨h.wd, h.ht, h.hist, h.room, h.most, h.offs, h.curoffs, ⟨h.x, h.y⟩, h.params, fun hP =>
    (h.clean hP).next rfl (fun _ ha => Or.inl ha) fun v hv => ⟨v, hv, rfl, rfl⟩⟩,
    ⟨h.nonzero, h.bounded, h.fits⟩, ⟨h.x, h.y⟩, h.pending⟩

theorem Vt.Calm.touch (h : s.Calm P) {size index : Int} (hi : P → 0 ≤ index ∧ index < size) :
    (s.touch size index).Calm P := by
  refine ⟨⟨h.wd, h.ht, h.hist, h.room, h.most, h.offs, h.curoffs, h.saved, h.params, fun hP => ?_⟩,
    ⟨h.nonzero, h.bounded, h.fits⟩, ⟨h.x, h.y⟩, h.pending⟩
  refine (h.clean hP).next rfl (fun a ha => ?_) fun v hv => ⟨v, hv, rfl, rfl⟩
  cases ha with
  | head => exact Or.inr (hi hP)
  | tail _ ha => exact Or.inl ha

theorem Vt.Calm.attr (h : s.Calm P) (curattr bgmode : Byte) : ({ s with curattr, bgmode } : Vt).Calm P := by
  refine ⟨⟨h.wd, h.ht, h.hist, h.room, h.most, h.offs, h.curoffs, h.saved, h.params, fun hP => ?_⟩,
    ⟨h.nonzero, h.bounded, h.fits⟩, ⟨h.x, h.y⟩, h.pending⟩
  refine (h.clean hP).next rfl (fun _ ha => Or.inl ha) ?_
  rintro v (hv | ⟨c, rfl⟩)
  · exact ⟨v, Or.inl hv, rfl, rfl⟩
  · exact ⟨s.stored c, Or.inr ⟨c, rfl⟩, rfl, rfl⟩

theorem Vt.Calm.color (h : s.Calm P) {curfg curbg : BitVec 4}
    (hc : P → s.Colors ≠ 0 → (curfg.toNat : Int) < MAX_COLORS ∧ (curbg.toNat : Int) < MAX_COLORS) :
    ({ s with curfg, curbg } : Vt).Calm P := by
  refine ⟨⟨h.wd, h.ht, h.hist, h.room, h.most, h.offs, h.curoffs, h.saved, h.params, fun hP => ?_⟩,
    ⟨h.nonzero, h.bounded, h.fits⟩, ⟨h.x, h.y⟩, h.pending⟩
  obtain ⟨h1, h2, h3⟩ := h.clean hP
  refine ⟨h1, h2, fun hne v hv => ?_⟩
  obtain hv | ⟨c, rfl⟩ := hv
  · exact h3 hne v (Or.inl hv)
  · exact hc hP hne

end WWindowSystem

namespace WWindowSystem

def Vt.text (s : Vt) (k x : Int) : Byte :=
  if k = s.outy ∧ s.outx ≤ x ∧ x < s.outx + s.outbuf.length then s.outbuf.getD (x - s.outx).toNat 0
  else (s.cell k x).c

def Alike (s t : Vt) : Prop :=
  (∃ screen touched outx outy outbuf curattr curbg curfg bgmode curvis curon xtermemu parameter,
    t = { s with screen, touched, outx, outy, outbuf, curattr, curbg, curfg, bgmode, curvis, curon,
                 xtermemu, parameter }) ∧
  ∀ k x, s.InRows k x → t.text k x = s.text k x

variable {P : Prop} {s t u : Vt}

theorem Alike.refl (s : Vt) : Alike s s := ⟨⟨_, _, _, _, _, _, _, _, _, _, _, _, _, rfl⟩, fun _ _ _ => rfl⟩

theorem Alike.trans (h : Alike s t) (h' : Alike t u) : Alike s u := by
  obtain ⟨⟨_, _, _, _, _, _, _, _, _, _, _, _, _, rfl⟩, h1⟩ := h
  obtain ⟨⟨_, _, _, _, _, _, _, _, _, _, _, _, _, rfl⟩, h2⟩ := h'
  refine ⟨⟨_, _, _, _, _, _, _, _, _, _, _, _, _, rfl⟩, fun k x hk => ?_⟩
  exact (h2 k x ⟨hk.low, hk.high, hk.left, hk.right⟩).trans (h1 k x hk)

structure Steady (P : Prop) (s t : Vt) : Prop where
  calm : t.Calm P
  alike : Alike s t
  empty : s.outbuf = [] → t.outbuf = []

theorem Steady.refl (h : s.Calm P) : Steady P s s := ⟨h, Alike.refl s, id⟩

theorem Steady.live (hs : Steady P s t) (h : s.Live P) : t.Live P := by
  refine ⟨hs.calm, ?_⟩
  obtain ⟨-, ⟨⟨_, _, _, _, _, _, _, _, _, _, _, _, _, rfl⟩, -⟩, -⟩ := hs
  exact h.bottom

theorem Steady.trans (h : Steady P s t) (h' : Steady P t u) : Steady P s u :=
  ⟨h'.calm, h.alike.trans h'.alike, fun hnil => h'.empty (h.empty hnil)⟩

theorem text_of_nil (h : s.outbuf = []) (k x : Int) : s.text k x = (s.cell k x).c := by
  unfold Vt.text
  rw [h, List.length_nil, if_neg (by omega)]

theorem vt_flush_alike (h : s.Frame P) (hf : s.Flushable) : Alike s (vt_flush s) := by
  obtain ⟨t, hd, he, hr⟩ := vt_flush_spec h hf
  obtain ⟨_, _, rfl, -⟩ := hd
  rw [he]
  refine ⟨⟨_, _, _, _, _, _, _, _, _, _, _, _, _, rfl⟩, fun k x hk => ?_⟩
  rw [text_of_nil rfl]
  refine (congrArg vtchar_t.c (hr k x hk)).trans ?_
  rw [apply_ite vtchar_t.c]
  rfl

theorem vt_flush_steady (h : s.Calm P) : Steady P s (vt_flush s) :=
  ⟨h.flush.calm, vt_flush_alike h.toFrame h.toFlushable, fun _ => h.flush.empty⟩

theorem vt_setattr_steady (h : s.Calm P) (attr : Byte) : Steady P s (vt_setattr s attr) :=
  (vt_flush_steady h).trans
    ⟨h.flush.calm.attr _ _, ⟨⟨_, _, _, _, _, _, _, _, _, _, _, _, _, rfl⟩, fun _ _ _ => rfl⟩, id⟩

theorem bgmode_steady (h : s.Calm P) (bgmode : Byte) : Steady P s { s with bgmode } :=
  ⟨h.attr s.curattr bgmode, ⟨⟨_, _, _, _, _, _, _, _, _, _, _, _, _, rfl⟩, fun _ _ _ => rfl⟩, id⟩

theorem vt_change_bgmode_steady (h : s.Calm P) (reverse : Bool) : Steady P s (vt_change_bgmode s reverse) := by
  unfold vt_change_bgmode
  generalize (if reverse then VT_DRAW else VT_CLEAR) = mode
  have hm := bgmode_steady h mode
  dsimp only
  split_ifs
  · exact hm.trans (vt_setattr_steady hm.calm _)
  · exact hm
  · exact Steady.refl h

theorem touch_steady (h : s.Calm P) {size index : Int} (hi : P → 0 ≤ index ∧ index < size) :
    Steady P s (s.touch size index) :=
  ⟨h.touch hi, ⟨⟨_, _, _, _, _, _, _, _, _, _, _, _, _, rfl⟩, fun _ _ _ => rfl⟩, id⟩

theorem useColor_steady (h : s.Calm P) {col : Byte} (hc : P → (col.toNat : Int) < MAX_COLORS) :
    Steady P s (s.useColor col) := by
  have hin (hP : P) : 0 ≤ (col.toNat : Int) ∧ (col.toNat : Int) < MAX_COLORS := ⟨by omega, hc hP⟩
  unfold Vt.useColor
  dsimp only
  split_ifs
  · exact (vt_flush_steady h).trans (touch_steady h.flush.calm hin)
  · exact touch_steady h hin

theorem Vt.Calm.curcolors (h : s.Calm P) (hP : P) (hne : s.Colors ≠ 0) :
    (s.curfg.toNat : Int) < MAX_COLORS ∧ (s.curbg.toNat : Int) < MAX_COLORS :=
  (h.clean hP).colors hne (s.stored 0) (Or.inr ⟨0, rfl⟩)

theorem setWidth_le (col : Byte) : (col.setWidth 4).toNat ≤ col.toNat := by
  rw [BitVec.toNat_setWidth]
  exact Nat.mod_le _ _

theorem vt_set_fgcol_steady (h : s.Calm P) (col : Byte)
    (hc : P → s.Colors ≠ 0 → ((col - 0x30).toNat : Int) < MAX_COLORS) : Steady P s (vt_set_fgcol s col) := by
  unfold vt_set_fgcol
  dsimp only
  split_ifs with hne
  · have hu := useColor_steady h fun hP => hc hP hne
    refine hu.trans ⟨hu.calm.color fun hP hne' => ?_, ⟨⟨_, _, _, _, _, _, _, _, _, _, _, _, _, rfl⟩,
      fun _ _ _ => rfl⟩, id⟩
    have h1 := hc hP hne
    have h2 := setWidth_le (col - 0x30)
    exact ⟨by omega, (hu.calm.curcolors hP hne').2⟩
  · exact vt_change_bgmode_steady h _

theorem vt_set_bgcol_steady (h : s.Calm P) (col : Byte)
    (hc : P → s.Colors ≠ 0 → ((col - 0x30).toNat : Int) < MAX_COLORS) : Steady P s (vt_set_bgcol s col) := by
  unfold vt_set_bgcol
  dsimp only
  split_ifs with hne
  · have hu := useColor_steady h fun hP => hc hP hne
    refine hu.trans ⟨hu.calm.color fun hP hne' => ?_, ⟨⟨_, _, _, _, _, _, _, _, _, _, _, _, _, rfl⟩,
      fun _ _ _ => rfl⟩, id⟩
    have h1 := hc hP hne
    have h2 := setWidth_le (col - 0x30)
    exact ⟨(hu.calm.curcolors hP hne').1, by omega⟩
  · exact vt_change_bgmode_steady h _

theorem digit_sub (col : Byte) : col + 0x30 - 0x30 = col := BitVec.add_sub_cancel col 0x30

theorem Steady.colors (h : Steady P s t) : t.Colors = s.Colors := by
  obtain ⟨-, ⟨⟨_, _, _, _, _, _, _, _, _, _, _, _, _, rfl⟩, -⟩, -⟩ := h
  rfl

theorem RESTORE_ATTRIBUTES_steady (h : s.Calm P) {v : vtchar_t}
    (hv : P → s.Colors ≠ 0 → (v.fg.toNat : Int) < MAX_COLORS ∧ (v.bg.toNat : Int) < MAX_COLORS) :
    Steady P s (RESTORE_ATTRIBUTES s v) := by
  have hw (c : BitVec 4) : (c.setWidth 8).toNat = c.toNat := by
    rw [BitVec.toNat_setWidth]
    have := c.isLt
    omega
  unfold RESTORE_ATTRIBUTES
  dsimp only
  have h1 := vt_setattr_steady h (v.attr.setWidth 8)
  have h2 := vt_set_fgcol_steady h1.calm (v.fg.setWidth 8 + 0x30) fun hP hne => by
    rw [digit_sub, hw]
    exact (hv hP (h1.colors ▸ hne)).1
  have h3 := vt_set_bgcol_steady h2.calm (v.bg.setWidth 8 + 0x30) fun hP hne => by
    rw [digit_sub, hw]
    exact (hv hP (h1.colors ▸ h2.colors ▸ hne)).2
  exact h1.trans (h2.trans h3)

theorem vt_normal_steady (h : s.Calm P) : Steady P s (vt_normal s) := by
  have hon {t : Vt} (ht : t.Calm P) : Steady P t (vt_cursor_on t) :=
    ⟨ht.flags _ _ _ _ _ _, ⟨⟨_, _, _, _, _, _, _, _, _, _, _, _, _, rfl⟩, fun _ _ _ => rfl⟩, id⟩
  have hmode {t : Vt} (ht : t.Calm P) (bgmode attr : Byte) :
      Steady P t (vt_setattr { t with bgmode } attr) :=
    (bgmode_steady ht bgmode).trans (vt_setattr_steady (bgmode_steady ht bgmode).calm attr)
  have hzero : ((0x30 - 0x30 : Byte).toNat : Int) < MAX_COLORS := by decide
  have hlast (hP : P) : ((BitVec.ofNat 8 (s.Colors - 1) + 0x30 - 0x30 : Byte).toNat : Int) < MAX_COLORS := by
    have := (h.clean hP).Colors
    have hm : MAX_COLORS = 8 := rfl
    rw [digit_sub, BitVec.toNat_ofNat]
    omega
  unfold vt_normal
  dsimp only
  split_ifs
  · have h1 := vt_set_bgcol_steady h 0x30 fun _ _ => hzero
    have h2 := vt_set_fgcol_steady h1.calm (BitVec.ofNat 8 (s.Colors - 1) + 0x30) fun hP _ => hlast hP
    have h3 := hmode h2.calm VT_CLEAR VT_NORMAL
    exact h1.trans (h2.trans (h3.trans (hon h3.calm)))
  · have h1 := vt_set_bgcol_steady h (BitVec.ofNat 8 (s.Colors - 1) + 0x30) fun hP _ => hlast hP
    have h2 := vt_set_fgcol_steady h1.calm 0x30 fun _ _ => hzero
    have h3 := hmode h2.calm VT_CLEAR VT_NORMAL
    exact h1.trans (h2.trans (h3.trans (hon h3.calm)))
  · exact (hmode h _ _).trans (hon (hmode h _ _).calm)
  · exact (hmode h _ _).trans (hon (hmode h _ _).calm)

end WWindowSystem
