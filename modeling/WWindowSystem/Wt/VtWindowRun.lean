import WWindowSystem.Wt.VtPaintsPutc

namespace WWindowSystem

open List

structure Views (s : Vt) (win : WinCells) : Prop where
  full : s.screenht = s.ht + s.histsize
  nonzero : ∀ j x, 0 ≤ x → x < s.wd → (s.ring j x).c ≠ 0
  shows : ∀ y x, 0 ≤ y → y < s.ht → 0 ≤ x → x < s.wd → win y x = (s.ring (s.curoffs + y) x).c

def Vt.rowText (s : Vt) (j x : Int) (m : Nat) : List Byte := (List.range m).map fun i : Nat => (s.ring j (x + i)).c

variable {P : Prop} {s t : Vt} {win : WinCells}

theorem rowText_succ (j x : Int) (m : Nat) : s.rowText j x (m + 1) = s.rowText j x m ++ [(s.ring j (x + m)).c] := by
  unfold Vt.rowText
  rw [range_succ, map_append, map_singleton]

theorem length_rowText (j x : Int) (m : Nat) : (s.rowText j x m).length = m := by
  unfold Vt.rowText
  rw [length_map, length_range]

theorem rowText_printed (hn : ∀ x, 0 ≤ x → x < s.wd → (s.ring j x).c ≠ 0) {x : Int} (h0 : 0 ≤ x) {m : Nat}
    (hm : x + m ≤ s.wd) (ypos k x' : Int) : w_printstring win x ypos (s.rowText j x m) k x' =
      if k = ypos ∧ x ≤ x' ∧ x' < x + m then (s.ring j x').c else win k x' := by
  have hnz : 0 ∉ s.rowText j x m := by
    intro hz
    obtain ⟨i, hi, he⟩ := mem_map.mp hz
    rw [mem_range] at hi
    exact hn (x + i) (by omega) (by omega) he
  rw [w_printstring_eq hnz, length_rowText]
  split_ifs with hin
  · have hlt : (x' - x).toNat < m := by omega
    unfold Vt.rowText
    rw [getD_eq_getElem _ _ (by rw [length_map, length_range]; exact hlt), getElem_map,
      getElem_range]
    congr 3
    omega
  · rfl

theorem redrawCells_win_spec (n : Nat) (hn : ∀ x, 0 ≤ x → x < s.wd → (s.ring j x).c ≠ 0) {xpos : Int} (h0 : 0 ≤ xpos)
    {m : Nat} (hm : xpos + m + n ≤ s.wd) (new : vtchar_t) (ypos : Int) (win : WinCells) (k x : Int) :
    (redrawCells_win n s new (s.rowText j xpos m) xpos ypos (rowStart s.wd s.screenht j + (xpos + m)) win).1 k x =
      if k = ypos ∧ xpos ≤ x ∧ x < xpos + m + n then (s.ring j x).c else win k x := by
  induction n generalizing xpos m new win with
  | zero =>
    rw [redrawCells_win]
    dsimp only
    rw [rowText_printed hn h0 (by omega), Int.natCast_zero, Int.add_zero]
  | succ n ih =>
    have hone : s.rowText j (xpos + m) 1 = [(s.ring j (xpos + m)).c] := by
      unfold Vt.rowText
      rw [range_one, map_singleton, Int.natCast_zero, Int.add_zero]
    have hnext : rowStart s.wd s.screenht j + (xpos + m) + 1 = rowStart s.wd s.screenht j + (xpos + m + 1) := by omega
    unfold redrawCells_win
    rw [show s.screen (rowStart s.wd s.screenht j + (xpos + m)) = s.ring j (xpos + m) from rfl, hnext,
      length_rowText]
    dsimp only
    rw [← rowText_succ, ← hone]
    split_ifs with hfull hin hin
    · rw [show xpos + m + 1 = xpos + m + (1 : Nat) from rfl, ih (by omega) (by omega),
        rowText_printed hn h0 (by omega)]
      split_ifs <;> first | rfl | omega
    · rw [show xpos + m + 1 = xpos + m + (1 : Nat) from rfl, ih (by omega) (by omega),
        rowText_printed hn h0 (by omega), if_neg (by omega), if_neg (by omega)]
    · rw [show xpos + m + 1 = xpos + (m + 1 : Nat) by omega, ih h0 (by omega), if_pos (by omega)]
    · rw [show xpos + m + 1 = xpos + (m + 1 : Nat) by omega, ih h0 (by omega), if_neg (by omega)]

theorem redrawRows_win_spec (n : Nat) (hs : s.Sized) (hn : ∀ j x, 0 ≤ x → x < s.wd → (s.ring j x).c ≠ 0) (j : Int)
    (new : vtchar_t) (ypos : Int) (win : WinCells) {k x : Int} (h0 : 0 ≤ x) (hx : x < s.wd) :
    redrawRows_win n s new ypos (rowStart s.wd s.screenht j) win k x =
      if ypos ≤ k ∧ k < ypos + n then (s.ring (j + (k - ypos)) x).c else win k x := by
  induction n generalizing new ypos win j with
  | zero =>
    rw [redrawRows_win, if_neg (by omega)]
  | succ n ih =>
    have hwd := hs.wd
    have hrow := redrawCells_win_spec s.wd.toNat (hn j) (le_refl 0) (m := 0) (by omega) new ypos win k x
    rw [Int.natCast_zero, Int.add_zero, Int.add_zero, show s.rowText j 0 0 = [] from rfl] at hrow
    unfold redrawRows_win
    dsimp only
    rw [vt_screen_nl_row hs, ih, hrow]
    split_ifs with h1 h2 h2
    · congr 2
      omega
    · omega
    · rw [show j + (k - ypos) = j by omega]
    · omega
    · omega
    · rfl

theorem vt_redraw_win_spec (hs : s.Sized) (hn : ∀ j x, 0 ≤ x → x < s.wd → (s.ring j x).c ≠ 0)
    (hc : 0 ≤ s.curoffs ∧ s.curoffs < s.screenht) {y : Int} (h0 : 0 ≤ y) (hy : y < s.screenht) {ymax : Int} (hmax : y ≤ ymax)
    (win : WinCells) {k x : Int} (hx0 : 0 ≤ x) (hx : x < s.wd) : vt_redraw_win s y ymax win k x =
      if y ≤ k ∧ k < ymax then (s.ring (s.curoffs + k) x).c else win k x := by
  unfold vt_redraw_win
  rw [vt_screen_pos_row hc h0 hy, Int.add_zero, redrawRows_win_spec _ hs hn _ _ _ _ hx0 hx]
  split_ifs <;> first | omega | rfl | (congr 2; omega)

theorem Vt.Frame.in_rows (h : s.Frame P) (j : Int) {x : Int} (h0 : 0 ≤ x) (hx : x < s.wd) :
    ∃ k, s.InRows k x ∧ (s.offs + k) % s.screenht = j % s.screenht := by
  have hs := h.sized.screenht
  have hlow := Int.emod_nonneg (j - (s.offs + (s.ht - s.screenht))) (by omega : s.screenht ≠ 0)
  have hhigh := Int.emod_lt_of_pos (j - (s.offs + (s.ht - s.screenht))) hs
  refine ⟨s.ht - s.screenht + (j - (s.offs + (s.ht - s.screenht))) % s.screenht, ⟨by omega, by omega, h0, hx⟩, ?_⟩
  rw [← Int.add_assoc, Int.add_emod_emod]
  congr 1
  omega

theorem Steady.ring (hs : Steady P s t) (hnil : s.outbuf = []) (h : s.Frame P) (j : Int) {x : Int} (h0 : 0 ≤ x)
    (hx : x < s.wd) : (t.ring j x).c = (s.ring j x).c := by
  obtain ⟨k, hk, hj⟩ := h.in_rows j h0 hx
  have htext := hs.alike.2 k x hk
  rw [text_of_nil (hs.empty hnil), text_of_nil hnil] at htext
  have ht : t.ring (s.offs + k) x = t.ring j x := by
    apply ring_congr
    rw [hs.size.2, hj]
  obtain ⟨-, ⟨⟨_, _, _, _, _, _, _, _, _, _, _, _, _, rfl⟩, -⟩, -⟩ := hs
  rw [← ht, ← ring_congr hj]
  exact htext

theorem curoffs_row (s : Vt) (y : Int) : (s.curoffs + y) % s.screenht = (s.offs - s.position + y) % s.screenht := by
  unfold Vt.position
  split_ifs
  · rw [show s.offs - (s.offs - s.curoffs + s.screenht) + y = s.curoffs + y - s.screenht by omega, Int.sub_emod_right]
  · congr 1
    omega

theorem vt_vmove_win_spec (h : s.Idle P) (hv : Views s win) (offs : Int) {y x : Int} (hy0 : 0 ≤ y) (hy : y < s.ht)
    (h0 : 0 ≤ x) (hx : x < s.wd) : vt_vmove_win s offs win y x = (s.ring (s.offs - s.clamped offs + y) x).c := by
  have ho := h.offs
  have hroom := h.room
  have hhist := h.hist
  have hk : 0 ≤ s.clamped offs ∧ s.clamped offs ≤ s.curhistsize := by
    unfold Vt.clamped
    split_ifs <;> omega
  have hwin (y : Int) (hy0 : 0 ≤ y) (hy : y < s.ht) : win y x = (s.ring (s.offs - s.position + y) x).c := by
    rw [hv.shows y x hy0 hy h0 hx, ring_congr (curoffs_row s y)]
  unfold vt_vmove_win
  dsimp only
  rw [show (if offs < 0 then 0 else if offs > s.curhistsize then s.curhistsize else offs) = s.clamped offs from rfl,
    show (if s.offs - s.curoffs < 0 then s.offs - s.curoffs + s.screenht else s.offs - s.curoffs) = s.position from rfl]
  generalize s.clamped offs = k at hk ⊢
  generalize s.position = old at hwin ⊢
  have hin : 0 ≤ (if s.offs - k < 0 then s.offs - k + s.screenht else s.offs - k) ∧
      (if s.offs - k < 0 then s.offs - k + s.screenht else s.offs - k) < s.screenht := by
    split_ifs <;> omega
  have hcur : ((if s.offs - k < 0 then s.offs - k + s.screenht else s.offs - k) + y) % s.screenht =
      (s.offs - k + y) % s.screenht := by
    split_ifs
    · rw [show s.offs - k + s.screenht + y = s.offs - k + y + s.screenht by omega, Int.add_emod_right]
    · rfl
  generalize (if s.offs - k < 0 then s.offs - k + s.screenht else s.offs - k) = cur at hin hcur ⊢
  have hdraw {a : Int} (ha0 : 0 ≤ a) (ha : a < s.screenht) {b : Int} (hab : a ≤ b) (win : WinCells) :
      vt_redraw_win { s with curoffs := cur } a b win y x =
        if a ≤ y ∧ y < b then (s.ring (s.offs - k + y) x).c else win y x := by
    rw [← ring_congr hcur]
    exact vt_redraw_win_spec (s := { s with curoffs := cur }) ⟨h.wd, h.sized.screenht⟩ hv.nonzero hin ha0 ha hab win h0 hx
  split_ifs with hdist hshort hback
  · rw [hwin y hy0 hy, show old = k by omega]
  · rw [hdraw (le_refl 0) (by omega) (by omega)]
    split_ifs with hnew
    · rfl
    · dsimp only [w_vscroll]
      rw [if_pos (by omega), hwin _ (by omega) (by omega)]
      congr 2
      omega
  · rw [hdraw (by omega) (by omega) (by omega)]
    split_ifs with hnew
    · rfl
    · dsimp only [w_vscroll]
      rw [if_pos (by omega), hwin _ (by omega) (by omega)]
      congr 2
      omega
  · rw [hdraw (le_refl 0) (by omega) (by omega), if_pos ⟨hy0, hy⟩]

theorem Views.vmove (h : s.Idle P) (hv : Views s win) (offs : Int) :
    Views (vt_vmove s offs) (vt_vmove_win s offs win) := by
  obtain ⟨cur, hcur, hmod, hs⟩ := vt_vmove_spec h offs
  have hring (j : Int) {x : Int} (h0 : 0 ≤ x) (hx : x < s.wd) : ((vt_vmove s offs).ring j x).c = (s.ring j x).c :=
    hs.ring h.empty (h.view hcur).toFrame j h0 hx
  have hwin {y x : Int} := vt_vmove_win_spec (x := x) (y := y) h hv offs
  obtain ⟨-, ⟨⟨_, _, _, _, _, _, _, _, _, _, _, _, _, he⟩, -⟩, -⟩ := hs
  rw [he] at hring ⊢
  refine ⟨hv.full, fun j x h0 hx => ?_, fun y x hy0 hy h0 hx => ?_⟩
  · rw [hring j h0 hx]
    exact hv.nonzero j x h0 hx
  · rw [hwin hy0 hy h0 hx, hring _ h0 hx]
    congr 1
    apply ring_congr
    rw [← Int.emod_add_emod, ← hmod, Int.emod_add_emod]

theorem Views.of_same (h : Views s win) (he : t.screen = s.screen ∧ t.curoffs = s.curoffs ∧ t.wd = s.wd ∧ t.ht = s.ht ∧
    t.screenht = s.screenht ∧ t.histsize = s.histsize) : Views t win := by
  obtain ⟨e1, e2, e3, e4, e5, e6⟩ := he
  have hring (j x : Int) : t.ring j x = s.ring j x := by
    unfold Vt.ring
    rw [e1, e3, e5]
  refine ⟨by rw [e4, e5, e6]; exact h.full, fun j x h0 hx => ?_, fun y x hy0 hy h0 hx => ?_⟩
  · rw [hring]
    exact h.nonzero j x h0 (e3 ▸ hx)
  · rw [hring, e2]
    exact h.shows y x hy0 (e4 ▸ hy) h0 (e3 ▸ hx)

theorem Views.paints (h : Views s win) (hb : s.curoffs = s.offs) : Paints s win := by
  refine ⟨h.full, fun k x hk => h.nonzero _ x hk.left hk.right, fun k x hk h0 => ?_⟩
  unfold Vt.cell
  rw [h.shows k x h0 hk.high hk.left hk.right, hb]

theorem Paints.views (hp : Paints s win) (h : s.Frame P) (hb : s.curoffs = s.offs) : Views s win := by
  have htall := h.tall
  refine ⟨hp.full, fun j x h0 hx => ?_, fun y x hy0 hy h0 hx => ?_⟩
  · obtain ⟨k, hk, hj⟩ := h.in_rows j h0 hx
    rw [← ring_congr hj]
    exact hp.nonzero k x hk
  · rw [hp.shows y x ⟨by omega, hy, h0, hx⟩ hy0, hb]
    rfl

theorem Views.shown {d : VtWindow} (h : d.vt.Idle P) (hv : Views d.vt d.win) : d.Shown := by
  intro y x hy0 hy h0 hx
  have htall := h.toFrame.tall
  rw [hv.shows y x hy0 hy h0 hx, vt_screen_pos_row h.curoffs hy0 (by omega)]
  rfl

end WWindowSystem

namespace WWindowSystem

def ViewCall.Ghostless (s : Vt) : ViewCall → Prop
  | .output cp => AllSafe Vt.putc Vt.Ghostless s.started cp
  | .vmove _ => True

instance (s : Vt) : Decidable s.BlankMargin := inferInstanceAs (Decidable (_ → _))

instance Vt.Ghostless.decidable (s : Vt) (c : Byte) : Decidable (s.Ghostless c) :=
  inferInstanceAs (Decidable (_ → _ → _))

instance ViewCall.Ghostless.decidable (s : Vt) (e : ViewCall) : Decidable (e.Ghostless s) :=
  match e with
  | .output _ => inferInstanceAs (Decidable (AllSafe _ _ _ _))
  | .vmove _ => inferInstanceAs (Decidable True)

variable {s t : Vt} {win : WinCells} {d : VtWindow}

theorem putcs_paints {cp : List Byte} (h : d.vt.Live False) (hp : Paints d.vt d.win)
    (hs : AllSafe Vt.putc Vt.Ghostless d.vt cp) :
    (cp.foldl VtWindow.putc d).vt = cp.foldl Vt.putc d.vt ∧ (cp.foldl Vt.putc d.vt).Live False ∧
      Paints (cp.foldl VtWindow.putc d).vt (cp.foldl VtWindow.putc d).win := by
  induction cp generalizing d with
  | nil => exact ⟨rfl, h, hp⟩
  | cons c cp ih =>
    have hl := (putc_presents h c False.elim fun _ => hp.room).live
    exact ih (d := d.putc c) hl (putc_paints h hp hs.1) hs.2

theorem started_paints (h : s.Idle False) (hv : Views s win) :
    s.started.Live False ∧ Paints s.started (vt_vmove_win s 0 win) := by
  have hr := vt_vmove_rest h
  exact ⟨(started_presents h).live, ((hv.vmove h 0).paints hr.bottom).of_same ⟨rfl, rfl, rfl, rfl, rfl, rfl⟩⟩

theorem Views.cursor (hv : Views s win) : Views (vt_cursor_show s) win := by
  unfold vt_cursor_show
  split_ifs
  · exact hv.of_same ⟨rfl, rfl, rfl, rfl, rfl, rfl⟩
  · exact hv

theorem call_views (h : d.vt.Idle False) (hv : Views d.vt d.win) {e : ViewCall} (he : e.Ghostless d.vt) :
    (d.call e).vt.Idle False ∧ Views (d.call e).vt (d.call e).win := by
  cases e with
  | output cp =>
    obtain ⟨hl, hp⟩ := started_paints h hv
    obtain ⟨hvt, hl', hp'⟩ := putcs_paints (d := ⟨d.vt.started, vt_vmove_win d.vt 0 d.win⟩) hl hp he
    rw [← hvt] at hl'
    have hf := hl'.flush
    have hflush := (hp'.flush hl'.toFrame hl'.toFlushable).views hf.toFrame hf.bottom
    have hshow := (vt_cursor_show_steady hf.calm).idle hf.empty
    have hout : vt_output d.vt cp =
        vt_cursor_show (vt_flush (cp.foldl VtWindow.putc ⟨d.vt.started, vt_vmove_win d.vt 0 d.win⟩).vt) := by
      rw [hvt]
      rfl
    unfold VtWindow.call
    dsimp only
    rw [hout]
    exact ⟨hshow, hflush.cursor⟩
  | vmove offs => exact ⟨vt_vmove_idle h offs, hv.vmove h offs⟩

variable {o : VtOptions} {wd ht : Int} {l : List ViewCall}

theorem realize_views (hc : (o.Colors : Int) ≤ MAX_COLORS) :
    Views (VtWindow.realize o wd ht).vt (VtWindow.realize o wd ht).win := by
  obtain ⟨t, ht', he⟩ := vt_normal_repainted (s := { vt_create o with
    curon := true, autowrap := true
    touched := (List.range o.Colors).map (fun i : Nat => (⟨MAX_COLORS, i⟩ : Access)) ++ [] }) rfl hc
  have hblank : Views ((vt_cursor_on t).allocated wd ht (ht + o.histsize)) fun _ _ => DEF_BGCHAR := by
    obtain ⟨⟨_, _, _, _, _, rfl⟩, -, -⟩ := ht'
    refine ⟨rfl, fun j x _ _ => ?_, fun y x _ _ _ _ => rfl⟩
    change DEF_BGCHAR ≠ 0
    decide
  have hv : vt_realize o wd ht =
      { vt_cursor_show ((vt_cursor_on t).allocated wd ht (ht + o.histsize)) with is_realized := true } := by
    rw [← he]
    rfl
  unfold VtWindow.realize
  dsimp only
  rw [hv]
  exact hblank.cursor.of_same ⟨rfl, rfl, rfl, rfl, rfl, rfl⟩

/-- After each call, the window shows what is in the screen. -/
theorem window_shown (hc : (o.Colors : Int) ≤ MAX_COLORS) (hh : 0 ≤ o.histsize) (hwd : 1 ≤ wd) (hht : 1 ≤ ht)
    (hl : AllSafe VtWindow.call (fun d e => e.Ghostless d.vt) (VtWindow.realize o wd ht) l) :
    AllSafe VtWindow.call (fun d e => (d.call e).Shown) (VtWindow.realize o wd ht) l := by
  refine hl.imp (fun d => d.vt.Idle False ∧ Views d.vt d.win) (fun d e h hg => ?_)
    ⟨vt_realize_idle hc hwd hht hh, realize_views hc⟩
  have hcall := call_views h.1 h.2 hg
  exact ⟨hcall, hcall.2.shown hcall.1⟩

def clearedLine : List ViewCall := [.output [65, 66, 10, 67, 10, 68], .vmove 1, .output [8, 27, 75, 69]]

theorem window_shown_clearedLine : AllSafe VtWindow.call (fun d e => (d.call e).Shown) (VtWindow.realize colored 4 2)
    clearedLine :=
  window_shown (by decide) (by decide) (by decide) (by decide) (by decide +kernel)

def ghost : List ViewCall := [.output [65, 66, 67, 10, 68, 10, 69, 10, 70, 27, 119, 71, 72, 73, 74, 27, 75]]

theorem window_not_shown : ¬ AllSafe VtWindow.call (fun d e => (d.call e).Shown) (VtWindow.realize colored 4 2)
    ghost := by
  intro h
  exact absurd (h.1 1 3 (by decide +kernel) (by decide +kernel) (by decide +kernel) (by decide +kernel))
    (by decide +kernel)

end WWindowSystem
