import WWindowSystem.Wt.VtRun

namespace WWindowSystem

def Vt.line (s : Vt) (y : Int) : List Byte :=
  gridRow (fun y x => (s.screen (vt_screen_pos s x y)).c) s.wd.toNat y

def Vt.visible (s : Vt) : List (List Byte) := (List.range s.ht.toNat).map fun y : Nat => s.line y

def Vt.viewed (s : Vt) (k : Int) : Vt :=
  { s with curoffs := if s.offs - k < 0 then s.offs - k + s.screenht else s.offs - k }

def Vt.grid (s : Vt) : List (List Byte) := (s.viewed 0).visible

def Vt.history (s : Vt) : List (List Byte) :=
  (List.range s.curhistsize.toNat).map fun i : Nat => (s.viewed (s.curhistsize - i)).line 0

def Vt.terminal (s : Vt) : Terminal where
  wd := s.wd
  ht := s.ht
  histsize := s.histsize
  grid := s.grid
  history := s.history
  curx := s.curx
  cury := s.cury
  savx := s.savx
  savy := s.savy
  autowrap := s.autowrap
  params := s.params
  outfn := s.outfn

variable {P : Prop} {s t : Vt}

theorem line_eq (h : s.Idle P) {k : Int} (hk : s.curoffs % s.screenht = (s.offs - k) % s.screenht) {y : Int}
    (h0 : 0 ≤ y) (hy : y < s.ht) : s.line y = gridRow s.text s.wd.toNat (y - k) := by
  have hroom := h.room
  have hhist := h.hist
  apply gridRow_congr
  intro x _ _
  rw [vt_screen_pos_row h.curoffs h0 (by omega), text_of_nil h.empty]
  have hrow : (s.curoffs + y) % s.screenht = (s.offs + (y - k)) % s.screenht := by
    rw [Int.add_emod, hk, ← Int.add_emod]
    congr 1
    omega
  exact congrArg vtchar_t.c (ring_congr hrow x)

theorem visible_eq (h : s.Idle P) {k : Int} (hk : s.curoffs % s.screenht = (s.offs - k) % s.screenht) :
    s.visible = gridRows s.text s.wd.toNat (-k) s.ht.toNat := by
  apply List.map_congr_left
  intro y hy
  rw [List.mem_range] at hy
  rw [line_eq h hk (by omega) (by omega)]
  congr 1
  omega

theorem viewed_idle (h : s.Idle P) {k : Int} (h0 : 0 ≤ k) (hk : k ≤ s.curhistsize) :
    (s.viewed k).Idle P ∧ (s.viewed k).curoffs % s.screenht = (s.offs - k) % s.screenht := by
  have ho := h.offs
  have hht := h.ht
  have hroom := h.room
  constructor
  · apply h.view
    split_ifs <;> omega
  · unfold Vt.viewed
    dsimp only
    split_ifs
    · exact Int.add_emod_right _ _
    · rfl

theorem grid_eq (h : s.Idle P) : s.grid = gridRows s.text s.wd.toNat 0 s.ht.toNat := by
  obtain ⟨hi, hk⟩ := viewed_idle h (le_refl 0) h.hist
  exact visible_eq hi hk

theorem history_eq (h : s.Idle P) : s.history = gridRows s.text s.wd.toNat (-s.curhistsize) s.curhistsize.toNat := by
  apply List.map_congr_left
  intro i hi
  rw [List.mem_range] at hi
  obtain ⟨hv, hk⟩ := viewed_idle h (k := s.curhistsize - i) (by omega) (by omega)
  rw [line_eq hv hk (le_refl 0) h.ht]
  rw [show 0 - (s.curhistsize - (i : Int)) = -s.curhistsize + i by omega]
  rfl

theorem terminal_eq (h : s.Idle P) : s.terminal = s.shown := by
  unfold Vt.terminal
  rw [grid_eq h, history_eq h]
  rfl

theorem all_rows_eq (h : s.Idle P) : s.history ++ s.grid =
    gridRows s.text s.wd.toNat (-s.curhistsize) (s.curhistsize.toNat + s.ht.toNat) := by
  have hhist := h.hist
  rw [grid_eq h, history_eq h, gridRows_add, show -s.curhistsize + (s.curhistsize.toNat : Int) = 0 by omega]

theorem vt_vmove_visible (h : s.Idle P) {k : Int} (h0 : 0 ≤ k) (hk : k ≤ s.curhistsize) :
    (vt_vmove s k).visible = ((s.history ++ s.grid).drop (s.curhistsize - k).toNat).take s.ht.toNat := by
  obtain ⟨c, hc, he, hs⟩ := vt_vmove_spec h k
  have hi := vt_vmove_idle h k
  have hz : s.clamped k = k := by
    unfold Vt.clamped
    rw [if_neg (by omega), if_neg (by omega)]
  rw [hz] at he
  obtain ⟨-, ⟨⟨_, _, _, _, _, _, _, _, _, _, _, _, _, ht⟩, htext⟩, -⟩ := hs
  have hsame : (vt_vmove s k).curoffs = c ∧ (vt_vmove s k).offs = s.offs ∧ (vt_vmove s k).wd = s.wd ∧
      (vt_vmove s k).ht = s.ht ∧ (vt_vmove s k).screenht = s.screenht := by
    rw [ht]
    exact ⟨rfl, rfl, rfl, rfl, rfl⟩
  obtain ⟨e1, e2, e3, e4, e5⟩ := hsame
  have hroom := h.room
  have hht := h.ht
  rw [visible_eq hi (k := k) (by rw [e1, e2, e5]; exact he), e3, e4, all_rows_eq h,
    show s.curhistsize.toNat + s.ht.toNat = (s.curhistsize - k).toNat + (s.ht.toNat + k.toNat) by omega,
    gridRows_window]
  refine gridRows_congr fun i x hi' hx0 hx => ?_
  rw [htext _ x ⟨by dsimp only; omega, by dsimp only; omega, hx0, by dsimp only; omega⟩,
    show -s.curhistsize + ((s.curhistsize - k).toNat : Int) + i = -k + i by omega]
  rfl

structure Recut (s t : Vt) (wd ht : Int) : Prop where
  size : t.wd = max wd 1 ∧ t.ht = max ht 1
  grid : (t.grid.take (min s.ht t.ht).toNat).map (List.take (min s.wd t.wd).toNat) =
    (s.grid.take (min s.ht t.ht).toNat).map (List.take (min s.wd t.wd).toNat)
  history : t.history.map (List.take (min s.wd t.wd).toNat) = s.history.map (List.take (min s.wd t.wd).toNat)

theorem common_rows (f : Int → Int → Byte) {wd w ht h : Int} (hh : h ≤ ht) (hw : w ≤ wd) :
    ((gridRows f wd.toNat 0 ht.toNat).take h.toNat).map (List.take w.toNat) = gridRows f w.toNat 0 h.toNat := by
  rw [show ht.toNat = h.toNat + (ht.toNat - h.toNat) by omega, gridRows_take,
    gridRows_map_take f 0 _ (by omega)]

theorem Resized.recut {wd ht : Int} (hr : Resized s t wd ht) (h : s.Idle P) (h' : t.Idle P) : Recut s t wd ht := by
  have hhist := h.hist
  have hht := h.ht
  have hht' := h'.ht
  refine ⟨⟨hr.wd, hr.ht⟩, ?_, ?_⟩
  · rw [grid_eq h, grid_eq h', common_rows _ (by omega) (by omega), common_rows _ (by omega) (by omega)]
    exact gridRows_congr fun i x hi h0 hx => hr.text _ x (by omega) (by omega) h0 (by omega)
  · rw [history_eq h, history_eq h', gridRows_map_take _ _ _ (by omega), gridRows_map_take _ _ _ (by omega),
      hr.curhistsize]
    exact gridRows_congr fun i x hi h0 hx => hr.text _ x (by omega) (by omega) h0 (by omega)

def VtCall.Refines (s : Vt) : VtCall → Prop
  | .output cp => (vt_output s cp).terminal = s.terminal.output cp
  | .vmove k => (vt_vmove s k).terminal = s.terminal ∧ (0 ≤ k → k ≤ s.curhistsize →
      (vt_vmove s k).visible = ((s.history ++ s.grid).drop (s.curhistsize - k).toNat).take s.ht.toNat)
  | .resize wd ht screenht => Recut s (vt_resize s wd ht screenht) wd ht

theorem fits_only (s : Vt) (c : Byte) (h : s.Fits c) : (False → s.Colored c) ∧ s.Fits c := ⟨False.elim, h⟩

theorem vtCall_refines (h : s.Idle False) {e : VtCall} (hs : e.Safe Vt.Fits s) : e.Refines s := by
  have hi := vtCall_idle fits_only h hs
  cases e with
  | output cp => exact (terminal_eq hi).trans ((vt_output_spec fits_only h hs).2.trans
      (congrArg (fun t : Terminal => t.output cp) (terminal_eq h).symm))
  | vmove k => exact ⟨(terminal_eq hi).trans ((vt_vmove_shown h k).trans (terminal_eq h).symm),
      fun h0 hk => vt_vmove_visible h h0 hk⟩
  | resize wd ht screenht => exact (vt_resize_spec h hs).2.recut h hi

variable {o : VtOptions} {wd ht : Int} {l : List VtCall}

end WWindowSystem
