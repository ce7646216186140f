import WWindowSystem.Wt.VtState

namespace WWindowSystem

variable {P : Prop} {s t u v : Vt}

structure Erases (u t : Vt) (p : Int → Int → Bool) : Prop where
  drawn : Drawn u t
  cells : ∀ k x, u.InRows k x → t.cell k x = if p k x then u.stored DEF_BGCHAR else u.cell k x

variable {p q : Int → Int → Bool}

theorem Erases.trans (h : Erases u t p) (h' : Erases t v q) :
    Erases u v fun k x => p k x || q k x := by
  refine ⟨h.drawn.trans h'.drawn, fun k x hk => ?_⟩
  have h1 := h.cells k x hk
  obtain ⟨_, _, rfl, -⟩ := h.drawn
  have h2 := h'.cells k x ⟨hk.low, hk.high, hk.left, hk.right⟩
  rw [h2, h1]
  change (if q k x then u.stored DEF_BGCHAR else _) = _
  cases p k x <;> cases q k x <;> rfl

theorem Erases.congr (h : Erases u t p)
    (hpq : ∀ k x, u.InRows k x → p k x = q k x) : Erases u t q := by
  refine ⟨h.drawn, fun k x hk => ?_⟩
  rw [h.cells k x hk, hpq k x hk]

theorem rows_congr {y k x : Int} (hk : s.InRows k x) (hy : s.ht - s.screenht ≤ y ∧ y < s.ht) :
    (s.offs + k) % s.screenht = (s.offs + y) % s.screenht ↔ k = y := by
  refine ⟨fun he => ?_, fun he => by rw [he]⟩
  have := row_inj he (by have := hk.high; omega) (by have := hk.low; omega)
  omega

theorem blankCells_erases (h : u.Frame P) {n : Nat} {y x : Int} (hy : u.ht - u.screenht ≤ y ∧ y < u.ht)
    (h0 : 0 ≤ x) (hx : x + n ≤ u.wd) : ∃ t, blankCells n u (rowStart u.wd u.screenht (u.offs + y) + x) =
        (t, rowStart u.wd u.screenht (u.offs + y) + (x + n)) ∧
      Erases u t fun k x' => decide (k = y ∧ x ≤ x' ∧ x' < x + n) := by
  obtain ⟨t, he, hd, hr⟩ := blankCells_spec n h.sized (u.offs + y) h0 hx
  refine ⟨t, he, hd, fun k x' hk => ?_⟩
  have hcell := hr (u.offs + k) x' hk.left hk.right
  simp only [rows_congr hk hy] at hcell
  obtain ⟨_, _, rfl, -⟩ := hd
  simp only [decide_eq_true_eq]
  exact hcell

variable {y : Int}

theorem blankRows_erases (h : u.Frame P) {n : Nat} (h0 : u.ht - u.screenht ≤ y) (hy : y + n ≤ u.ht) :
    ∃ t, blankRows n u (rowStart u.wd u.screenht (u.offs + y)) = (t, rowStart u.wd u.screenht (u.offs + (y + n))) ∧
      Erases u t fun k _ => decide (y ≤ k ∧ k < y + n) := by
  obtain ⟨t, he, hd, hr⟩ := blankRows_spec n h.sized (u.offs + (u.ht - u.screenht)) (j := u.offs + y)
    (by omega) (by omega)
  refine ⟨t, by rw [he, Int.add_assoc], hd, fun k x hk => ?_⟩
  have h1 := hk.low
  have h2 := hk.high
  have hcell := hr (u.offs + k) x (by omega) (by omega) hk.left hk.right
  have hiff : (u.offs + y ≤ u.offs + k ∧ u.offs + k < u.offs + y + n) ↔ (y ≤ k ∧ k < y + n) := by omega
  simp only [hiff] at hcell
  obtain ⟨_, _, rfl, -⟩ := hd
  simp only [decide_eq_true_eq]
  exact hcell

theorem vt_screen_pos_bottom (h : u.Frame P) (hb : u.curoffs = u.offs) (h0 : 0 ≤ y) (hy : y < u.ht)
    (x : Int) : vt_screen_pos u x y = rowStart u.wd u.screenht (u.offs + y) + x := by
  have := h.room
  have := h.hist
  rw [vt_screen_pos_row h.curoffs h0 (by omega), hb]

theorem vt_clear_screen_spec (h : s.Live P) : Erases (vt_flush s) (vt_clear_screen s) fun k _ => decide (0 ≤ k) := by
  have hu := h.flush
  unfold vt_clear_screen
  generalize vt_flush s = u at hu
  have hht := hu.ht
  have hroom := hu.room
  have hhist := hu.hist
  dsimp only
  rw [vt_screen_pos_bottom hu.toFrame hu.bottom (le_refl 0) hht, Int.add_zero]
  obtain ⟨t, he, ht⟩ := blankRows_erases hu.toFrame (n := u.ht.toNat) (y := 0) (by omega) (by omega)
  rw [he]
  apply ht.congr
  intro k x hk
  have := hk.high
  simp only [decide_eq_decide]
  omega

theorem vt_clear_eol_spec (h : s.Live P) : Erases (vt_flush s) (vt_clear_eol s) fun k x =>
      decide (k = (vt_flush s).cury ∧ (vt_flush s).curx ≤ x) := by
  have hu := h.flush
  unfold vt_clear_eol
  generalize vt_flush s = u at hu
  have hx := hu.x
  have hy := hu.y
  have hroom := hu.room
  have hhist := hu.hist
  dsimp only
  rw [vt_screen_pos_bottom hu.toFrame hu.bottom hy.1 hy.2]
  obtain ⟨t, he, ht⟩ := blankCells_erases hu.toFrame (n := (u.wd - u.curx).toNat) (y := u.cury)
    (by omega) hx.1 (by omega)
  rw [he]
  apply ht.congr
  intro k x hk
  have := hk.right
  simp only [decide_eq_decide]
  omega

theorem vt_clear_sol_spec (h : s.Live P) : Erases (vt_flush s) (vt_clear_sol s) fun k x =>
      decide (k = (vt_flush s).cury ∧ x < (vt_flush s).curx) := by
  have hu := h.flush
  unfold vt_clear_sol
  generalize vt_flush s = u at hu
  have hx := hu.x
  have hy := hu.y
  have hroom := hu.room
  have hhist := hu.hist
  dsimp only
  rw [vt_screen_pos_bottom hu.toFrame hu.bottom hy.1 hy.2]
  obtain ⟨t, he, ht⟩ := blankCells_erases hu.toFrame (n := u.curx.toNat) (y := u.cury)
    (by omega) (le_refl 0) (by omega)
  rw [he]
  apply ht.congr
  intro k x hk
  have := hk.left
  simp only [decide_eq_decide]
  omega

theorem vt_clear_eop_spec (h : s.Live P) : Erases (vt_flush s) (vt_clear_eop s) fun k x =>
      decide (k = (vt_flush s).cury ∧ (vt_flush s).curx ≤ x ∨ (vt_flush s).cury < k) := by
  have hu := h.flush
  unfold vt_clear_eop
  generalize vt_flush s = u at hu
  have hx := hu.x
  have hy := hu.y
  have hroom := hu.room
  have hhist := hu.hist
  dsimp only
  rw [vt_screen_pos_bottom hu.toFrame hu.bottom hy.1 hy.2]
  obtain ⟨t, he, ht⟩ := blankCells_erases hu.toFrame (n := (u.wd - u.curx).toNat) (y := u.cury)
    (by omega) hx.1 (by omega)
  have hf := ht.drawn.frame hu.toFrame
  rw [he, show u.curx + (u.wd - u.curx).toNat = u.wd by omega]
  dsimp only
  obtain ⟨scr, acc, rfl, -⟩ := ht.drawn
  have hnl : vt_screen_nl (u.draw scr acc) (rowStart u.wd u.screenht (u.offs + u.cury) + u.wd) =
      rowStart u.wd u.screenht (u.offs + (u.cury + 1)) := by
    rw [← Int.add_assoc]
    exact vt_screen_nl_row hf.sized _
  obtain ⟨t', he', ht'⟩ := blankRows_erases hf (n := (u.ht - (u.cury + 1)).toNat) (y := u.cury + 1)
    (show u.ht - u.screenht ≤ u.cury + 1 by omega) (show u.cury + 1 + (u.ht - (u.cury + 1)).toNat ≤ u.ht by omega)
  rw [hnl]
  change Erases u (blankRows _ _ (rowStart (u.draw scr acc).wd (u.draw scr acc).screenht _)).1 _
  rw [show u.offs = (u.draw scr acc).offs from rfl, he']
  apply (ht.trans ht').congr
  intro k x hk
  have := hk.high
  have := hk.right
  rw [← Bool.decide_or, decide_eq_decide]
  omega

theorem vt_clear_sop_spec (h : s.Live P) : Erases (vt_flush s) (vt_clear_sop s) fun k x =>
      decide (0 ≤ k ∧ k < (vt_flush s).cury ∨ k = (vt_flush s).cury ∧ x < (vt_flush s).curx) := by
  have hu := h.flush
  unfold vt_clear_sop
  generalize vt_flush s = u at hu
  have hx := hu.x
  have hy := hu.y
  have hroom := hu.room
  have hhist := hu.hist
  dsimp only
  rw [vt_screen_pos_bottom hu.toFrame hu.bottom (le_refl 0) hu.ht, Int.add_zero]
  obtain ⟨t, he, ht⟩ := blankRows_erases hu.toFrame (n := u.cury.toNat) (y := 0) (by omega) (by omega)
  have hf := ht.drawn.frame hu.toFrame
  rw [he, show u.offs + (0 + u.cury.toNat) = u.offs + u.cury by omega]
  dsimp only
  obtain ⟨scr, acc, rfl, -⟩ := ht.drawn
  obtain ⟨t', he', ht'⟩ := blankCells_erases hf (n := u.curx.toNat) (y := u.cury) (x := 0)
    (show u.ht - u.screenht ≤ u.cury ∧ u.cury < u.ht by omega) (le_refl 0)
    (show 0 + (u.curx.toNat : Int) ≤ u.wd by omega)
  rw [Int.add_zero] at he'
  refine Erases.congr (p := fun k x => decide (0 ≤ k ∧ k < 0 + (u.cury.toNat : Int)) ||
    decide (k = u.cury ∧ 0 ≤ x ∧ x < 0 + (u.curx.toNat : Int))) ?_ ?_
  · exact (congrArg Prod.fst he').symm ▸ ht.trans ht'
  · intro k x hk
    have := hk.left
    rw [← Bool.decide_or, decide_eq_decide]
    omega

structure Moves (u t : Vt) (src : Int → Int) (fresh : Int) : Prop where
  drawn : Drawn u t
  cells : ∀ k x, u.InRows k x → t.cell k x =
    if k = fresh then u.stored DEF_BGCHAR else u.cell (src k) x

theorem blankRow_moves (h : u.Frame P) (hb : u.curoffs = u.offs) {src : Int → Int}
    (hd : Drawn u t) (fresh : Int) (hf : 0 ≤ fresh ∧ fresh < u.ht)
    (hc : ∀ k x, u.InRows k x → k ≠ fresh → t.cell k x = u.cell (src k) x) :
    Moves u (blankCells t.wd.toNat t (vt_screen_pos t 0 fresh)).1 src fresh := by
  have hwd := h.wd
  have hroom := h.room
  have hhist := h.hist
  have ht := hd.frame h
  obtain ⟨scr, acc, rfl, hacc, hv⟩ := hd
  rw [vt_screen_pos_bottom ht hb hf.1 hf.2]
  obtain ⟨t', he, hdr, hcells⟩ := blankCells_erases ht (n := (u.draw scr acc).wd.toNat) (y := fresh) (x := 0)
    (show u.ht - u.screenht ≤ fresh ∧ fresh < u.ht by omega) (le_refl 0)
    (show 0 + (u.wd.toNat : Int) ≤ u.wd by omega)
  rw [he]
  refine ⟨Drawn.trans ⟨_, _, rfl, hacc, hv⟩ hdr, fun k x hk => ?_⟩
  refine (hcells k x ⟨hk.low, hk.high, hk.left, hk.right⟩).trans ?_
  have hx := hk.left
  have hx' := hk.right
  change (if decide (k = fresh ∧ 0 ≤ x ∧ x < 0 + (u.wd.toNat : Int)) then u.stored DEF_BGCHAR else _) = _
  by_cases hkf : k = fresh
  · rw [if_pos hkf, if_pos (by simp only [decide_eq_true_eq]; omega)]
  · rw [if_neg hkf, if_neg (by simp only [decide_eq_true_eq]; omega)]
    exact hc k x hk hkf

theorem copyRowsBack_cells (h : u.Frame P) (hb : u.curoffs = u.offs) (h0 : 0 ≤ y) (hy : y < u.ht) :
    Drawn u (copyRowsBack (u.ht - 1 - y).toNat u (vt_screen_pos u (u.wd - 1) (u.ht - 2))
        (vt_screen_pos u (u.wd - 1) (u.ht - 1))) ∧ ∀ k x, u.InRows k x →
        (copyRowsBack (u.ht - 1 - y).toNat u (vt_screen_pos u (u.wd - 1) (u.ht - 2))
          (vt_screen_pos u (u.wd - 1) (u.ht - 1))).cell k x = u.cell (if y < k then k - 1 else k) x := by
  have hroom := h.room
  have hhist := h.hist
  by_cases hlast : y = u.ht - 1
  · rw [hlast, Int.sub_self]
    refine ⟨Drawn.refl u, fun k x hk => ?_⟩
    have := hk.high
    rw [if_neg (by omega)]
    rfl
  · rw [vt_screen_pos_bottom h hb (show 0 ≤ u.ht - 2 by omega) (by omega),
      vt_screen_pos_bottom h hb (show 0 ≤ u.ht - 1 by omega) (by omega),
      show u.offs + (u.ht - 1) = u.offs + (u.ht - 2) + 1 by omega]
    obtain ⟨hd, hr⟩ := copyRowsBack_spec (u.ht - 1 - y).toNat h.sized (u.offs + (u.ht - u.screenht))
      (j := u.offs + (u.ht - 2)) (by omega) (by omega) (by omega)
    refine ⟨hd, fun k x hk => ?_⟩
    have h1 := hk.low
    have h2 := hk.high
    have hcell := hr (u.offs + k) x (by omega) (by omega) hk.left hk.right
    generalize copyRowsBack _ u _ _ = t at hd hcell ⊢
    obtain ⟨_, _, rfl, -⟩ := hd
    refine hcell.trans ?_
    by_cases hyk : y < k
    · rw [if_pos hyk, if_pos (by omega), Int.add_sub_assoc]
      rfl
    · rw [if_neg hyk, if_neg (by omega)]
      rfl

theorem copyRows_cells (h : u.Frame P) (hb : u.curoffs = u.offs) (h0 : 0 ≤ y) (hy : y < u.ht - 1) :
    Drawn u (copyRows (u.ht - (y + 1)).toNat u (vt_screen_pos u 0 (y + 1)) (vt_screen_pos u 0 y)) ∧
      ∀ k x, u.InRows k x →
        (copyRows (u.ht - (y + 1)).toNat u (vt_screen_pos u 0 (y + 1)) (vt_screen_pos u 0 y)).cell k x =
          u.cell (if y ≤ k ∧ k < u.ht - 1 then k + 1 else k) x := by
  have hroom := h.room
  have hhist := h.hist
  rw [vt_screen_pos_bottom h hb (show 0 ≤ y + 1 by omega) (by omega),
    vt_screen_pos_bottom h hb h0 (by omega), Int.add_zero, Int.add_zero,
    show u.offs + y = u.offs + (y + 1) - 1 by omega]
  obtain ⟨hd, hr⟩ := copyRows_spec (u.ht - (y + 1)).toNat h.sized (u.offs + (u.ht - u.screenht))
    (j := u.offs + (y + 1)) (by omega) (by omega) (by omega)
  refine ⟨hd, fun k x hk => ?_⟩
  have h1 := hk.low
  have h2 := hk.high
  have hcell := hr (u.offs + k) x (by omega) (by omega) hk.left hk.right
  generalize copyRows _ u _ _ = t at hd hcell ⊢
  obtain ⟨_, _, rfl, -⟩ := hd
  refine hcell.trans ?_
  by_cases hyk : y ≤ k ∧ k < u.ht - 1
  · rw [if_pos hyk, if_pos (by omega), Int.add_assoc]
    rfl
  · rw [if_neg hyk, if_neg (by omega)]
    rfl

def insertSrc (y k : Int) : Int := if y < k then k - 1 else k
def deleteSrc (y ht k : Int) : Int := if y ≤ k ∧ k < ht - 1 then k + 1 else k

theorem vt_insert_line_spec (h : s.Live P) : ∃ t, vt_insert_line s = { t with curx := 0 } ∧
    Moves (vt_flush s) t (insertSrc (vt_flush s).cury) (vt_flush s).cury := by
  have hu := h.flush
  unfold vt_insert_line
  generalize vt_flush s = u at hu
  have hy := hu.y
  obtain ⟨hd, hc⟩ := copyRowsBack_cells hu.toFrame hu.bottom hy.1 hy.2
  dsimp only
  by_cases hlast : u.cury < u.ht - 1
  · rw [if_pos hlast]
    generalize copyRowsBack _ u _ _ = t at hd hc ⊢
    have hmoves := blankRow_moves hu.toFrame hu.bottom hd u.cury hy fun k x hk _ => hc k x hk
    obtain ⟨_, _, rfl, -⟩ := hd
    exact ⟨_, rfl, hmoves⟩
  · rw [if_neg hlast]
    refine ⟨_, rfl, blankRow_moves hu.toFrame hu.bottom (Drawn.refl u) u.cury hy fun k x hk _ => ?_⟩
    have := hk.high
    rw [insertSrc, if_neg (by omega)]

theorem vt_rev_index_spec (h : s.Live P) : if (vt_flush s).cury = 0 then
      Moves (vt_flush s) (vt_rev_index s) (insertSrc (vt_flush s).cury) (vt_flush s).cury
    else vt_rev_index s = { vt_flush s with cury := (vt_flush s).cury - 1 } := by
  have hu := h.flush
  unfold vt_rev_index
  generalize vt_flush s = u at hu
  have hy := hu.y
  dsimp only
  split_ifs with h0 hneg
  · have hsame : ({ u with cury := 0 } : Vt) = u := by
      rw [← h0]
    rw [hsame, h0]
    obtain ⟨hd, hc⟩ := copyRowsBack_cells hu.toFrame hu.bottom (le_refl 0) (by omega)
    generalize copyRowsBack _ u _ _ = t at hd hc ⊢
    have hmoves := blankRow_moves hu.toFrame hu.bottom hd 0 ⟨le_refl 0, by omega⟩ fun k x hk _ => hc k x hk
    have ht : t.cury = 0 := by
      obtain ⟨_, _, rfl, -⟩ := hd
      exact h0
    rw [ht]
    exact hmoves
  · omega
  · omega
  · rfl

theorem vt_delete_line_spec (h : s.Live P) : ∃ t, vt_delete_line s = { t with curx := 0 } ∧
    Moves (vt_flush s) t (deleteSrc (vt_flush s).cury (vt_flush s).ht) ((vt_flush s).ht - 1) := by
  have hu := h.flush
  unfold vt_delete_line
  generalize vt_flush s = u at hu
  have hy := hu.y
  have hht := hu.ht
  dsimp only
  by_cases hlast : u.cury < u.ht - 1
  · rw [if_pos hlast]
    obtain ⟨hd, hc⟩ := copyRows_cells hu.toFrame hu.bottom hy.1 hlast
    generalize copyRows _ u _ _ = t at hd hc ⊢
    have hmoves := blankRow_moves hu.toFrame hu.bottom hd (u.ht - 1) (by omega)
      fun k x hk _ => hc k x hk
    obtain ⟨_, _, rfl, -⟩ := hd
    exact ⟨_, rfl, hmoves⟩
  · rw [if_neg hlast]
    refine ⟨_, rfl, blankRow_moves hu.toFrame hu.bottom (Drawn.refl u) (u.ht - 1) (by omega) fun k x hk _ => ?_⟩
    rw [deleteSrc, if_neg (by omega)]

def Vt.scrolled (u : Vt) (offs : Int) : Vt :=
  { u with
    offs, curoffs := offs
    curhistsize := if u.curhistsize < u.histsize then u.curhistsize + 1 else u.curhistsize }

theorem vt_scroll_spec (h : u.Frame P) (hnil : u.outbuf = [])
    (hroom : u.curhistsize < u.histsize → u.curhistsize < u.screenht - u.ht) :
    ∃ offs, (u.scrolled offs).Frame P ∧ Drawn (u.scrolled offs) (vt_scroll u) ∧
      ∀ k x, u.InRows k x → (vt_scroll u).cell k x =
        if k = u.ht - 1 then u.stored DEF_BGCHAR else u.cell (k + 1) x := by
  have hroom' := h.room
  have hhist := h.hist
  have hht := h.ht
  have hwd := h.wd
  have ho := h.offs
  unfold vt_scroll
  rw [vt_flush_nil hnil]
  dsimp only
  generalize hoffs : (if u.offs + 1 ≥ u.screenht then u.offs + 1 - u.screenht else u.offs + 1) = offs
  have hin : 0 ≤ offs ∧ offs < u.screenht := by
    rw [← hoffs]
    split_ifs <;> omega
  -- row `k` is the row that was behind it
  have hrow (k : Int) : (offs + k) % u.screenht = (u.offs + (k + 1)) % u.screenht := by
    rw [← hoffs]
    split_ifs
    · rw [show u.offs + (k + 1) = u.offs + 1 - u.screenht + k + u.screenht by omega, Int.add_emod_right]
    · rw [show u.offs + 1 + k = u.offs + (k + 1) by omega]
  have hf : (u.scrolled offs).Frame P := by
    refine ⟨hwd, hht, ?_, ?_, ?_, hin, hin, h.saved, h.params, fun hP =>
      (h.clean hP).next rfl (fun _ ha => Or.inl ha) fun v hv => ⟨v, hv, rfl, rfl⟩⟩
    · unfold Vt.scrolled
      dsimp only
      split_ifs <;> omega
    · unfold Vt.scrolled
      dsimp only
      split_ifs with hlt
      · have := hroom hlt
        omega
      · exact hroom'
    · have := h.most
      unfold Vt.scrolled
      dsimp only
      split_ifs <;> omega
  obtain ⟨t, he, ht⟩ := blankCells_erases hf (n := u.wd.toNat) (y := u.ht - 1) (x := 0)
    (show u.ht - u.screenht ≤ u.ht - 1 ∧ u.ht - 1 < u.ht by omega) (le_refl 0)
    (show 0 + (u.wd.toNat : Int) ≤ u.wd by omega)
  refine ⟨offs, hf, ?_⟩
  change Drawn _ (blankCells u.wd.toNat (u.scrolled offs) (vt_screen_pos (u.scrolled offs) 0 (u.ht - 1))).1 ∧
    ∀ k x, _ → Vt.cell (blankCells u.wd.toNat (u.scrolled offs)
      (vt_screen_pos (u.scrolled offs) 0 (u.ht - 1))).1 k x = _
  rw [vt_screen_pos_bottom hf rfl (show 0 ≤ u.ht - 1 by omega) (show u.ht - 1 < u.ht by omega), he]
  refine ⟨ht.drawn, fun k x hk => ?_⟩
  have h1 := hk.left
  have h2 := hk.right
  refine (ht.cells k x ⟨hk.low, hk.high, h1, h2⟩).trans ?_
  by_cases hlast : k = u.ht - 1
  · rw [if_pos hlast, if_pos (by simp only [decide_eq_true_eq]; omega)]
    rfl
  · rw [if_neg hlast, if_neg (by simp only [decide_eq_true_eq]; omega)]
    exact ring_congr (hrow k) x

end WWindowSystem
