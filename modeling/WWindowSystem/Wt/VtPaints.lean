import WWindowSystem.Wt.VtWindow

namespace WWindowSystem

structure Paints (s : Vt) (win : WinCells) : Prop where
  full : s.screenht = s.ht + s.histsize
  nonzero : ∀ k x, s.InRows k x → (s.cell k x).c ≠ 0
  shows : ∀ k x, s.InRows k x → 0 ≤ k → win k x = (s.cell k x).c

variable {P : Prop} {s t u : Vt} {win win' : WinCells}

theorem Paints.of_same (h : Paints s win) (he : t.screen = s.screen ∧ t.offs = s.offs ∧ t.wd = s.wd ∧ t.ht = s.ht ∧
    t.screenht = s.screenht ∧ t.histsize = s.histsize) : Paints t win := by
  obtain ⟨e1, e2, e3, e4, e5, e6⟩ := he
  have hcell (k x : Int) : t.cell k x = s.cell k x := by
    unfold Vt.cell Vt.ring
    rw [e1, e2, e3, e5]
  have hrows {k x : Int} (hk : t.InRows k x) : s.InRows k x := by
    refine ⟨?_, ?_, hk.left, ?_⟩
    · rw [← e4, ← e5]
      exact hk.low
    · rw [← e4]
      exact hk.high
    · rw [← e3]
      exact hk.right
  refine ⟨by rw [e4, e5, e6]; exact h.full, fun k x hk => ?_, fun k x hk h0 => ?_⟩
  · rw [hcell]
    exact h.nonzero k x (hrows hk)
  · rw [hcell]
    exact h.shows k x (hrows hk) h0

theorem takeWhile_nonzero {s : List Byte} (h : 0 ∉ s) : s.takeWhile (· ≠ 0) = s := by
  rw [List.takeWhile_eq_self_iff]
  intro c hc
  simpa using fun h0 : c = 0 => h (h0 ▸ hc)

theorem w_printstring_eq {str : List Byte} (h : 0 ∉ str) (x y k x' : Int) : w_printstring win x y str k x' =
    if k = y ∧ x ≤ x' ∧ x' < x + str.length then str.getD (x' - x).toNat 0 else win k x' := by
  unfold w_printstring
  rw [takeWhile_nonzero h]

theorem vt_flush_win_eq (h : 0 ∉ s.outbuf) (k x : Int) : vt_flush_win s win k x =
    if k = s.outy ∧ s.outx ≤ x ∧ x < s.outx + s.outbuf.length then s.outbuf.getD (x - s.outx).toNat 0 else win k x := by
  unfold vt_flush_win
  split_ifs with hnil hk hk
  · rw [hnil, List.length_nil] at hk
    omega
  · rfl
  · rw [w_printstring_eq h, if_pos hk]
  · rw [w_printstring_eq h, if_neg hk]

theorem Paints.flush (hp : Paints s win) (h : s.Frame P) (hf : s.Flushable) :
    Paints (vt_flush s) (vt_flush_win s win) := by
  obtain ⟨t, hd, he, hcells⟩ := vt_flush_spec h hf
  obtain ⟨_, _, rfl, -⟩ := hd
  rw [he]
  have hc (k x : Int) (hk : s.InRows k x) := congrArg vtchar_t.c (hcells k x hk)
  refine ⟨hp.full, fun k x hk => ?_, fun k x hk h0 => ?_⟩
  · have hk' : s.InRows k x := ⟨hk.low, hk.high, hk.left, hk.right⟩
    refine (hc k x hk').trans_ne ?_
    split_ifs with hin
    · intro hz
      have hlt : (x - s.outx).toNat < s.outbuf.length := by omega
      rw [List.getD_eq_getElem _ _ hlt] at hz
      exact hf.nonzero (hz ▸ List.getElem_mem hlt)
    · exact hp.nonzero k x hk'
  · have hk' : s.InRows k x := ⟨hk.low, hk.high, hk.left, hk.right⟩
    refine Eq.trans ?_ (hc k x hk').symm
    rw [vt_flush_win_eq hf.nonzero, apply_ite vtchar_t.c, hp.shows k x hk' h0]
    rfl

theorem Erases.paints {p : Int → Int → Bool} (he : Erases u t p) (hp : Paints u win)
    (hw : ∀ k x, u.InRows k x → 0 ≤ k → win' k x = if p k x then DEF_BGCHAR else win k x) : Paints t win' := by
  have hcells := he.cells
  obtain ⟨_, _, rfl, -⟩ := he.drawn
  have hc (k x : Int) (hk : u.InRows k x) := congrArg vtchar_t.c (hcells k x hk)
  refine ⟨hp.full, fun k x hk => ?_, fun k x hk h0 => ?_⟩
  · have hk' : u.InRows k x := ⟨hk.low, hk.high, hk.left, hk.right⟩
    refine (hc k x hk').trans_ne ?_
    split_ifs
    · exact (show DEF_BGCHAR ≠ 0 by decide)
    · exact hp.nonzero k x hk'
  · have hk' : u.InRows k x := ⟨hk.low, hk.high, hk.left, hk.right⟩
    refine Eq.trans ?_ (hc k x hk').symm
    rw [hw k x hk' h0, apply_ite vtchar_t.c, hp.shows k x hk' h0]
    rfl

theorem Moves.paints {src : Int → Int} {fresh : Int} (hm : Moves u t src fresh) (hp : Paints u win)
    (hsrc : ∀ k x, u.InRows k x → k ≠ fresh → u.InRows (src k) x ∧ (0 ≤ k → 0 ≤ src k))
    (hw : ∀ k x, u.InRows k x → 0 ≤ k → win' k x = if k = fresh then DEF_BGCHAR else win (src k) x) :
    Paints t win' := by
  have hcells := hm.cells
  obtain ⟨_, _, rfl, -⟩ := hm.drawn
  have hc (k x : Int) (hk : u.InRows k x) := congrArg vtchar_t.c (hcells k x hk)
  refine ⟨hp.full, fun k x hk => ?_, fun k x hk h0 => ?_⟩
  · have hk' : u.InRows k x := ⟨hk.low, hk.high, hk.left, hk.right⟩
    refine (hc k x hk').trans_ne ?_
    split_ifs with hf
    · exact (show DEF_BGCHAR ≠ 0 by decide)
    · exact hp.nonzero _ x (hsrc k x hk' hf).1
  · have hk' : u.InRows k x := ⟨hk.low, hk.high, hk.left, hk.right⟩
    refine Eq.trans ?_ (hc k x hk').symm
    rw [hw k x hk' h0]
    split_ifs with hf
    · rfl
    · obtain ⟨h1, h2⟩ := hsrc k x hk' hf
      exact hp.shows _ x h1 (h2 h0)

theorem flush_rows (h : s.Live P) {k x : Int} (hk : (vt_flush s).InRows k x) : s.InRows k x := by
  obtain ⟨_, _, he⟩ := vt_flush_draw h.toFrame h.toFlushable
  rw [he] at hk
  exact ⟨hk.low, hk.high, hk.left, hk.right⟩

theorem flush_behind (h : s.Live P) {k x : Int} (hk : k ≠ s.cury ∨ s.curx ≤ x) : vt_flush_win s win k x = win k x := by
  rw [vt_flush_win_eq h.nonzero, if_neg]
  intro hin
  by_cases hnil : s.outbuf = []
  · rw [hnil, List.length_nil] at hin
    omega
  · obtain ⟨h1, h2⟩ := h.pending hnil
    omega

theorem vt_clear_screen_paints (h : s.Live P) (hp : Paints s win) :
    Paints (vt_clear_screen s) (vt_clear_screen_win s win) := by
  apply (vt_clear_screen_spec h).paints (hp.flush h.toFrame h.toFlushable)
  intro k x hk h0
  obtain ⟨-, h1, h2, h3⟩ := flush_rows h hk
  unfold vt_clear_screen_win w_pbox
  rw [if_pos (by omega), if_pos (by rw [decide_eq_true_eq]; exact h0)]

def Vt.BlankMargin (s : Vt) : Prop :=
  s.curx = s.wd - 1 → (s.screen (vt_screen_pos s s.curx s.cury)).c = DEF_BGCHAR

theorem cursor_blank (h : s.Live P) (hp : Paints s win) (hb : s.BlankMargin) (hx : s.curx = s.wd - 1) :
    vt_flush_win s win s.cury s.curx = DEF_BGCHAR := by
  have hcx := h.x
  have hcy := h.y
  have hroom := h.room
  have hhist := h.hist
  have hblank := hb hx
  rw [vt_screen_pos_bottom h.toFrame h.bottom hcy.1 hcy.2] at hblank
  rw [flush_behind h (Or.inr (le_refl _)), hp.shows _ _ ⟨by omega, hcy.2, hcx.1, hcx.2⟩ hcy.1]
  exact hblank

theorem vt_clear_eol_paints (h : s.Live P) (hp : Paints s win) (hb : s.BlankMargin) :
    Paints (vt_clear_eol s) (vt_clear_eol_win s win) := by
  have hx := h.x
  have he := vt_clear_eol_spec h
  rw [(flush_cursor h).1, (flush_cursor h).2] at he
  apply he.paints (hp.flush h.toFrame h.toFlushable)
  intro k x hk h0
  obtain ⟨-, h1, h2, h3⟩ := flush_rows h hk
  unfold vt_clear_eol_win w_pbox
  simp only [decide_eq_true_eq]
  by_cases hlt : s.curx < s.wd - 1
  · rw [if_pos hlt]
    exact if_congr (by omega) rfl rfl
  · rw [if_neg hlt]
    split_ifs with hin
    · rw [hin.1, show x = s.curx by omega]
      exact cursor_blank h hp hb (by omega)
    · rfl

theorem vt_clear_eop_paints (h : s.Live P) (hp : Paints s win) (hb : s.BlankMargin) :
    Paints (vt_clear_eop s) (vt_clear_eop_win s win) := by
  have hx := h.x
  have hy := h.y
  have he := vt_clear_eop_spec h
  rw [(flush_cursor h).1, (flush_cursor h).2] at he
  apply he.paints (hp.flush h.toFrame h.toFlushable)
  intro k x hk h0
  obtain ⟨-, h1, h2, h3⟩ := flush_rows h hk
  -- the rows below the one of the cursor
  have hbelow : (if s.cury < s.ht - 1 then w_pbox (vt_flush_win s win) 0 (s.cury + 1) s.wd (s.ht - 1 - s.cury)
      else vt_flush_win s win) k x = if s.cury < k then DEF_BGCHAR else vt_flush_win s win k x := by
    unfold w_pbox
    by_cases hlt : s.cury < s.ht - 1
    · rw [if_pos hlt]
      exact if_congr (by omega) rfl rfl
    · rw [if_neg hlt, if_neg (by omega)]
  unfold vt_clear_eop_win
  simp only [decide_eq_true_eq]
  by_cases hlt : s.curx < s.wd - 1
  · rw [if_pos hlt]
    unfold w_pbox at hbelow ⊢
    rw [hbelow]
    split_ifs <;> first | rfl | omega
  · rw [if_neg hlt, hbelow]
    split_ifs with h4 h5 h5
    · rfl
    · omega
    · rw [show k = s.cury by omega, show x = s.curx by omega]
      exact cursor_blank h hp hb (by omega)
    · rfl

theorem vt_clear_sol_paints (h : s.Live P) (hp : Paints s win) : Paints (vt_clear_sol s) (vt_clear_sol_win s win) := by
  have hx := h.x
  have he := vt_clear_sol_spec h
  rw [(flush_cursor h).1, (flush_cursor h).2] at he
  apply he.paints (hp.flush h.toFrame h.toFlushable)
  intro k x hk h0
  obtain ⟨-, h1, h2, h3⟩ := flush_rows h hk
  unfold vt_clear_sol_win w_pbox
  simp only [decide_eq_true_eq]
  by_cases hlt : s.curx > 0
  · rw [if_pos hlt]
    exact if_congr (by omega) rfl rfl
  · rw [if_neg hlt, if_neg (by omega)]

theorem vt_clear_sop_paints (h : s.Live P) (hp : Paints s win) : Paints (vt_clear_sop s) (vt_clear_sop_win s win) := by
  have hx := h.x
  have hy := h.y
  have he := vt_clear_sop_spec h
  rw [(flush_cursor h).1, (flush_cursor h).2] at he
  apply he.paints (hp.flush h.toFrame h.toFlushable)
  intro k x hk h0
  obtain ⟨-, h1, h2, h3⟩ := flush_rows h hk
  -- the rows above the one of the cursor
  have habove : (if s.cury > 0 then w_pbox (vt_flush_win s win) 0 0 s.wd s.cury
      else vt_flush_win s win) k x = if k < s.cury then DEF_BGCHAR else vt_flush_win s win k x := by
    unfold w_pbox
    by_cases hlt : s.cury > 0
    · rw [if_pos hlt]
      exact if_congr (by omega) rfl rfl
    · rw [if_neg hlt, if_neg (by omega)]
  unfold vt_clear_sop_win
  simp only [decide_eq_true_eq]
  by_cases hlt : s.curx > 0
  · rw [if_pos hlt]
    unfold w_pbox at habove ⊢
    rw [habove]
    split_ifs <;> first | rfl | omega
  · rw [if_neg hlt, habove]
    split_ifs <;> first | rfl | omega

theorem insertSrc_rows {y : Int} (h0 : 0 ≤ y) (hroom : s.ht ≤ s.screenht) {k x : Int} (hk : s.InRows k x) :
    s.InRows (insertSrc y k) x ∧ (0 ≤ k → 0 ≤ insertSrc y k) := by
  obtain ⟨h1, h2, h3, h4⟩ := hk
  unfold insertSrc
  split_ifs
  · exact ⟨⟨by omega, by omega, h3, h4⟩, fun _ => by omega⟩
  · exact ⟨⟨h1, h2, h3, h4⟩, id⟩

theorem deleteSrc_rows {y ht : Int} (hht : ht = s.ht) {k x : Int} (hk : s.InRows k x) :
    s.InRows (deleteSrc y ht k) x ∧ (0 ≤ k → 0 ≤ deleteSrc y ht k) := by
  obtain ⟨h1, h2, h3, h4⟩ := hk
  unfold deleteSrc
  split_ifs
  · exact ⟨⟨by omega, by omega, h3, h4⟩, fun _ => by omega⟩
  · exact ⟨⟨h1, h2, h3, h4⟩, id⟩

theorem Vt.Frame.tall (h : s.Frame P) : s.ht ≤ s.screenht := by
  have := h.room
  have := h.hist
  omega

theorem insert_window (win : WinCells) {y k x : Int} (hk : s.InRows k x) :
    w_pbox (w_vscroll win y (s.ht - 1 - y) (y + 1)) 0 y s.wd 1 k x =
      if k = y then DEF_BGCHAR else win (insertSrc y k) x := by
  obtain ⟨-, h1, h2, h3⟩ := hk
  unfold w_pbox w_vscroll insertSrc
  by_cases hy : k = y
  · rw [if_pos (by omega), if_pos hy]
  · rw [if_neg (by omega), if_neg hy]
    by_cases hlt : y < k
    · rw [if_pos (by omega), if_pos hlt]
      congr 1
      omega
    · rw [if_neg (by omega), if_neg hlt]

theorem vt_insert_line_paints (h : s.Live P) (hp : Paints s win) :
    Paints (vt_insert_line s) (vt_insert_line_win s win) := by
  have hf := h.flush
  have hy := h.y
  obtain ⟨t, he, hm⟩ := vt_insert_line_spec h
  rw [(flush_cursor h).2] at hm
  have hpaint : Paints t (vt_insert_line_win s win) := by
    apply hm.paints (hp.flush h.toFrame h.toFlushable)
    · intro k x hk _
      exact insertSrc_rows hy.1 hf.toFrame.tall hk
    · intro k x hk h0
      have hk' := flush_rows h hk
      unfold vt_insert_line_win
      by_cases hlt : s.cury < s.ht - 1
      · rw [if_pos hlt]
        exact insert_window _ hk'
      · rw [if_neg hlt]
        obtain ⟨-, h1, h2, h3⟩ := hk'
        unfold w_pbox insertSrc
        rw [if_neg (show ¬ s.cury < k by omega)]
        exact if_congr (by omega) rfl rfl
  rw [he]
  exact hpaint.of_same ⟨rfl, rfl, rfl, rfl, rfl, rfl⟩

theorem vt_rev_index_paints (h : s.Live P) (hp : Paints s win) : Paints (vt_rev_index s) (vt_rev_index_win s win) := by
  have hf := h.flush
  have hy := h.y
  have hflush := hp.flush h.toFrame h.toFlushable
  have hspec := vt_rev_index_spec h
  rw [(flush_cursor h).2] at hspec
  unfold vt_rev_index_win
  by_cases h0 : s.cury = 0
  · rw [if_pos h0, h0] at hspec
    rw [if_pos (by omega)]
    apply hspec.paints hflush
    · intro k x hk _
      exact insertSrc_rows (le_refl 0) hf.toFrame.tall hk
    · intro k x hk hk0
      have hi := insert_window (vt_flush_win s win) (y := 0) (flush_rows h hk)
      rw [Int.sub_zero] at hi
      exact hi
  · rw [if_neg h0] at hspec
    rw [if_neg (by omega), hspec]
    exact hflush.of_same ⟨rfl, rfl, rfl, rfl, rfl, rfl⟩

theorem vt_delete_line_paints (h : s.Live P) (hp : Paints s win) :
    Paints (vt_delete_line s) (vt_delete_line_win s win) := by
  have hy := h.y
  obtain ⟨t, he, hm⟩ := vt_delete_line_spec h
  have hht : (vt_flush s).ht = s.ht := by
    obtain ⟨_, _, hd⟩ := vt_flush_draw h.toFrame h.toFlushable
    rw [hd]
    rfl
  rw [(flush_cursor h).2] at hm
  have hpaint : Paints t (vt_delete_line_win s win) := by
    apply hm.paints (hp.flush h.toFrame h.toFlushable)
    · intro k x hk _
      exact deleteSrc_rows rfl hk
    · intro k x hk h0
      obtain ⟨-, h1, h2, h3⟩ := flush_rows h hk
      rw [hht]
      unfold vt_delete_line_win w_pbox w_vscroll deleteSrc
      by_cases hk1 : k = s.ht - 1
      · rw [if_pos (by omega), if_pos hk1]
      · rw [if_neg (by omega), if_neg hk1]
        by_cases hlt : s.cury < s.ht - 1
        · rw [if_pos hlt]
          by_cases hle : s.cury ≤ k
          · rw [if_pos (by omega), if_pos (by omega)]
            congr 1
            omega
          · rw [if_neg (by omega), if_neg (by omega)]
        · rw [if_neg hlt, if_neg (by omega)]
  rw [he]
  exact hpaint.of_same ⟨rfl, rfl, rfl, rfl, rfl, rfl⟩

theorem Paints.room (hp : Paints s win) : s.Room := by
  intro hlt
  have := hp.full
  omega

theorem vt_scroll_paints (h : s.Frame P) (hnil : s.outbuf = []) (hp : Paints s win) :
    Paints (vt_scroll s) (vt_scroll_win s win) := by
  obtain ⟨offs, hf, hd, hcells⟩ := vt_scroll_spec h hnil hp.room
  have hw (k x : Int) (hk : s.InRows k x) (h0 : 0 ≤ k) :
      vt_scroll_win s win k x = if k = s.ht - 1 then DEF_BGCHAR else win (k + 1) x := by
    obtain ⟨-, h1, h2, h3⟩ := hk
    unfold vt_scroll_win w_pbox w_vscroll vt_flush_win
    rw [if_pos hnil]
    by_cases hk1 : k = s.ht - 1
    · rw [if_pos (by omega), if_pos hk1]
    · rw [if_neg (by omega), if_neg hk1, if_pos (by omega), Int.sub_zero]
  have hrow (k x : Int) (hk : (vt_scroll s).InRows k x) : s.InRows k x := by
    obtain ⟨_, _, he, -⟩ := hd
    rw [he] at hk
    exact ⟨hk.low, hk.high, hk.left, hk.right⟩
  have hnext {k x : Int} (hk : s.InRows k x) (hk1 : k ≠ s.ht - 1) : s.InRows (k + 1) x := by
    obtain ⟨h1, h2, h3, h4⟩ := hk
    exact ⟨by omega, by omega, h3, h4⟩
  refine ⟨?_, fun k x hk => ?_, fun k x hk h0 => ?_⟩
  · obtain ⟨_, _, he, -⟩ := hd
    rw [he]
    exact hp.full
  · rw [hcells k x (hrow k x hk)]
    split_ifs with hk1
    · exact (show DEF_BGCHAR ≠ 0 by decide)
    · exact hp.nonzero _ x (hnext (hrow k x hk) hk1)
  · rw [hcells k x (hrow k x hk), hw k x (hrow k x hk) h0]
    split_ifs with hk1
    · rfl
    · exact hp.shows _ x (hnext (hrow k x hk) hk1) (by omega)

theorem Vt.Frame.cursor (h : s.Frame P) (curx cury : Int) : ({ s with curx, cury } : Vt).Frame P :=
  ⟨h.wd, h.ht, h.hist, h.room, h.most, h.offs, h.curoffs, h.saved, h.params, fun hP =>
    (h.clean hP).next rfl (fun _ ha => Or.inl ha) fun v hv => ⟨v, hv, rfl, rfl⟩⟩

theorem nextRow_paints (h : s.Frame P) (hnil : s.outbuf = []) (hp : Paints s win) :
    Paints s.nextRow (s.nextRow_win win) := by
  unfold Vt.nextRow Vt.nextRow_win
  split_ifs
  · have hf := h.cursor s.curx (s.cury + 1)
    have hs := vt_scroll_paints hf hnil (hp.of_same ⟨rfl, rfl, rfl, rfl, rfl, rfl⟩)
    exact hs.of_same ⟨rfl, rfl, rfl, rfl, rfl, rfl⟩
  · exact hp.of_same ⟨rfl, rfl, rfl, rfl, rfl, rfl⟩

end WWindowSystem
