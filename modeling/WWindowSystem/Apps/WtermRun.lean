import WWindowSystem.Apps.Wterm

namespace WWindowSystem.Wterm

open List

variable {s t : Term} {c : Nat}

def Request.Inside (winw winh : Int) : Request → Prop
  | .pbox x y w h => (0 < w ∧ 0 ≤ x ∧ x + w ≤ winw) ∧ 0 < h ∧ 0 ≤ y ∧ y + h ≤ winh
  | .vscroll x y w h ny => ((0 < w ∧ 0 ≤ x ∧ x + w ≤ winw) ∧ 0 < h ∧ 0 ≤ y ∧ y + h ≤ winh) ∧ 0 ≤ ny ∧ ny + h ≤ winh
  | _ => True

/-- The cursor and the waiting text are in the window, and the last step has stayed inside the window and the parameters. -/
structure Good (s : Term) : Prop where
  cursor_x : 0 ≤ s.curx ∧ s.curx < s.col
  cursor_y : 0 ≤ s.cury ∧ s.cury < s.row
  text : s.sbuf ≠ [] → (0 ≤ s.sbufx ∧ s.sbufx + s.sbuf.length ≤ s.col) ∧ 0 ≤ s.sbufy ∧ s.sbufy < s.row
  room : s.sbuf.length ≤ SMALLBUFFER
  indexed : ∀ i ∈ s.indexed, i < MAX_PARAMETERS
  sent : ∀ r ∈ s.sent, r.Inside s.winw s.winh

structure Inv (s : Term) : Prop extends Good s where
  fonts : 1 ≤ s.fonw ∧ 1 ≤ s.fonh
  size : s.winw = s.col * s.fonw ∧ s.winh = s.row * s.fonh
  saved : 0 ≤ s.savx ∧ 0 ≤ s.savy
  params : s.params < MAX_PARAMETERS
  pending : s.sbuf ≠ [] → s.sbufx + s.sbuf.length = s.curx ∧ s.sbufy = s.cury
  escaped : s.escstate ≠ 0 → s.sbuf = []

theorem scaled {f a n size : Int} (hf : 1 ≤ f) (ha : 0 ≤ a) (hn : 0 < n) (h : a + n ≤ size) :
    0 < n * f ∧ 0 ≤ a * f ∧ a * f + n * f ≤ size * f := by
  refine ⟨Int.mul_pos hn (by omega), Int.mul_nonneg ha (by omega), ?_⟩
  rw [← Int.add_mul]
  exact Int.mul_le_mul_of_nonneg_right h (by omega)

theorem scaled_one {f a size : Int} (hf : 1 ≤ f) (ha : 0 ≤ a) (h : a < size) : 0 < f ∧ 0 ≤ a * f ∧ a * f + f ≤ size * f := by
  have hs := scaled hf ha Int.one_pos (by omega : a + 1 ≤ size)
  rwa [Int.one_mul] at hs

theorem Inv.width (h : Inv s) : 0 < s.winw ∧ (0 : Int) ≤ 0 ∧ 0 + s.winw ≤ s.winw := by
  have hs := scaled h.fonts.1 (Int.le_refl 0) (by have := h.cursor_x; omega : 0 < s.col) (by omega : 0 + s.col ≤ s.col)
  rw [← h.size.1] at hs
  omega

theorem Inv.height (h : Inv s) : 0 < s.winh ∧ (0 : Int) ≤ 0 ∧ 0 + s.winh ≤ s.winh := by
  have hs := scaled h.fonts.2 (Int.le_refl 0) (by have := h.cursor_y; omega : 0 < s.row) (by omega : 0 + s.row ≤ s.row)
  rw [← h.size.2] at hs
  omega

theorem Inv.cells (h : Inv s) {x n : Int} (hx : 0 ≤ x) (hn : 0 < n) (hle : x + n ≤ s.col) :
    0 < n * s.fonw ∧ 0 ≤ x * s.fonw ∧ x * s.fonw + n * s.fonw ≤ s.winw := by
  rw [h.size.1]
  exact scaled h.fonts.1 hx hn hle

theorem Inv.rows (h : Inv s) {y n : Int} (hy : 0 ≤ y) (hn : 0 < n) (hle : y + n ≤ s.row) :
    0 < n * s.fonh ∧ 0 ≤ y * s.fonh ∧ y * s.fonh + n * s.fonh ≤ s.winh := by
  rw [h.size.2]
  exact scaled h.fonts.2 hy hn hle

theorem Inv.line (h : Inv s) {y : Int} (hy : 0 ≤ y) (hlt : y < s.row) :
    0 < s.fonh ∧ 0 ≤ y * s.fonh ∧ y * s.fonh + s.fonh ≤ s.winh := by
  rw [h.size.2]
  exact scaled_one h.fonts.2 hy hlt

theorem Inv.first_rows (h : Inv s) {n : Int} (hn : 0 < n) (hle : n ≤ s.row) :
    0 < n * s.fonh ∧ (0 : Int) ≤ 0 ∧ 0 + n * s.fonh ≤ s.winh := by
  have hs := h.rows (Int.le_refl 0) hn (by omega)
  omega

theorem Inv.first_cells (h : Inv s) {n : Int} (hn : 0 < n) (hle : n ≤ s.col) :
    0 < n * s.fonw ∧ (0 : Int) ≤ 0 ∧ 0 + n * s.fonw ≤ s.winw := by
  have hs := h.cells (Int.le_refl 0) hn (by omega)
  omega

theorem Inv.first_line (h : Inv s) : 0 < s.fonh ∧ (0 : Int) ≤ 0 ∧ 0 + s.fonh ≤ s.winh := by
  have hs := h.line (Int.le_refl 0) (by have := h.cursor_y; omega)
  omega

theorem Inv.send (h : Inv s) {r : Request} (hr : r.Inside s.winw s.winh) : Inv (s.send r) :=
  { h with
    sent := by
      intro r' hr'
      rcases mem_append.mp hr' with h' | h'
      · exact h.sent r' h'
      · rw [mem_singleton.mp h']
        exact hr }

theorem Inv.moved (h : Inv s) (hs : s.sbuf = []) {x y : Int} (hx : 0 ≤ x ∧ x < s.col) (hy : 0 ≤ y ∧ y < s.row) :
    Inv { s with curx := x, cury := y } :=
  { h with cursor_x := hx, cursor_y := hy, pending := fun hne => absurd hs hne }

theorem Inv.state (h : Inv s) (hs : s.sbuf = []) (n : Nat) : Inv { s with escstate := n } := { h with escaped := fun _ => hs }

theorem Inv.index (h : Inv s) {l : List Nat} (hl : ∀ i ∈ l, i < MAX_PARAMETERS) : Inv (s.index l) :=
  { h with
    indexed := by
      intro i hi
      rcases mem_append.mp hi with h' | h'
      · exact h.indexed i h'
      · exact hl i h' }

theorem Inv.set_style (h : Inv s) (style : Nat) : Inv (set_style style s) :=
  Inv.send (s := { s with style := style }) { h with } trivial

theorem Inv.draw_cursor (h : Inv s) : Inv (draw_cursor s) := by
  unfold Wterm.draw_cursor
  split
  · exact h
  · have hmode : Inv (w_setmode .M_INVERS { s with curvis := true }) := Inv.send (s := { s with curvis := true }) { h with } trivial
    apply hmode.send
    refine ⟨?_, h.line h.cursor_y.1 h.cursor_y.2⟩
    rw [show (w_setmode .M_INVERS { s with curvis := true }).winw = s.col * s.fonw from h.size.1]
    exact scaled_one h.fonts.1 h.cursor_x.1 h.cursor_x.2

theorem Inv.hide_cursor (h : Inv s) : Inv (hide_cursor s) := by
  unfold Wterm.hide_cursor
  split
  · have hmode : Inv (w_setmode .M_INVERS { s with curvis := false }) := Inv.send (s := { s with curvis := false }) { h with } trivial
    apply hmode.send
    refine ⟨?_, h.line h.cursor_y.1 h.cursor_y.2⟩
    rw [show (w_setmode .M_INVERS { s with curvis := false }).winw = s.col * s.fonw from h.size.1]
    exact scaled_one h.fonts.1 h.cursor_x.1 h.cursor_x.2
  · exact h

theorem Inv.to_line_end (h : Inv s) :
    (Request.pbox (s.curx * s.fonw) (s.cury * s.fonh) ((s.col - s.curx) * s.fonw) s.fonh).Inside s.winw s.winh := by
  have hx := h.cursor_x
  exact ⟨h.cells hx.1 (by omega) (by omega), h.line h.cursor_y.1 h.cursor_y.2⟩

theorem Inv.from_line_start (h : Inv s) (hx : 0 < s.curx) :
    (Request.pbox 0 (s.cury * s.fonh) (s.curx * s.fonw) s.fonh).Inside s.winw s.winh := by
  have hc := h.cursor_x
  exact ⟨h.first_cells hx (by omega), h.line h.cursor_y.1 h.cursor_y.2⟩

theorem Inv.whole_line (h : Inv s) : (Request.pbox 0 (s.cury * s.fonh) s.winw s.fonh).Inside s.winw s.winh :=
  ⟨h.width, h.line h.cursor_y.1 h.cursor_y.2⟩

theorem Inv.last_line (h : Inv s) : (Request.pbox 0 ((s.row - 1) * s.fonh) s.winw s.fonh).Inside s.winw s.winh := by
  have hy := h.cursor_y
  exact ⟨h.width, h.line (by omega) (by omega)⟩

theorem Inv.change_bgmode (h : Inv s) (color : Bool) : Inv (change_bgmode color s) := by
  unfold Wterm.change_bgmode
  split
  · exact Inv.send (s := { s with bgmode := mode_of color, style := s.style ^^^ F_REVERSE }) { h with } trivial
  · exact h

theorem Inv.esc5 (h : Inv s) (hs : s.sbuf = []) : Inv (esc5 c s) := by
  unfold Wterm.esc5
  dsimp only
  split
  · split
    · exact (h.send (r := .setBackgroundColor (digit c)) trivial).state hs 0
    · exact h.state hs 0
  · refine (h.change_bgmode _).state ?_ 0
    unfold Wterm.change_bgmode
    split <;> exact hs

theorem Inv.esc4 (h : Inv s) (hs : s.sbuf = []) : Inv (esc4 c s) := by
  unfold Wterm.esc4
  dsimp only
  split
  · split
    · exact (h.send (r := .setForegroundColor (digit c)) trivial).state hs 0
    · exact h.state hs 0
  · refine (h.change_bgmode _).state ?_ 0
    unfold Wterm.change_bgmode
    split <;> exact hs

theorem clamp_inside {v size : Int} (h : 0 < size) : 0 ≤ clamp v size ∧ clamp v size < size := by
  unfold clamp
  split
  · omega
  · split <;> omega

theorem Inv.esc3 (h : Inv s) (hs : s.sbuf = []) : Inv (esc3 c s) := by
  have hx := h.cursor_x
  exact (h.moved hs (clamp_inside (by omega)) h.cursor_y).state hs 0

theorem Inv.esc2 (h : Inv s) (hs : s.sbuf = []) : Inv (esc2 c s) := by
  have hy := h.cursor_y
  exact (h.moved hs h.cursor_x (clamp_inside (by omega))).state hs 3

theorem Inv.clear_attributes (h : Inv s) : Inv (clear_attributes s) := by
  have hlook : ∀ {t : Term}, Inv t → ∀ style bgmode, Inv { w_settextstyle { t with style := style, bgmode := bgmode } with curon := true } :=
    fun {t} ht style bgmode =>
      have hsent : Inv (w_settextstyle { t with style := style, bgmode := bgmode }) :=
        Inv.send (s := { t with style := style, bgmode := bgmode }) { ht with } trivial
      { hsent with }
  unfold Wterm.clear_attributes
  dsimp only
  split
  · exact hlook ((h.send (r := .setBackgroundColor _) trivial).send (r := .setForegroundColor _) trivial) _ _
  · split
    · exact hlook h _ _
    · exact hlook h _ _

def scrolls (c : Nat) (s : Term) : Prop :=
  (s.escstate = 1 ∧ Char.ofNat c = 'I' ∧ s.cury = 0) ∨
    (s.escstate = 0 ∧ s.row ≤ s.cury + 1 ∧ (c = 10 ∨ (c ∉ [0, 7, 8, 9, 10, 13, 27, 127] ∧ s.wrap = true ∧ s.col ≤ s.curx + 1)))

theorem Inv.esc1_code (h : Inv s) (hs : s.sbuf = []) {ch : Char} (hscroll : ch = 'I' → s.cury = 0 → 2 ≤ s.row)
    (hsaved : ch = 'k' → s.savx < s.col ∧ s.savy < s.row) : Inv (esc1_code ch s) := by
  have hx := h.cursor_x
  have hy := h.cursor_y
  have hx0 : (0 : Int) ≤ 0 ∧ 0 < s.col := by omega
  have hy0 : (0 : Int) ≤ 0 ∧ 0 < s.row := by omega
  have hmode : Inv (w_setmode s.bgmode s) := h.send trivial
  unfold Wterm.esc1_code
  split
  · exact h.state hs 10
  · exact h.moved hs hx (by split <;> omega)
  · exact h.moved hs hx (by split <;> omega)
  · exact h.moved hs (by split <;> omega) hy
  · exact h.moved hs (by split <;> omega) hy
  · exact (hmode.send (r := .pbox 0 0 s.winw s.winh) ⟨h.width, h.height⟩).moved hs hx0 hy0
  · exact h.moved hs hx0 hy0
  · split
    · have hrow := hscroll rfl (by omega)
      have hhome := h.moved hs hx (y := 0) (by omega)
      have hmove : (Request.vscroll 0 0 s.winw ((s.row - 1) * s.fonh) s.fonh).Inside s.winw s.winh := by
        have hrows := h.rows (y := 1) (n := s.row - 1) (by omega) (by omega) (by omega)
        rw [Int.one_mul] at hrows
        exact ⟨⟨h.width, h.first_rows (by omega) (by omega)⟩, hrows.2⟩
      exact ((hhome.send hmove).send (r := .setmode s.bgmode) trivial).send (r := .pbox 0 0 s.winw s.fonh) ⟨h.width, h.first_line⟩
    · exact h.moved hs hx (by omega)
  · dsimp only
    split
    · have hbelow : (Request.pbox 0 ((s.cury + 1) * s.fonh) s.winw ((s.row - 1 - s.cury) * s.fonh)).Inside s.winw s.winh :=
        ⟨h.width, h.rows (by omega) (by rename_i hlt; have : s.cury < s.row - 1 := hlt; omega) (by omega)⟩
      exact (hmode.send hbelow).send h.to_line_end
    · exact hmode.send h.to_line_end
  · exact hmode.send h.to_line_end
  · dsimp only
    split
    · rename_i hlt
      have hmove : (Request.vscroll 0 (s.cury * s.fonh) s.winw ((s.row - 1 - s.cury) * s.fonh) ((s.cury + 1) * s.fonh)).Inside s.winw s.winh :=
        ⟨⟨h.width, h.rows hy.1 (by omega) (by omega)⟩, (h.rows (by omega) (by omega) (by omega)).2⟩
      exact (((h.send hmove).send (r := .setmode s.bgmode) trivial).send h.whole_line).moved hs hx0 hy
    · exact (hmode.send h.whole_line).moved hs hx0 hy
  · dsimp only
    split
    · rename_i hlt
      have hmove : (Request.vscroll 0 ((s.cury + 1) * s.fonh) s.winw ((s.row - 1 - s.cury) * s.fonh) (s.cury * s.fonh)).Inside s.winw s.winh :=
        ⟨⟨h.width, h.rows (by omega) (by omega) (by omega)⟩, (h.rows hy.1 (by omega) (by omega)).2⟩
      exact (((h.send hmove).send (r := .setmode s.bgmode) trivial).send h.last_line).moved hs hx0 hy
    · exact (hmode.send h.last_line).moved hs hx0 hy
  · exact h.state hs 2
  · exact h.state hs 4
  · exact h.state hs 5
  · have habove : 0 < s.cury → Inv (w_pbox 0 0 s.winw (s.cury * s.fonh) (w_setmode s.bgmode s)) := fun h0 =>
      hmode.send ⟨h.width, h.first_rows h0 (by omega)⟩
    dsimp only
    split
    · rename_i h0
      split
      · rename_i h1
        exact (habove h0).send (h.from_line_start h1)
      · exact habove h0
    · split
      · rename_i h1
        exact hmode.send (h.from_line_start h1)
      · exact hmode
  · exact { h with }
  · exact { h with }
  · exact { h with saved := ⟨hx.1, hy.1⟩ }
  · have hk := hsaved rfl
    exact h.moved hs ⟨h.saved.1, hk.1⟩ ⟨h.saved.2, hk.2⟩
  · exact (hmode.send h.whole_line).moved hs hx0 hy
  · dsimp only
    split
    · rename_i h1
      exact hmode.send (h.from_line_start h1)
    · exact hmode
  · exact h.set_style _
  · exact h.set_style _
  · exact { h with }
  · exact { h with }
  · exact h.clear_attributes
  · exact h.set_style _
  · exact h.set_style _
  · exact h.set_style _
  · exact h.set_style _
  · exact h.set_style _
  · exact h.set_style _
  · exact h.set_style _
  · exact h.set_style _
  · exact h

structure Kept (s t : Term) : Prop where
  sbuf : t.sbuf = s.sbuf
  params : t.params = s.params

theorem change_bgmode_kept (color : Bool) : Kept s (change_bgmode color s) := by
  unfold change_bgmode
  split <;> exact ⟨rfl, rfl⟩

theorem esc5_kept : Kept s (esc5 c s) := by
  unfold esc5
  dsimp only
  split
  · split <;> exact ⟨rfl, rfl⟩
  · exact ⟨(change_bgmode_kept _).sbuf, (change_bgmode_kept _).params⟩

theorem esc4_kept : Kept s (esc4 c s) := by
  unfold esc4
  dsimp only
  split
  · split <;> exact ⟨rfl, rfl⟩
  · exact ⟨(change_bgmode_kept _).sbuf, (change_bgmode_kept _).params⟩

theorem clear_attributes_kept : Kept s (clear_attributes s) := by
  unfold clear_attributes
  dsimp only
  split
  · exact ⟨rfl, rfl⟩
  · split <;> exact ⟨rfl, rfl⟩

theorem esc1_clear : esc1 71 s = clear_attributes { s with escstate := 0 } := rfl

theorem color_value_kept (value : Int) : Kept s (color_value value s) := by
  unfold color_value
  split
  · exact esc4_kept
  · split
    · exact esc5_kept
    · split
      · rw [esc1_clear]
        exact ⟨clear_attributes_kept.sbuf, clear_attributes_kept.params⟩
      · exact ⟨rfl, rfl⟩

theorem Inv.color_value (h : Inv s) (hs : s.sbuf = []) (value : Int) : Inv (color_value value s) := by
  unfold Wterm.color_value
  split
  · exact h.esc4 hs
  · split
    · exact h.esc5 hs
    · split
      · rw [esc1_clear]
        exact (h.state hs 0).clear_attributes
      · exact h

theorem Inv.color_values (values : List Int) (h : Inv s) (hs : s.sbuf = []) :
    Inv (values.foldl (fun t v => Wterm.color_value v t) s) ∧ Kept s (values.foldl (fun t v => Wterm.color_value v t) s) := by
  induction values generalizing s with
  | nil => exact ⟨h, rfl, rfl⟩
  | cons v values ih =>
    have hkept := color_value_kept (s := s) v
    have ⟨hinv, hrest⟩ := ih (h.color_value hs v) (hkept.sbuf.trans hs)
    exact ⟨hinv, hrest.sbuf.trans hkept.sbuf, hrest.params.trans hkept.params⟩

theorem Inv.up_to_params (h : Inv s) : ∀ i ∈ List.range (s.params + 1), i < MAX_PARAMETERS := by
  intro i hi
  have hp := h.params
  have hlt := mem_range.mp hi
  omega

theorem Inv.clear_params (h : Inv s) (hs : s.sbuf = []) : Inv (clear_params s) :=
  { (h.index h.up_to_params).state hs 0 with params := Nat.zero_lt_succ 5 }

theorem Inv.esc20 (h : Inv s) (hs : s.sbuf = []) : Inv (esc20 c s) := by
  unfold Wterm.esc20
  split
  · rename_i hc
    exact { h with params := hc.2 }
  · split
    · have hone : ∀ i ∈ [s.params], i < MAX_PARAMETERS := by
        intro i hi
        rw [mem_singleton.mp hi]
        exact h.params
      exact { h.index hone with }
    · have hall := h.index h.up_to_params
      split
      · exact Inv.clear_params (s := { s.index (List.range (s.params + 1)) with xtermemu := s.xtermemu ||| mouse_value s }) { hall with } hs
      · split
        · exact Inv.clear_params (s := { s.index (List.range (s.params + 1)) with xtermemu := s.xtermemu &&& (3 ^^^ mouse_value s) })
            { hall with } hs
        · split
          · have hvalues := hall.color_values ((List.range (s.params + 1)).map s.parameter) hs
            rw [foldl_map] at hvalues
            exact hvalues.1.clear_params (hvalues.2.sbuf.trans hs)
          · exact h.clear_params hs

theorem Inv.esc10 (h : Inv s) (hs : s.sbuf = []) : Inv (esc10 c s) := by
  unfold Wterm.esc10
  split
  · have hone : ∀ i ∈ [s.params], i < MAX_PARAMETERS := by
      intro i hi
      rw [mem_singleton.mp hi]
      exact h.params
    exact { (h.index hone).state hs 20 with }
  · split
    · exact h.state hs 20
    · exact h.esc20 hs

theorem room_none : ([] : List Nat).length ≤ SMALLBUFFER := by decide

theorem room_one : [c].length ≤ SMALLBUFFER := by simp [SMALLBUFFER]

structure Flushed (s t : Term) : Prop where
  empty : t.sbuf = []
  col : t.col = s.col
  row : t.row = s.row
  curx : t.curx = s.curx
  cury : t.cury = s.cury
  savx : t.savx = s.savx
  savy : t.savy = s.savy
  wrap : t.wrap = s.wrap
  reading : t.reading = s.reading

theorem sflush_flushed : Flushed s (sflush s) := by
  unfold sflush
  split
  · rename_i h
    exact ⟨h, rfl, rfl, rfl, rfl, rfl, rfl, rfl, rfl⟩
  · exact ⟨rfl, rfl, rfl, rfl, rfl, rfl, rfl, rfl, rfl⟩

theorem Inv.sflush (h : Inv s) : Inv (sflush s) := by
  unfold Wterm.sflush
  split
  · exact h
  · have hsent : Inv (s.send (.printstring (s.sbufx * s.fonw) (s.sbufy * s.fonh) s.sbuf)) := h.send trivial
    exact
      { hsent with
        text := fun hne => absurd rfl hne
        room := room_none
        pending := fun hne => absurd rfl hne
        escaped := fun _ => rfl }

theorem Inv.sadd_room (h : Inv s) :
    ∃ t, t.sbuf.length < SMALLBUFFER ∧ Inv t ∧ t.escstate = s.escstate ∧ Wterm.sadd c s =
      (let t := if t.sbuf = [] then { t with sbufx := t.curx, sbufy := t.cury } else t
       { t with sbuf := t.sbuf ++ [c] }) ∧
      t.col = s.col ∧ t.row = s.row ∧ t.curx = s.curx ∧ t.cury = s.cury ∧ t.wrap = s.wrap := by
  by_cases hfull : s.sbuf.length = SMALLBUFFER
  · refine ⟨Wterm.sflush s, ?_, h.sflush, ?_, ?_, sflush_flushed.col, sflush_flushed.row, sflush_flushed.curx, sflush_flushed.cury,
      sflush_flushed.wrap⟩
    · rw [sflush_flushed.empty]
      decide
    · unfold Wterm.sflush
      split <;> rfl
    · unfold sadd
      rw [if_pos hfull]
  · refine ⟨s, ?_, h, rfl, ?_, rfl, rfl, rfl, rfl, rfl⟩
    · have hr := h.room
      omega
    · unfold sadd
      rw [if_neg hfull]

structure Added (s t : Term) : Prop where
  col : t.col = s.col
  row : t.row = s.row
  curx : t.curx = s.curx
  cury : t.cury = s.cury
  wrap : t.wrap = s.wrap
  text : (0 ≤ t.sbufx ∧ t.sbufx + t.sbuf.length = t.curx + 1) ∧ t.sbufy = t.cury
  room : t.sbuf.length ≤ SMALLBUFFER

theorem sadd_added (h : Inv s) (h0 : s.escstate = 0) (c : Nat) :
    Added s (sadd c s) ∧ Inv { sadd c s with curx := s.curx, sbuf := [] } ∧
      (s.curx + 1 < s.col → Inv { sadd c s with curx := s.curx + 1 }) := by
  obtain ⟨t, hlen, ht, hesc, hadd, hcol, hrow, hcurx, hcury, hwrap⟩ := h.sadd_room (c := c)
  have hx := ht.cursor_x
  rw [hadd]
  by_cases he : t.sbuf = []
  · rw [if_pos he]
    dsimp only
    rw [he]
    refine ⟨⟨hcol, hrow, hcurx, hcury, hwrap, ⟨⟨hx.1, rfl⟩, rfl⟩, room_one⟩, ?_, ?_⟩
    · exact
        { ht with
          cursor_x := by dsimp only; omega
          text := fun hne => absurd rfl hne
          room := room_none
          pending := fun hne => absurd rfl hne
          escaped := fun _ => rfl }
    · intro hlt
      exact
        { ht with
          cursor_x := by dsimp only; omega
          text := fun _ => ⟨⟨hx.1, by dsimp only [nil_append, length_singleton]; omega⟩, ht.cursor_y⟩
          room := room_one
          pending := fun _ => ⟨by dsimp only [nil_append, length_singleton]; omega, rfl⟩
          escaped := fun hne => absurd (hesc.trans h0) hne }
  · rw [if_neg he]
    dsimp only
    have htext := ht.text he
    have hpend := ht.pending he
    have hlength : ((t.sbuf ++ [c]).length : Int) = t.sbuf.length + 1 := by simp
    have hroom : (t.sbuf ++ [c]).length ≤ SMALLBUFFER := by
      rw [length_append, length_singleton]
      omega
    refine ⟨⟨hcol, hrow, hcurx, hcury, hwrap, ⟨⟨htext.1.1, by dsimp only; omega⟩, hpend.2⟩, hroom⟩, ?_, ?_⟩
    · exact
        { ht with
          cursor_x := by dsimp only; omega
          text := fun hne => absurd rfl hne
          room := room_none
          pending := fun hne => absurd rfl hne
          escaped := fun _ => rfl }
    · intro hlt
      exact
        { ht with
          cursor_x := by dsimp only; omega
          text := fun _ => ⟨⟨htext.1.1, by dsimp only; omega⟩, htext.2⟩
          room := hroom
          pending := fun _ => ⟨by dsimp only; omega, hpend.2⟩
          escaped := fun hne => absurd (hesc.trans h0) hne }

theorem Inv.next_line (h : Inv s) (hs : s.sbuf = []) (hrow : s.row ≤ s.cury + 1 → 2 ≤ s.row) : Inv (next_line s) := by
  have hy := h.cursor_y
  unfold Wterm.next_line
  split
  · rename_i hlast
    have htwo := hrow hlast
    have hmove : (Request.vscroll 0 s.fonh s.winw ((s.row - 1) * s.fonh) 0).Inside s.winw s.winh := by
      have hrows := h.rows (y := 1) (n := s.row - 1) (by omega) (by omega) (by omega)
      rw [Int.one_mul] at hrows
      exact ⟨⟨h.width, hrows⟩, (h.first_rows (n := s.row - 1) (by omega) (by omega)).2⟩
    have hlow : 0 ≤ s.row - 1 ∧ s.row - 1 < s.row := by omega
    exact (((h.send hmove).send (r := .setmode s.bgmode) trivial).send h.last_line).moved hs h.cursor_x hlow
  · exact h.moved hs h.cursor_x (by omega)

theorem sadd_ne (c : Nat) : (sadd c s).sbuf ≠ [] := by
  unfold sadd
  simp

theorem Inv.print_char (h : Inv s) (h0 : s.escstate = 0)
    (hrow : s.wrap = true → s.col ≤ s.curx + 1 → s.row ≤ s.cury + 1 → 2 ≤ s.row) (c : Nat) : Inv (print_char c s) := by
  obtain ⟨hadd, hflush, hnext⟩ := sadd_added h h0 c
  have hx := h.cursor_x
  have hy := h.cursor_y
  have hcol : (sadd c s).col = s.col := hadd.col
  have hfl : Wterm.sflush (sadd c s) =
      { (sadd c s).send (.printstring ((sadd c s).sbufx * (sadd c s).fonw) ((sadd c s).sbufy * (sadd c s).fonh) (sadd c s).sbuf) with sbuf := [] } :=
    if_neg (sadd_ne c)
  have hat : ∀ x y : Int, 0 ≤ x ∧ x < (sadd c s).col → 0 ≤ y ∧ y < (sadd c s).row →
      Inv { Wterm.sflush (sadd c s) with curx := x, cury := y } := by
    intro x y hxx hyy
    rw [hfl]
    exact (hflush.send (r := .printstring _ _ _) trivial).moved rfl hxx hyy
  have hcury : 0 ≤ (sadd c s).cury ∧ (sadd c s).cury < (sadd c s).row := by
    rw [hadd.cury, hadd.row]
    exact hy
  have hsame : (Wterm.sflush (sadd c s)).cury = (sadd c s).cury := sflush_flushed.cury
  have hcurx : (sadd c s).curx = s.curx := hadd.curx
  unfold Wterm.print_char
  dsimp only
  by_cases hend : (sadd c s).col ≤ (sadd c s).curx + 1
  · rw [if_pos hend]
    split
    · rename_i hwrap
      rw [sflush_flushed.wrap, hadd.wrap] at hwrap
      have hhome := hat 0 (sadd c s).cury (by omega) hcury
      rw [← hsame] at hhome
      refine Inv.next_line (s := { Wterm.sflush (sadd c s) with curx := 0 }) hhome sflush_flushed.empty ?_
      dsimp only
      rw [sflush_flushed.row, sflush_flushed.cury, hadd.row, hadd.cury]
      exact hrow hwrap (by omega)
    · have hstay := hat ((sadd c s).col - 1) (sadd c s).cury (by omega) hcury
      rw [← hsame, ← sflush_flushed.col] at hstay
      exact hstay
  · rw [if_neg hend, hcurx]
    exact hnext (by omega)

def Fine (s : Term) (c : Nat) : Prop :=
  (scrolls c s → 2 ≤ s.row) ∧ (s.escstate = 1 → Char.ofNat c = 'k' → s.savx < s.col ∧ s.savy < s.row)

theorem Inv.esc0 (h : Inv s) (h0 : s.escstate = 0) (hfine : Fine s c) : Inv (esc0 c s) := by
  have hx := h.cursor_x
  have hflush := sflush_flushed (s := s)
  have hfx : 0 ≤ (Wterm.sflush s).curx ∧ (Wterm.sflush s).curx < (Wterm.sflush s).col := by
    rw [hflush.curx, hflush.col]
    exact hx
  unfold Wterm.esc0
  split
  · exact h
  · unfold bell
    split
    · have hwhole : (Request.pbox 0 0 s.winw s.winh).Inside s.winw s.winh := ⟨h.width, h.height⟩
      exact (((h.send (r := .setmode .M_INVERS) trivial).send hwhole).send (r := .test) trivial).send hwhole
    · exact h.send trivial
  · exact h.sflush.moved hflush.empty (by split <;> omega) h.sflush.cursor_y
  · exact h.sflush.moved hflush.empty (by split <;> omega) h.sflush.cursor_y
  · apply h.sflush.next_line hflush.empty
    rw [hflush.row, hflush.cury]
    exact fun hrow => hfine.1 (.inr ⟨h0, hrow, .inl rfl⟩)
  · have hzero : (0 : Int) ≤ 0 ∧ 0 < (Wterm.sflush s).col := by omega
    exact h.sflush.moved hflush.empty hzero h.sflush.cursor_y
  · exact h.sflush.state hflush.empty 1
  · exact h
  · rename_i h1 h2 h3 h4 h5 h6 h7 h8
    apply h.print_char h0
    intro hwrap hcol hrow
    refine hfine.1 (.inr ⟨h0, hrow, .inr ⟨?_, hwrap, hcol⟩⟩)
    simp only [mem_cons, not_mem_nil, or_false, not_or]
    exact ⟨h1, h2, h3, h4, h5, h6, h7, h8⟩

theorem Inv.printc (h : Inv s) (hfine : Fine s c) : Inv (printc s c) := by
  have hflush := sflush_flushed (s := s)
  unfold Wterm.printc
  split
  · rename_i h0
    exact h.esc0 h0 hfine
  · rename_i h1
    refine Inv.esc1_code (s := { Wterm.sflush s with escstate := 0 }) (h.sflush.state hflush.empty 0) hflush.empty ?_ ?_
    · dsimp only
      rw [hflush.cury, hflush.row]
      exact fun hI hy => hfine.1 (.inl ⟨h1, hI, hy⟩)
    · dsimp only
      rw [hflush.savx, hflush.savy, hflush.col, hflush.row]
      exact hfine.2 h1
  · exact h.sflush.esc2 hflush.empty
  · exact h.sflush.esc3 hflush.empty
  · exact h.sflush.esc4 hflush.empty
  · exact h.sflush.esc5 hflush.empty
  · exact h.sflush.esc10 hflush.empty
  · rename_i h20
    exact h.esc20 (h.escaped (by omega))
  · rename_i h0 _ _ _ _ _ _ _
    exact h.state (h.escaped h0) 0

theorem next_line_sbuf : (next_line s).sbuf = s.sbuf := by
  unfold next_line
  split <;> rfl

theorem printc_newline (h : Inv s) : (printc s 10).sbuf = [] := by
  have hflush := (sflush_flushed (s := s)).empty
  unfold printc
  split
  · exact next_line_sbuf.trans hflush
  · exact hflush
  · exact hflush
  · exact hflush
  · exact esc4_kept.sbuf.trans hflush
  · exact esc5_kept.sbuf.trans hflush
  · exact hflush
  · rename_i h20
    exact h.escaped (by omega)
  · rename_i h0 _ _ _ _ _ _ _
    exact h.escaped h0

theorem complaint_ends (pgrp : Bool) : complaint pgrp = (complaint pgrp).dropLast ++ [10] := by
  cases pgrp <;> decide +kernel

theorem hide_cursor_rest : (hide_cursor s).sbuf = s.sbuf ∧ (hide_cursor s).reading = s.reading := by
  unfold hide_cursor
  split <;> exact ⟨rfl, rfl⟩

theorem draw_cursor_rest : (draw_cursor s).sbuf = s.sbuf ∧ (draw_cursor s).reading = s.reading := by
  unfold draw_cursor
  split <;> exact ⟨rfl, rfl⟩

structure RunInv (s : Term) : Prop extends Inv s where
  resting : s.reading = false → s.sbuf = []

def Safe (s : Term) : Event → Prop
  | .byte c => s.reading = true → Fine s c
  | .resized w h =>
    s.reading = false → (1 ≤ w.tdiv s.fonw ∧ 1 ≤ h.tdiv s.fonh) ∧ s.curx < w.tdiv s.fonw ∧ s.cury < h.tdiv s.fonh
  | .failed pgrp => s.reading = false → AllSafe printc Fine { s with sent := [], indexed := [] } (complaint pgrp)
  | _ => True

theorem Inv.return (h : Inv s) : Inv (Wterm.printc s 13) := by
  apply h.printc
  constructor
  · rintro (⟨-, hc, -⟩ | ⟨-, -, hc | ⟨hc, -⟩⟩)
    · exact absurd hc (by decide)
    · exact absurd hc (by decide)
    · exact absurd hc (by decide)
  · intro _ hc
    exact absurd hc (by decide)

theorem Inv.resize (h : Inv s) (hs : s.sbuf = []) (hsent : s.sent = []) {w ht : Int}
    (hin : s.curx < w.tdiv s.fonw ∧ s.cury < ht.tdiv s.fonh) : Inv (resize w ht s) := by
  unfold Wterm.resize
  dsimp only
  split
  · exact
      { h with
        cursor_x := ⟨h.cursor_x.1, hin.1⟩
        cursor_y := ⟨h.cursor_y.1, hin.2⟩
        text := fun hne => absurd hs hne
        sent := fun r hr => absurd hr (by dsimp only; rw [hsent]; exact not_mem_nil)
        size := ⟨rfl, rfl⟩ }
  · exact h

theorem RunInv.step (h : RunInv s) (e : Event) (hsafe : Safe s e) : RunInv (step s e) := by
  have h0 : Inv { s with sent := [], indexed := [] } :=
    { h with
      indexed := fun i hi => absurd hi not_mem_nil
      sent := fun r hr => absurd hr not_mem_nil }
  have hrest : RunInv { s with sent := [], indexed := [] } := { h0 with resting := h.resting }
  unfold Wterm.step
  cases e with
  | begin_read =>
    unfold act
    dsimp only
    split
    · exact hrest
    · split
      · exact { h0.hide_cursor with resting := fun hr => Bool.noConfusion hr }
      · exact { h0 with resting := fun hr => Bool.noConfusion hr }
  | byte c =>
    unfold act
    dsimp only
    split
    · rename_i hread
      have hone := h0.printc (c := c) (hsafe hread)
      split
      · exact { hone.return with resting := fun hr => Bool.noConfusion hr }
      · exact { hone with resting := fun hr => Bool.noConfusion hr }
    · exact hrest
  | end_read =>
    unfold act
    dsimp only
    split
    · have hempty := (sflush_flushed (s := { s with sent := [], indexed := [] })).empty
      split
      · exact { h0.sflush.draw_cursor with resting := fun _ => draw_cursor_rest.1.trans hempty }
      · exact { h0.sflush with resting := fun _ => hempty }
    · exact hrest
  | resized w ht =>
    unfold act
    dsimp only
    split
    · exact hrest
    · rename_i hread
      have hr : s.reading = false := by simpa using hread
      have hs := h.resting hr
      refine { h0.resize hs rfl (hsafe hr).2 with resting := fun _ => ?_ }
      unfold resize
      dsimp only
      split <;> exact hs
  | failed pgrp =>
    unfold act
    dsimp only
    split
    · exact hrest
    · rename_i hread
      have hr : s.reading = false := by simpa using hread
      have hsafe' : AllSafe printc Fine { s with sent := [], indexed := [] } (complaint pgrp) := hsafe hr
      have hall : Inv ((complaint pgrp).foldl printc { s with sent := [], indexed := [] }) :=
        hsafe'.invariant Inv (fun _ _ hi hf => hi.printc hf) h0
      have hbefore : Inv ((complaint pgrp).dropLast.foldl printc { s with sent := [], indexed := [] }) :=
        (hsafe'.start ⟨[10], (complaint_ends pgrp).symm⟩).invariant Inv (fun _ _ hi hf => hi.printc hf) h0
      refine { hall with resting := fun _ => ?_ }
      rw [complaint_ends, foldl_append]
      exact printc_newline hbefore
  | timeout =>
    unfold act
    dsimp only
    split
    · exact hrest
    · split
      · have hcur := hide_cursor_rest (s := { s with sent := [], indexed := [] })
        exact { h0.hide_cursor with resting := fun hr => hcur.1.trans (h.resting (hcur.2.symm.trans hr)) }
      · have hcur := draw_cursor_rest (s := { s with sent := [], indexed := [] })
        exact { h0.draw_cursor with resting := fun hr => hcur.1.trans (h.resting (hcur.2.symm.trans hr)) }

theorem start_inv (o : Options) : Inv o.start where
  cursor_x := ⟨Int.le_refl 0, by have := o.col_pos; change 0 < o.col; omega⟩
  cursor_y := ⟨Int.le_refl 0, by have := o.row_pos; change 0 < o.row; omega⟩
  text := fun hne => absurd rfl hne
  room := room_none
  indexed := fun i hi => absurd hi not_mem_nil
  sent := fun r hr => absurd hr not_mem_nil
  fonts := o.font_pos
  size := ⟨rfl, rfl⟩
  saved := ⟨Int.le_refl 0, Int.le_refl 0⟩
  params := Nat.zero_lt_succ 5
  pending := fun hne => absurd rfl hne
  escaped := fun _ => rfl

theorem init_inv (o : Options) : RunInv (init o) := by
  have hstart := start_inv o
  have hempty : (esc1 71 o.start).sbuf = [] := clear_attributes_kept.sbuf
  have hclear : Inv (esc1 71 o.start) := by
    rw [esc1_clear]
    exact (hstart.state rfl 0).clear_attributes
  unfold init
  dsimp only
  have hhome : ∀ {t : Term}, Inv t → t.sbuf = [] →
      RunInv (draw_cursor { t with curx := 0, savx := 0, cury := 0, savy := 0, wrap := true, curvis := false, escstate := 0 }) := by
    intro t ht hs
    have hx := ht.cursor_x
    have hy := ht.cursor_y
    have hzero : Inv { t with curx := 0, savx := 0, cury := 0, savy := 0, wrap := true, curvis := false, escstate := 0 } :=
      { ht with
        cursor_x := ⟨Int.le_refl 0, by dsimp only; omega⟩
        cursor_y := ⟨Int.le_refl 0, by dsimp only; omega⟩
        saved := ⟨Int.le_refl 0, Int.le_refl 0⟩
        pending := fun hne => absurd hs hne
        escaped := fun _ => hs }
    exact { hzero.draw_cursor with resting := fun _ => draw_cursor_rest.1.trans hs }
  split
  · have hwhole : (Request.pbox 0 0 (esc1 71 o.start).winw (esc1 71 o.start).winh).Inside (esc1 71 o.start).winw (esc1 71 o.start).winh :=
      ⟨hclear.width, hclear.height⟩
    exact hhome ((hclear.send (r := .setmode (esc1 71 o.start).bgmode) trivial).send hwhole) hempty
  · exact hhome hclear hempty

def screen : Options where
  col := 80
  row := 25
  fonw := 8
  fonh := 16
  sharedcolors := 0
  reversed := false
  visualbell := false
  cblink := false
  col_pos := by decide
  row_pos := by decide
  font_pos := by decide

end WWindowSystem.Wterm
