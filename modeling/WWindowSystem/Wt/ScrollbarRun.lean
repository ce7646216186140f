import WWindowSystem.Wt.Scrollbar

namespace WWindowSystem.Scrollbar

variable {w w' : scroll_widget_t}

structure Ordered (w : scroll_widget_t) : Prop where
  slsize : 0 ≤ w.slsize ∧ w.slsize ≤ w.slscale
  slpos : 0 ≤ w.slpos ∧ w.slpos ≤ w.slscale - w.slsize

def Between (w : scroll_widget_t) : Prop :=
  0 ≤ w.drawn.1 ∧ 0 < w.drawn.2 ∧ w.drawn.1 + w.drawn.2 ≤ abs_size w - 2 * SLHT

def moved (w : scroll_widget_t) : State → Int
  | .Up => w.slpos - min w.line_inc w.slpos
  | .Down => w.slpos + min w.line_inc (w.slscale - w.slsize - w.slpos)
  | .PgUp => w.slpos - min w.page_inc w.slpos
  | .PgDown => w.slpos + min w.page_inc (w.slscale - w.slsize - w.slpos)
  | .Idle => w.slpos
  | .Move => w.slpos

def stepping (w : scroll_widget_t) : Event → Option State
  | .press x y => if w.is_realized ∧ w.state = .Idle then some (pressed w x y) else none
  | .tick _ => if w.timer = some .sb_updown_timer then some w.state else none
  | _ => none

structure Kept (w : scroll_widget_t) (e : Event) : Prop where
  ordered : Ordered (step w e)
  divided : (step w e).fault = false
  between : (step w e).is_realized = true → Between (step w e)
  moved : ∀ st, stepping w e = some st → (step w e).slpos = moved w st

def Event.Allowed : Event → Prop
  | .setopt .WT_LINE_INC val => 0 ≤ val
  | .setopt .WT_PAGE_INC val => 0 ≤ val
  | .setopt .WT_WIDTH _ => True
  | .setopt .WT_HEIGHT _ => True
  | .setopt _ val => -2 ^ 30 ≤ val ∧ val ≤ 2 ^ 30
  | _ => True

def StepFits (w : scroll_widget_t) (st : State) : Prop := ∀ goal, target w st = some goal → -32768 ≤ goal ∧ goal ≤ 32767

/-- The scale of a realized widget is not zero, a slider without a size is at the start when the widget is realized, and the
steps fit into a `short`. -/
def Fits (w : scroll_widget_t) (e : Event) : Prop :=
  match e with
  | .realize => w.is_realized = true ∨ 0 < w.slscale ∧ (w.slsize = 0 → w.slpos = 0)
  | .setopt .WT_TOTAL_SIZE val => w.is_realized = true → 0 < val
  | e => ∀ st, stepping w e = some st → StepFits w st

structure Drawn (w : scroll_widget_t) : Prop where
  scale : 0 < w.slscale
  long : 48 ≤ abs_size w
  slsize : 8 ≤ w.slsize_abs ∧ w.slsize_abs ≤ abs_size w - 32
  slpos : 0 ≤ w.slpos_abs ∧ w.slpos_abs + w.slsize_abs ≤ abs_size w - 32
  drawn : w.drawn = (w.slpos_abs, w.slsize_abs)

structure Valid (w : scroll_widget_t) : Prop where
  ordered : Ordered w
  divided : w.fault = false
  incs : 0 ≤ w.line_inc ∧ 0 ≤ w.page_inc
  user : w.usrwd ≤ 32767 ∧ w.usrht ≤ 32767
  short : abs_size w ≤ 32767
  drawn : w.is_realized = true → Drawn w
  idle : w.is_realized = false → w.timer = none

theorem SLHT_eq : SLHT = 16 := rfl

theorem slsize_fits {a b c : Int} (ha : 16 ≤ a) (hb : 0 ≤ b ∧ b ≤ c) (hc : 0 < c) : 8 ≤ max 8 ((a * b).tdiv c) ∧ max 8 ((a * b).tdiv c) ≤ a := by
  have hpos : 0 ≤ a * b := mul_nonneg (by omega) hb.1
  have hle : a * b ≤ a * c := mul_le_mul_of_nonneg_left hb.2 (by omega)
  have hdiv : (a * b).tdiv c ≤ a := by
    rw [Int.tdiv_eq_ediv_of_nonneg hpos]
    exact Int.ediv_le_of_le_mul hc hle
  omega

theorem slpos_fits {a b c : Int} (ha : 0 ≤ a) (hb : 0 ≤ b ∧ b ≤ c) (hc : 0 < c) : 0 ≤ (a * b).tdiv c ∧ (a * b).tdiv c ≤ a := by
  have hpos : 0 ≤ a * b := mul_nonneg ha hb.1
  have hle : a * b ≤ a * c := mul_le_mul_of_nonneg_left hb.2 ha
  rw [Int.tdiv_eq_ediv_of_nonneg hpos]
  exact ⟨Int.ediv_nonneg hpos (by omega), Int.ediv_le_of_le_mul hc hle⟩

theorem draw_drawn (ho : Ordered w) (hscale : 0 < w.slscale) (hlong : 48 ≤ abs_size w) : Drawn (sb_draw_slider w) := by
  obtain ⟨hsize, hpos⟩ := ho
  have hs : 8 ≤ sb_slsize_rel2abs w w.slsize ∧ sb_slsize_rel2abs w w.slsize ≤ abs_size w - 32 :=
    slsize_fits (show 16 ≤ abs_size w - 32 by omega) hsize hscale
  have hp : 0 ≤ sb_pos_rel2abs w w.slpos (sb_slsize_rel2abs w w.slsize) ∧
      sb_pos_rel2abs w w.slpos (sb_slsize_rel2abs w w.slsize) ≤ abs_size w - 32 - sb_slsize_rel2abs w w.slsize :=
    slpos_fits (show 0 ≤ abs_size w - 32 - sb_slsize_rel2abs w w.slsize by omega) (show 0 ≤ w.slpos ∧ w.slpos ≤ max 1 (w.slscale - w.slsize) by omega) (by omega)
  have hend : sb_pos_rel2abs w w.slpos (sb_slsize_rel2abs w w.slsize) + sb_slsize_rel2abs w w.slsize ≤ abs_size w - 32 := by omega
  exact ⟨hscale, hlong, hs, ⟨hp.1, hend⟩, rfl⟩

theorem Valid.draw (h : Valid w) (hscale : 0 < w.slscale) (hlong : 48 ≤ abs_size w) : Valid (sb_draw_slider w) := by
  have hfault : (sb_draw_slider w).fault = false := by
    have hne : w.slscale ≠ 0 := by omega
    unfold sb_draw_slider
    simp [h.divided, hne]
  exact ⟨⟨h.ordered.slsize, h.ordered.slpos⟩, hfault, h.incs, h.user, h.short, fun _ => draw_drawn h.ordered hscale hlong, h.idle⟩

theorem Valid.between (h : Valid w) (hr : w.is_realized = true) : Between w := by
  obtain ⟨_, _, hsize, hpos, hdrawn⟩ := h.drawn hr
  unfold Between
  rw [hdrawn, SLHT_eq]
  dsimp only
  omega

theorem move_cases (h : Drawn w) (hr : w.is_realized = true) (pos : Int) :
    ∃ r, 0 ≤ r ∧ r + w.slsize_abs ≤ abs_size w - 32 ∧ (0 ≤ pos ∧ pos + w.slsize_abs ≤ abs_size w - 32 → r = pos) ∧
      sb_move_slider w pos = if r = w.slpos_abs then (-1, w) else (r, { w with drawn := (r, w.slsize_abs) }) := by
  have hsize := h.slsize
  refine ⟨if pos < 0 then 0 else if pos > abs_size w - 32 - w.slsize_abs then abs_size w - 32 - w.slsize_abs else pos, ?_, ?_, ?_, ?_⟩
  · split_ifs <;> omega
  · split_ifs <;> omega
  · intro hpos
    rw [if_neg (by omega), if_neg (by omega)]
  · unfold sb_move_slider
    rw [hr, SLHT_eq]
    rfl

theorem clamp_eq {goal most : Int} (hmost : 0 ≤ most) (hlow : -32768 ≤ goal) (hhigh : goal ≤ 32767) :
    (if short goal < 0 then 0 else if short goal > most then short most else short goal) = max 0 (min goal most) := by
  rw [short_of_range hlow (by omega)]
  split_ifs with hneg hmore
  · omega
  · rw [short_of_range (by omega) (by omega)]
    omega
  · omega

theorem moved_eq (ho : Ordered w) (hincs : 0 ≤ w.line_inc ∧ 0 ≤ w.page_inc) {st : State} {goal : Int} (h : target w st = some goal) :
    moved w st = max 0 (min goal (w.slscale - w.slsize)) := by
  have hpos := ho.slpos
  cases st with
  | Idle => cases h
  | Move => cases h
  | Up =>
    cases h
    unfold moved
    dsimp only
    omega
  | Down =>
    cases h
    unfold moved
    dsimp only
    omega
  | PgUp =>
    cases h
    unfold moved
    dsimp only
    omega
  | PgDown =>
    cases h
    unfold moved
    dsimp only
    omega

theorem moved_none {st : State} (h : target w st = none) : moved w st = w.slpos := by
  cases st with
  | Idle => rfl
  | Move => rfl
  | Up => cases h
  | Down => cases h
  | PgUp => cases h
  | PgDown => cases h

theorem Drawn.same (h : Drawn w) (timer : Option Timer) (state : State) (mouse_pos : Int) :
    Drawn { w with timer := timer, state := state, mouse_pos := mouse_pos } :=
  ⟨h.scale, h.long, h.slsize, h.slpos, h.drawn⟩

theorem Valid.halted (h : Valid w) : Valid { w with timer := none } :=
  ⟨⟨h.ordered.slsize, h.ordered.slpos⟩, h.divided, h.incs, h.user, h.short, fun hr => (h.drawn hr).same none w.state w.mouse_pos,
    fun _ => rfl⟩

theorem updown_valid (h : Valid w) (hr : w.is_realized = true) (hfits : StepFits w w.state) :
    Valid (sb_updown_timer w) ∧ (sb_updown_timer w).slpos = moved w w.state := by
  have hdrawn := h.drawn hr
  have hpos := h.ordered.slpos
  have hsize := h.ordered.slsize
  cases htarget : target w w.state with
  | none =>
    have hstep : sb_updown_timer w = { w with timer := none } := by
      rw [sb_updown_timer, htarget]
    rw [hstep, moved_none htarget]
    exact ⟨h.halted, rfl⟩
  | some goal =>
    obtain ⟨hlow, hhigh⟩ := hfits goal htarget
    have hclamp := clamp_eq (show 0 ≤ w.slscale - w.slsize by omega) hlow hhigh
    rw [moved_eq h.ordered h.incs htarget, sb_updown_timer, htarget]
    dsimp only
    rw [hclamp]
    generalize hnew : max 0 (min goal (w.slscale - w.slsize)) = slpos
    have hrange : 0 ≤ slpos ∧ slpos ≤ w.slscale - w.slsize := by omega
    split_ifs with hsame
    · exact ⟨h, hsame.symm⟩
    · have hfit : 0 ≤ sb_pos_rel2abs { w with slpos := slpos } slpos w.slsize_abs ∧
          sb_pos_rel2abs { w with slpos := slpos } slpos w.slsize_abs ≤ abs_size w - 32 - w.slsize_abs :=
        slpos_fits (show 0 ≤ abs_size w - 32 - w.slsize_abs by have := hdrawn.slsize; omega)
          (show 0 ≤ slpos ∧ slpos ≤ max 1 (w.slscale - w.slsize) by omega) (by omega)
      generalize sb_pos_rel2abs { w with slpos := slpos } slpos w.slsize_abs = pos at hfit ⊢
      have hlong := h.short
      have habs := hdrawn.slsize
      rw [short_of_range (by omega) (by omega)]
      have hdrawn' : Drawn { w with slpos := slpos } := ⟨hdrawn.scale, hdrawn.long, hdrawn.slsize, hdrawn.slpos, hdrawn.drawn⟩
      obtain ⟨r, _, _, hexact, hmove⟩ := move_cases hdrawn' hr pos
      have hr' : r = pos := hexact ⟨hfit.1, by dsimp only; exact le_sub_iff_add_le.mp hfit.2⟩
      subst hr'
      rw [hmove]
      dsimp only
      have hend : r + w.slsize_abs ≤ abs_size w - 32 := le_sub_iff_add_le.mp hfit.2
      split_ifs with hstay
      · refine ⟨⟨⟨hsize, hrange⟩, h.divided, h.incs, h.user, h.short, fun _ => ?_, fun hno => ?_⟩, rfl⟩
        · refine ⟨hdrawn.scale, hdrawn.long, hdrawn.slsize, ⟨hfit.1, hend⟩, ?_⟩
          rw [hstay]
          exact hdrawn.drawn
        · exact absurd (hno.symm.trans hr) (by decide)
      · refine ⟨⟨⟨hsize, hrange⟩, h.divided, h.incs, h.user, h.short, fun _ => ?_, fun hno => ?_⟩, rfl⟩
        · exact ⟨hdrawn.scale, hdrawn.long, hdrawn.slsize, ⟨hfit.1, hend⟩, rfl⟩
        · exact absurd (hno.symm.trans hr) (by decide)

theorem move_valid (h : Valid w) (hr : w.is_realized = true) (mouse : Option (Int × Int)) : Valid (sb_move_timer w mouse) := by
  have hdrawn := h.drawn hr
  have hsize := h.ordered.slsize
  have hhas {v : scroll_widget_t} (hv : v.is_realized = w.is_realized) : v.is_realized = false → v.timer = none :=
    fun hno => absurd (hno.symm.trans (hv.trans hr)) (by decide)
  cases mouse with
  | none => exact h.halted
  | some p =>
    obtain ⟨x, y⟩ := p
    unfold sb_move_timer
    dsimp only
    generalize (if w.orient = .OrientVert then y else x) = pos
    split_ifs with hsame hmove
    · exact ⟨⟨hsize, h.ordered.slpos⟩, h.divided, h.incs, h.user, h.short, fun _ => hdrawn.same _ _ _, hhas rfl⟩
    · obtain ⟨r, hlow, hhigh, _, heq⟩ := move_cases hdrawn hr (w.slpos_abs + pos - w.mouse_pos)
      rw [heq] at hmove ⊢
      split_ifs at hmove ⊢ with hstay
      · exact absurd hmove (by dsimp only; omega)
      · dsimp only
        have hplace := hdrawn.slpos
        have hroom : 0 < abs_size w - 32 - w.slsize_abs := by omega
        have hfit := slpos_fits (show 0 ≤ w.slscale - w.slsize by omega)
          (show 0 ≤ r ∧ r ≤ abs_size w - 32 - w.slsize_abs by omega) hroom
        rw [mul_comm] at hfit
        refine ⟨⟨hsize, hfit⟩, ?_, h.incs, h.user, h.short, fun _ => ?_, hhas rfl⟩
        · have hne : abs_size w - 2 * SLHT - w.slsize_abs ≠ 0 := by
            rw [SLHT_eq]
            omega
          exact Bool.or_eq_false_iff.mpr ⟨h.divided, decide_eq_false hne⟩
        · exact ⟨hdrawn.scale, hdrawn.long, hdrawn.slsize, ⟨hlow, hhigh⟩, rfl⟩
    · obtain ⟨r, hlow, hhigh, _, heq⟩ := move_cases hdrawn hr (w.slpos_abs + pos - w.mouse_pos)
      rw [heq] at hmove ⊢
      split_ifs at hmove ⊢ with hstay
      · exact ⟨⟨hsize, h.ordered.slpos⟩, h.divided, h.incs, h.user, h.short, fun _ => hdrawn.same _ _ _, hhas rfl⟩
      · exact absurd hlow hmove

theorem cancel_valid (h : Valid w) : Valid (sb_cancel w) := by
  unfold sb_cancel
  split_ifs
  · exact h
  · exact ⟨⟨h.ordered.slsize, h.ordered.slpos⟩, h.divided, h.incs, h.user, h.short, fun hr => (h.drawn hr).same _ _ _, fun _ => rfl⟩

theorem redraw_valid {slscale slsize slpos : Int} (h : Valid w) (hscale : w.is_realized = true → 0 < slscale)
    (ho : (0 ≤ slsize ∧ slsize ≤ slscale) ∧ 0 ≤ slpos ∧ slpos ≤ slscale - slsize) :
    Valid (if w.is_realized then sb_draw_slider { w with slscale := slscale, slsize := slsize, slpos := slpos }
      else { w with slscale := slscale, slsize := slsize, slpos := slpos }) := by
  split_ifs with hr
  · have hdrawn := h.drawn hr
    have hordered : Ordered { w with slscale := slscale, slsize := slsize, slpos := slpos } := ⟨ho.1, ho.2⟩
    have hdraw := draw_drawn hordered (hscale hr) hdrawn.long
    refine ⟨⟨ho.1, ho.2⟩, ?_, h.incs, h.user, h.short, fun _ => hdraw, h.idle⟩
    have hne : slscale ≠ 0 := by
      have hpos := hscale hr
      omega
    exact Bool.or_eq_false_iff.mpr ⟨h.divided, decide_eq_false hne⟩
  · exact ⟨⟨ho.1, ho.2⟩, h.divided, h.incs, h.user, h.short, fun hyes => absurd hyes hr, h.idle⟩

theorem size_valid (h : Valid w) (val : Int) : Valid (set_size w val) := by
  have hsize := h.ordered.slsize
  have hpos := h.ordered.slpos
  have hscale (hr : w.is_realized = true) := (h.drawn hr).scale
  unfold set_size
  by_cases hsame : w.slsize = val
  · rw [if_pos hsame]
    exact h
  · rw [if_neg hsame]
    dsimp only
    generalize hnew : (if val < 0 then 0 else if val > w.slscale then w.slscale else val) = slsize
    have hrange : 0 ≤ slsize ∧ slsize ≤ w.slscale := by
      rw [← hnew]
      split_ifs <;> omega
    by_cases hmore : w.slpos > w.slscale - slsize
    · rw [if_pos hmore]
      exact redraw_valid (w := w) h hscale ⟨hrange, by omega, le_refl _⟩
    · rw [if_neg hmore]
      exact redraw_valid (w := w) h hscale ⟨hrange, hpos.1, by omega⟩

theorem total_size_valid (h : Valid w) {val : Int} (hval : w.is_realized = true → 0 < val) : Valid (set_total_size w val) := by
  have hsize := h.ordered.slsize
  have hpos := h.ordered.slpos
  unfold set_total_size
  by_cases hsame : w.slscale = val
  · rw [if_pos hsame]
    exact h
  · rw [if_neg hsame]
    dsimp only
    generalize hnew : (if val < 0 then 0 else val) = slscale
    have hrange : 0 ≤ slscale := by
      rw [← hnew]
      split_ifs <;> omega
    have hscale : w.is_realized = true → 0 < slscale := by
      intro hr
      have hpos := hval hr
      rw [← hnew, if_neg (by omega)]
      exact hpos
    by_cases hless : w.slsize > slscale
    · rw [if_pos hless]
      dsimp only
      by_cases hmore : w.slpos > slscale - slscale
      · rw [if_pos hmore]
        exact redraw_valid (w := w) h hscale ⟨⟨hrange, le_refl _⟩, by omega, le_refl _⟩
      · rw [if_neg hmore]
        exact redraw_valid (w := w) h hscale ⟨⟨hrange, le_refl _⟩, hpos.1, by omega⟩
    · have hle : w.slsize ≤ slscale := not_lt.mp hless
      have hrest : 0 ≤ slscale - w.slsize := by omega
      rw [if_neg hless]
      by_cases hmore : w.slpos > slscale - w.slsize
      · rw [if_pos hmore]
        exact redraw_valid (w := w) h hscale ⟨⟨hsize.1, hle⟩, hrest, le_refl _⟩
      · rw [if_neg hmore]
        exact redraw_valid (w := w) h hscale ⟨⟨hsize.1, hle⟩, hpos.1, not_lt.mp hmore⟩

theorem position_valid (h : Valid w) (val : Int) : Valid (set_position w val) := by
  have hsize := h.ordered.slsize
  unfold set_position
  by_cases hsame : w.slpos = val
  · rw [if_pos hsame]
    exact h
  · rw [if_neg hsame]
    dsimp only
    generalize hnew : (if val < 0 then 0 else if val > w.slscale - w.slsize then w.slscale - w.slsize else val) = slpos
    have hrange : 0 ≤ slpos ∧ slpos ≤ w.slscale - w.slsize := by
      rw [← hnew]
      split_ifs <;> omega
    have hvalid : Valid { w with slpos := slpos } :=
      ⟨⟨hsize, hrange⟩, h.divided, h.incs, h.user, h.short,
        fun hr => ⟨(h.drawn hr).scale, (h.drawn hr).long, (h.drawn hr).slsize, (h.drawn hr).slpos, (h.drawn hr).drawn⟩, h.idle⟩
    generalize sb_pos_rel2abs { w with slpos := slpos } slpos w.slsize_abs = pos
    by_cases hr : w.is_realized = true
    · obtain ⟨r, hlow, hhigh, _, heq⟩ := move_cases (hvalid.drawn hr) hr pos
      rw [heq]
      by_cases hstay : r = w.slpos_abs
      · rw [if_pos hstay]
        exact hvalid
      · rw [if_neg hstay, if_pos hlow]
        refine ⟨⟨hsize, hrange⟩, h.divided, h.incs, h.user, h.short, fun _ => ?_, h.idle⟩
        exact ⟨(h.drawn hr).scale, (h.drawn hr).long, (h.drawn hr).slsize, ⟨hlow, hhigh⟩, rfl⟩
    · have hmove : (sb_move_slider { w with slpos := slpos } pos).2 = { w with slpos := slpos } := by
        unfold sb_move_slider
        dsimp only
        rw [if_neg hr]
        split_ifs
        all_goals rfl
      rw [hmove]
      split_ifs
      · exact ⟨⟨hsize, hrange⟩, h.divided, h.incs, h.user, h.short, fun hyes => absurd hyes hr, h.idle⟩
      · exact hvalid

theorem minsize_cases (w : scroll_widget_t) : (w.orient = .OrientHorz ∧ scroll_query_minsize w = (max 48 w.usrwd, 17)) ∨
    (w.orient ≠ .OrientHorz ∧ scroll_query_minsize w = (17, max 48 w.usrht)) := by
  unfold scroll_query_minsize
  by_cases ho : w.orient = .OrientHorz
  · exact .inl ⟨ho, if_pos ho⟩
  · exact .inr ⟨ho, if_neg ho⟩

theorem resize_valid {wd ht : Int} (h : Valid w) (hhorz : w.orient = .OrientHorz → 48 ≤ wd ∧ wd ≤ 32767)
    (hvert : w.orient ≠ .OrientHorz → 48 ≤ ht ∧ ht ≤ 32767) :
    Valid (if w.is_realized then sb_draw_slider (sb_cancel { w with w := { w.w with w := wd, h := ht } })
      else { w with w := { w.w with w := wd, h := ht } }) := by
  have hlong : 48 ≤ abs_size { w with w := { w.w with w := wd, h := ht } } ∧
      abs_size { w with w := { w.w with w := wd, h := ht } } ≤ 32767 := by
    unfold abs_size
    dsimp only
    split_ifs with ho
    · exact hhorz ho
    · exact hvert ho
  split_ifs with hr
  · have hsame : ∃ timer state, sb_cancel { w with w := { w.w with w := wd, h := ht } } =
        { w with w := { w.w with w := wd, h := ht }, timer := timer, state := state } := by
      unfold sb_cancel
      split_ifs
      · exact ⟨w.timer, w.state, rfl⟩
      · exact ⟨none, .Idle, rfl⟩
    obtain ⟨timer, state, hsame⟩ := hsame
    rw [hsame]
    have hordered : Ordered { w with w := { w.w with w := wd, h := ht }, timer := timer, state := state } :=
      ⟨h.ordered.slsize, h.ordered.slpos⟩
    have hscale := (h.drawn hr).scale
    have hdraw := draw_drawn hordered hscale hlong.1
    refine ⟨⟨h.ordered.slsize, h.ordered.slpos⟩, ?_, h.incs, h.user, hlong.2, fun _ => hdraw, fun hno => ?_⟩
    · have hne : w.slscale ≠ 0 := by omega
      exact Bool.or_eq_false_iff.mpr ⟨h.divided, decide_eq_false hne⟩
    · exact absurd (hno.symm.trans hr) (by decide)
  · exact ⟨⟨h.ordered.slsize, h.ordered.slpos⟩, h.divided, h.incs, h.user, hlong.2, fun hyes => absurd hyes hr, h.idle⟩

theorem reshape_valid (h : Valid w) {wd ht : Int} (hhorz : w.orient = .OrientHorz → wd ≤ 32767)
    (hvert : w.orient ≠ .OrientHorz → ht ≤ 32767) : Valid (scroll_reshape w wd ht) := by
  have huser := h.user
  have hfinish {width height : Int} (hw : w.orient = .OrientHorz → 48 ≤ width ∧ width ≤ 32767)
      (hh : w.orient ≠ .OrientHorz → 48 ≤ height ∧ height ≤ 32767) : Valid (if width ≠ w.w.w ∨ height ≠ w.w.h then
        if w.is_realized then sb_draw_slider (sb_cancel { w with w := { w.w with w := width, h := height } })
        else { w with w := { w.w with w := width, h := height } }
      else w) := by
    by_cases hne : width ≠ w.w.w ∨ height ≠ w.w.h
    · rw [if_pos hne]
      exact resize_valid (w := w) h hw hh
    · rw [if_neg hne]
      exact h
  unfold scroll_reshape
  by_cases hchange : wd ≠ w.w.w ∨ ht ≠ w.w.h
  · rw [if_pos hchange]
    rcases minsize_cases w with ⟨ho, hmin⟩ | ⟨ho, hmin⟩
    · have hle := hhorz ho
      rw [hmin]
      dsimp only
      rw [if_pos ho]
      apply hfinish
      · intro _
        split_ifs <;> omega
      · intro hno
        exact absurd ho hno
    · have hle := hvert ho
      rw [hmin]
      dsimp only
      rw [if_neg ho]
      apply hfinish
      · intro hyes
        exact absurd hyes ho
      · intro _
        split_ifs <;> omega
  · rw [if_neg hchange]
    exact h

theorem short_le (z : Int) : short z ≤ 32767 := by
  unfold short
  omega

theorem geometry_long (h : Valid w) : (w.orient = .OrientHorz → 48 ≤ (scroll_query_geometry w).1 ∧ (scroll_query_geometry w).1 ≤ 32767) ∧
    (w.orient ≠ .OrientHorz → 48 ≤ (scroll_query_geometry w).2 ∧ (scroll_query_geometry w).2 ≤ 32767) := by
  have huser := h.user
  have hshort := h.short
  unfold abs_size at hshort
  unfold scroll_query_geometry
  rcases minsize_cases w with ⟨ho, hmin⟩ | ⟨ho, hmin⟩
  · rw [if_pos ho] at hshort
    rw [hmin]
    dsimp only
    rw [if_pos ho]
    refine ⟨fun _ => ⟨by dsimp only; omega, by dsimp only; omega⟩, fun hno => absurd ho hno⟩
  · rw [if_neg ho] at hshort
    rw [hmin]
    dsimp only
    rw [if_neg ho]
    refine ⟨fun hyes => absurd hyes ho, fun _ => ⟨by dsimp only; omega, by dsimp only; omega⟩⟩

theorem realize_valid (h : Valid w) (hfits : w.is_realized = true ∨ 0 < w.slscale ∧ (w.slsize = 0 → w.slpos = 0)) :
    Valid (scroll_realize w) := by
  have hsize := h.ordered.slsize
  have hpos := h.ordered.slpos
  have hincs := h.incs
  unfold scroll_realize
  by_cases hr : w.is_realized = true
  · rw [if_pos hr]
    exact h
  · obtain ⟨hscale, hstart⟩ := hfits.resolve_left hr
    rw [if_neg hr]
    have hbegin : ∃ slsize page_inc line_inc, 0 ≤ slsize ∧ slsize ≤ w.slscale ∧ w.slpos ≤ w.slscale - slsize ∧ 0 ≤ page_inc ∧
        0 ≤ line_inc ∧
        (let w := if w.slsize = 0 then { w with slsize := w.slscale } else w
         let w := if w.page_inc = 0 then { w with page_inc := w.slsize } else w
         if w.line_inc = 0 then { w with line_inc := 1 } else w) =
          { w with slsize := slsize, page_inc := page_inc, line_inc := line_inc } := by
      refine ⟨if w.slsize = 0 then w.slscale else w.slsize,
        if w.page_inc = 0 then (if w.slsize = 0 then w.slscale else w.slsize) else w.page_inc,
        if w.line_inc = 0 then 1 else w.line_inc, ?_, ?_, ?_, ?_, ?_, ?_⟩
      · split_ifs <;> omega
      · split_ifs <;> omega
      · split_ifs with hzero
        · have hstart := hstart hzero
          omega
        · omega
      · split_ifs <;> omega
      · split_ifs <;> omega
      · dsimp only
        split_ifs <;> rfl
    obtain ⟨slsize, page_inc, line_inc, hlow, hhigh, hroom, hpage, hline, hsame⟩ := hbegin
    dsimp only at hsame ⊢
    rw [hsame]
    have hvalid : Valid { w with slsize := slsize, page_inc := page_inc, line_inc := line_inc } :=
      ⟨⟨⟨hlow, hhigh⟩, hpos.1, hroom⟩, h.divided, ⟨hline, hpage⟩, h.user, h.short, fun hyes => absurd hyes hr, h.idle⟩
    obtain ⟨hhorz, hvert⟩ := geometry_long hvalid
    generalize scroll_query_geometry { w with slsize := slsize, page_inc := page_inc, line_inc := line_inc } = size at hhorz hvert ⊢
    obtain ⟨wd, ht⟩ := size
    have hlong : 48 ≤ abs_size { w with w := { w.w with w := wd, h := ht } } ∧
        abs_size { w with w := { w.w with w := wd, h := ht } } ≤ 32767 := by
      unfold abs_size
      dsimp only
      split_ifs with ho
      · exact hhorz ho
      · exact hvert ho
    have hordered : Ordered { w with
        slsize := slsize
        page_inc := page_inc
        line_inc := line_inc
        w := { w.w with w := wd, h := ht } } := ⟨⟨hlow, hhigh⟩, hpos.1, hroom⟩
    have hdraw := draw_drawn hordered hscale hlong.1
    refine ⟨⟨⟨hlow, hhigh⟩, hpos.1, hroom⟩, ?_, ⟨hline, hpage⟩, h.user, hlong.2, fun _ => ?_, fun hno => ?_⟩
    · have hne : w.slscale ≠ 0 := by omega
      exact Bool.or_eq_false_iff.mpr ⟨h.divided, decide_eq_false hne⟩
    · exact ⟨hdraw.scale, hdraw.long, hdraw.slsize, hdraw.slpos, hdraw.drawn⟩
    · cases hno

theorem setopt_valid (h : Valid w) {key : Option_t} {val : Int} (hval : (Event.setopt key val).Allowed)
    (hfits : Fits w (.setopt key val)) : Valid (scroll_setopt w key val) := by
  have hshort := h.short
  unfold abs_size at hshort
  cases key with
  | WT_WIDTH =>
    have huser : Valid { w with usrwd := short (max 0 val) } :=
      ⟨⟨h.ordered.slsize, h.ordered.slpos⟩, h.divided, h.incs, ⟨short_le _, h.user.2⟩, h.short,
        fun hr => ⟨(h.drawn hr).scale, (h.drawn hr).long, (h.drawn hr).slsize, (h.drawn hr).slpos, (h.drawn hr).drawn⟩, h.idle⟩
    apply reshape_valid huser
    · intro _
      exact short_le _
    · intro ho
      rw [if_neg ho] at hshort
      exact hshort
  | WT_HEIGHT =>
    have huser : Valid { w with usrht := short (max 0 val) } :=
      ⟨⟨h.ordered.slsize, h.ordered.slpos⟩, h.divided, h.incs, ⟨h.user.1, short_le _⟩, h.short,
        fun hr => ⟨(h.drawn hr).scale, (h.drawn hr).long, (h.drawn hr).slsize, (h.drawn hr).slpos, (h.drawn hr).drawn⟩, h.idle⟩
    apply reshape_valid huser
    · intro ho
      rw [if_pos ho] at hshort
      exact hshort
    · intro _
      exact short_le _
  | WT_SIZE => exact size_valid h val
  | WT_POSITION => exact position_valid h val
  | WT_LINE_INC =>
    exact ⟨⟨h.ordered.slsize, h.ordered.slpos⟩, h.divided, ⟨hval, h.incs.2⟩, h.user, h.short,
      fun hr => ⟨(h.drawn hr).scale, (h.drawn hr).long, (h.drawn hr).slsize, (h.drawn hr).slpos, (h.drawn hr).drawn⟩, h.idle⟩
  | WT_PAGE_INC =>
    exact ⟨⟨h.ordered.slsize, h.ordered.slpos⟩, h.divided, ⟨h.incs.1, hval⟩, h.user, h.short,
      fun hr => ⟨(h.drawn hr).scale, (h.drawn hr).long, (h.drawn hr).slsize, (h.drawn hr).slpos, (h.drawn hr).drawn⟩, h.idle⟩
  | WT_TOTAL_SIZE => exact total_size_valid h hfits

theorem press_valid (h : Valid w) (hr : w.is_realized = true) (hidle : w.state = .Idle) {x y : Int}
    (hfits : StepFits w (pressed w x y)) : Valid (scroll_press w x y) ∧ (scroll_press w x y).slpos = moved w (pressed w x y) := by
  have hdrawn := h.drawn hr
  unfold scroll_press
  rw [if_neg (not_not.mpr hidle)]
  by_cases hmove : pressed w x y = .Move
  · rw [if_pos hmove, hmove]
    refine ⟨⟨⟨h.ordered.slsize, h.ordered.slpos⟩, h.divided, h.incs, h.user, h.short, fun _ => hdrawn.same _ _ _, fun hno => ?_⟩, rfl⟩
    exact absurd (hno.symm.trans hr) (by decide)
  · rw [if_neg hmove]
    have hstate : Valid { w with state := pressed w x y } :=
      ⟨⟨h.ordered.slsize, h.ordered.slpos⟩, h.divided, h.incs, h.user, h.short, fun _ => hdrawn.same _ _ _, h.idle⟩
    exact updown_valid hstate hr hfits

theorem tick_valid (h : Valid w) (mouse : Option (Int × Int))
    (hfits : w.timer = some .sb_updown_timer → StepFits w w.state) : Valid (scroll_tick w mouse) ∧
      (w.timer = some .sb_updown_timer → (scroll_tick w mouse).slpos = moved w w.state) := by
  unfold scroll_tick
  cases htimer : w.timer with
  | none => exact ⟨h, nofun⟩
  | some timer =>
    have hr : w.is_realized = true := by
      by_contra hno
      rw [h.idle (by simpa using hno)] at htimer
      cases htimer
    cases timer with
    | sb_move_timer => exact ⟨move_valid h.halted hr mouse, nofun⟩
    | sb_updown_timer =>
      obtain ⟨hvalid, hmoved⟩ := updown_valid h.halted hr (hfits htimer)
      exact ⟨hvalid, fun _ => hmoved⟩

theorem step_kept (h : Valid w) {e : Event} (hallowed : e.Allowed) (hfits : Fits w e) : Valid (step w e) ∧ Kept w e := by
  have hall : Valid (step w e) → (∀ st, stepping w e = some st → (step w e).slpos = moved w st) → Valid (step w e) ∧ Kept w e :=
    fun hvalid hmoved => ⟨hvalid, ⟨hvalid.ordered, hvalid.divided, hvalid.between, hmoved⟩⟩
  cases e with
  | setopt key val => exact hall (setopt_valid h hallowed hfits) nofun
  | realize => exact hall (realize_valid h hfits) nofun
  | press x y =>
    by_cases hr : w.is_realized = true
    · have hstep : step w (.press x y) = scroll_press w x y := if_pos hr
      by_cases hidle : w.state = .Idle
      · have hstepping : stepping w (.press x y) = some (pressed w x y) := if_pos ⟨hr, hidle⟩
        obtain ⟨hvalid, hmoved⟩ := press_valid h hr hidle (hfits _ hstepping)
        rw [← hstep] at hvalid hmoved
        apply hall hvalid
        intro st hst
        cases hstepping.symm.trans hst
        exact hmoved
      · have hsame : step w (.press x y) = w := by
          rw [hstep, scroll_press, if_pos hidle]
        apply hall
        · rw [hsame]
          exact h
        · intro st hst
          have hnone : stepping w (.press x y) = none := if_neg (fun hyes => hidle hyes.2)
          cases hnone.symm.trans hst
    · have hsame : step w (.press x y) = w := if_neg hr
      apply hall
      · rw [hsame]
        exact h
      · intro st hst
        have hnone : stepping w (.press x y) = none := if_neg (fun hyes => hr hyes.1)
        cases hnone.symm.trans hst
  | release =>
    apply hall _ nofun
    unfold step
    dsimp only
    split_ifs
    · exact cancel_valid h
    · exact h
  | tick mouse =>
    have hwhen (htimer : w.timer = some .sb_updown_timer) : stepping w (.tick mouse) = some w.state := if_pos htimer
    obtain ⟨hvalid, hmoved⟩ := tick_valid h mouse (fun htimer => hfits _ (hwhen htimer))
    apply hall hvalid
    intro st hst
    by_cases htimer : w.timer = some .sb_updown_timer
    · cases (hwhen htimer).symm.trans hst
      exact hmoved htimer
    · have hnone : stepping w (.tick mouse) = none := if_neg htimer
      cases hnone.symm.trans hst

theorem create_valid (orient : Orient) : Valid (scroll_create orient) := by
  have hsize : (0 : Int) ≤ 1024 := by decide
  have hlong : (0 : Int) ≤ 32767 := by decide
  refine ⟨⟨⟨le_refl _, hsize⟩, le_refl _, hsize⟩, rfl, ⟨le_refl _, le_refl _⟩, ⟨hlong, hlong⟩, ?_, nofun, fun _ => rfl⟩
  unfold abs_size
  split_ifs
  · exact hlong
  · exact hlong

/-- In a run whose events all fit the values stay in order, nothing is divided by zero, the slider is between the arrows and
every step goes as far as it can. -/
theorem scrollbar_kept (orient : Orient) (events : List Event)
    (h : AllSafe step (fun w e => e.Allowed ∧ Fits w e) (scroll_create orient) events) :
    AllSafe step Kept (scroll_create orient) events :=
  h.imp Valid (fun _ _ hvalid hsafe => step_kept hvalid hsafe.1 hsafe.2) (create_valid orient)

theorem scrollbar_kept_page :
    AllSafe step Kept (scroll_create .OrientVert) [.setopt .WT_SIZE 100, .setopt .WT_HEIGHT 200, .realize, .press 5 150] := by
  apply scrollbar_kept
  refine ⟨⟨by constructor <;> decide, nofun⟩, ⟨trivial, nofun⟩, ⟨trivial, .inr (by decide)⟩, ⟨trivial, ?_⟩, trivial⟩
  intro st hst goal hgoal
  have hdown : some State.PgDown = some st := by
    rw [← hst]
    decide
  cases hdown
  cases hgoal
  decide

/-- A scale of zero is a divisor, a slider that gets its size when it is realized is not at the start, and a page of 40000
goes backwards. -/
theorem scrollbar_not_kept : ¬ AllSafe step Kept (scroll_create .OrientVert) [.setopt .WT_TOTAL_SIZE 0, .realize] ∧
      ¬ AllSafe step Kept (scroll_create .OrientVert) [.setopt .WT_POSITION 5, .realize] ∧
        ¬ AllSafe step Kept (scroll_create .OrientVert)
          [.setopt .WT_TOTAL_SIZE 100000, .setopt .WT_SIZE 100, .setopt .WT_PAGE_INC 40000, .setopt .WT_HEIGHT 200, .realize,
            .press 5 150] := by
  refine ⟨fun h => ?_, fun h => ?_, fun h => ?_⟩
  · have hfault := h.2.1.divided
    revert hfault
    decide
  · have hpos := h.2.1.ordered.slpos.2
    revert hpos
    decide
  · have hmoved := h.2.2.2.2.2.1.moved .PgDown (by decide)
    revert hmoved
    decide

end WWindowSystem.Scrollbar
