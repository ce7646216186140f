import WWindowSystem.Wt.ScrollbarRun

namespace WWindowSystem.Viewport

open Scrollbar

def sb_min_wd : Int := SLWD + 1

def sb_min_ht : Int := 3 * SLHT

inductive Fill
  | AlignFill | AlignFillVert | AlignFillHorz | other
  deriving DecidableEq

structure Bar where
  w : scroll_widget_t
  slpos_old : Int
  deriving DecidableEq

/-- What a viewport has once for each direction: its own size with `usrwd`, `cx` and `cw`, `hscroll`, and the place and the size
of the child. The lock is left out: it keeps back the reports of moves that the viewport makes, and a child reports its own. -/
structure Side where
  size : Int
  usr : Int
  c : Int
  total : Int
  bar : Bar
  place : Int
  extent : Int
  deriving DecidableEq

structure viewp_widget_t where
  is_realized : Bool
  life_scroll : Bool
  fill : Fill
  horz : Side
  vert : Side
  deriving DecidableEq

def Side.callback (life_scroll : Bool) (s : Side) (pos : Int) (pressed : Bool) : Side :=
  if pressed ∧ ¬ life_scroll then s
  else if -pos ≠ s.c then { s with place := -pos, c := -pos }
  else s

/-- The bar gets its new length, and a slider that is held calls back when `sb_cancel` lets it go. -/
def Side.stretch (life_scroll : Bool) (s : Side) : Side :=
  let len := s.size - sb_min_wd + 1
  let w := if s.bar.w.orient = .OrientHorz then scroll_reshape s.bar.w len (scroll_query_geometry s.bar.w).2
    else scroll_reshape s.bar.w (scroll_query_geometry s.bar.w).1 len
  let called := s.bar.w.state = .Move ∧ w.state = .Idle ∧ s.bar.slpos_old ≠ s.bar.w.slpos
  let s' := { s with bar := { s.bar with w := w } }
  if called then s'.callback life_scroll s.bar.w.slpos false else s'

def Side.place_child (s : Side) : Side :=
  let view := s.size - sb_min_wd
  if s.place > 0 then { s with c := s.place, place := 0, total := s.extent }
  else if s.place < view - s.extent then { s with c := min 0 (view - s.extent), place := min 0 (view - s.extent), total := s.extent }
  else { s with c := s.place, total := s.extent }

def Side.setopt (s : Side) (key : Option_t) (val : Int) : Side := { s with bar := { s.bar with w := scroll_setopt s.bar.w key val } }

def Side.rescale (s : Side) : Side :=
  let view := s.size - sb_min_wd
  (((s.setopt .WT_TOTAL_SIZE s.total).setopt .WT_SIZE view).setopt .WT_PAGE_INC view).setopt .WT_LINE_INC (view.tdiv 4)

def Side.reposition (s : Side) : Side := s.setopt .WT_POSITION (-s.c)

def Side.config (life_scroll size csize cpos : Bool) (s : Side) : Side :=
  let s := if size then s.stretch life_scroll else s
  let s := s.place_child
  let s := if csize || size then s.rescale else s
  if cpos || size then s.reposition else s

def viewp_config (w : viewp_widget_t) (size csize cpos : Bool) : viewp_widget_t :=
  { w with horz := w.horz.config w.life_scroll size csize cpos, vert := w.vert.config w.life_scroll size csize cpos }

def Side.filled (s : Side) : Side := { s with extent := max (s.size - sb_min_wd) sb_min_ht }

def reshape_child (w : viewp_widget_t) : viewp_widget_t × Bool :=
  match w.fill with
  | .AlignFillHorz => ({ w with horz := w.horz.filled }, true)
  | .AlignFillVert => ({ w with vert := w.vert.filled }, true)
  | .AlignFill => ({ w with horz := w.horz.filled, vert := w.vert.filled }, true)
  | .other => (w, false)

def viewp_create (life_scroll : Bool) (fill : Fill) (child : widget_t) : viewp_widget_t where
  is_realized := false
  life_scroll := life_scroll
  fill := fill
  horz := { size := 0, usr := 0, c := 0, total := 0, bar := ⟨scroll_create .OrientHorz, 0⟩, place := child.x, extent := child.w }
  vert := { size := 0, usr := 0, c := 0, total := 0, bar := ⟨scroll_create .OrientVert, 0⟩, place := child.y, extent := child.h }

def viewp_query_minsize (w : viewp_widget_t) : Int × Int :=
  let wd := max (max sb_min_ht 50 + sb_min_wd) w.horz.usr
  (wd, max (wd + sb_min_wd) w.vert.usr)

def viewp_resize (w : viewp_widget_t) (wd ht : Int) : viewp_widget_t :=
  { w with horz := { w.horz with size := wd }, vert := { w.vert with size := ht } }

def fitted (w : viewp_widget_t) (wd ht : Int) : Int × Int :=
  if wd ≠ w.horz.size ∨ ht ≠ w.vert.size then (max wd (viewp_query_minsize w).1, max ht (viewp_query_minsize w).2) else (wd, ht)

def viewp_reshape (w : viewp_widget_t) (wd ht : Int) : viewp_widget_t :=
  if fitted w wd ht ≠ (w.horz.size, w.vert.size) then
    let r := reshape_child (viewp_resize w (fitted w wd ht).1 (fitted w wd ht).2)
    if w.is_realized then viewp_config r.1 true r.2 r.2 else r.1
  else w

def viewp_realize (w : viewp_widget_t) : viewp_widget_t :=
  if w.is_realized then w
  else
    let w := if w.horz.size > 0 ∧ w.vert.size > 0 then w else viewp_resize w (viewp_query_minsize w).1 (viewp_query_minsize w).2
    let w := viewp_config (reshape_child w).1 true true true
    { w with
      is_realized := true
      horz := { w.horz with bar := { w.horz.bar with w := scroll_realize w.horz.bar.w } }
      vert := { w.vert with bar := { w.vert.bar with w := scroll_realize w.vert.bar.w } } }

def viewp_child_change (w : viewp_widget_t) (csize cpos : Bool) : viewp_widget_t :=
  if w.is_realized then viewp_config w false csize cpos else w

/-- What happens to a viewport. With `bar` the handlers of a scrollbar have brought it into a state, and they have called back or
not. -/
inductive Event
  | realize
  | reshape (wd ht : Int)
  | setWidth (val : Int)
  | setHeight (val : Int)
  | resizeChild (wd ht : Int)
  | moveChild (x y : Int)
  | hbar (bar : Bar) (called : Option Bool)
  | vbar (bar : Bar) (called : Option Bool)

def Side.barMoved (life_scroll : Bool) (s : Side) (bar : Bar) (called : Option Bool) : Side :=
  match called with
  | none => { s with bar := bar }
  | some pressed => Side.callback life_scroll { s with bar := bar } bar.w.slpos pressed

def step (w : viewp_widget_t) : Event → viewp_widget_t
  | .realize => viewp_realize w
  | .reshape wd ht => viewp_reshape w wd ht
  | .setWidth val => viewp_reshape { w with horz := { w.horz with usr := short (max 0 val) } } (short (max 0 val)) w.vert.size
  | .setHeight val => viewp_reshape { w with vert := { w.vert with usr := short (max 0 val) } } w.horz.size (short (max 0 val))
  | .resizeChild wd ht => viewp_child_change { w with horz := { w.horz with extent := wd }, vert := { w.vert with extent := ht } } true false
  | .moveChild x y => viewp_child_change { w with horz := { w.horz with place := x }, vert := { w.vert with place := y } } false true
  | .hbar bar called => if w.is_realized then { w with horz := w.horz.barMoved w.life_scroll bar called } else w
  | .vbar bar called => if w.is_realized then { w with vert := w.vert.barMoved w.life_scroll bar called } else w

/-! What is kept. -/

/-- The handlers of a scrollbar keep its scale and its size and leave the slider within the scale; when they do not call back it
stays where it is. -/
def Bar.Handled (bar bar' : Bar) (called : Option Bool) : Prop :=
  bar'.w.slscale = bar.w.slscale ∧ bar'.w.slsize = bar.w.slsize ∧ 0 ≤ bar'.w.slpos ∧ bar'.w.slpos ≤ bar.w.slscale - bar.w.slsize ∧
    (called = none → bar'.w.slpos = bar.w.slpos)

def Allowed (w : viewp_widget_t) : Event → Prop
  | .resizeChild wd ht => 0 < wd ∧ 0 < ht
  | .moveChild x y => x ≤ 0 ∧ y ≤ 0
  | .hbar bar called => w.horz.bar.Handled bar called
  | .vbar bar called => w.vert.bar.Handled bar called
  | _ => True

/-- The slider may be ahead of the child: it was moved while it is held, and the child follows when it is let go. -/
def ahead (called : Option Bool) (life_scroll before : Bool) : Bool :=
  match called with
  | none => before
  | some pressed => pressed && !life_scroll

def follow (s : viewp_widget_t × Bool × Bool) (e : Event) : viewp_widget_t × Bool × Bool :=
  (step s.1 e,
    match e with
    | .hbar _ called => (ahead called s.1.life_scroll s.2.1, s.2.2)
    | .vbar _ called => (s.2.1, ahead called s.1.life_scroll s.2.2)
    | .moveChild _ _ => (false, false)
    | .resizeChild _ _ => s.2
    | _ => if (step s.1 e).is_realized = s.1.is_realized ∧ (step s.1 e).horz.size = s.1.horz.size ∧ (step s.1 e).vert.size = s.1.vert.size
        then s.2 else (false, false))

def run (life_scroll : Bool) (fill : Fill) (child : widget_t) (events : List Event) : viewp_widget_t × Bool × Bool :=
  events.foldl follow (viewp_create life_scroll fill child, false, false)

structure Side.Agrees (s : Side) (ahead : Bool) : Prop where
  place : s.c = s.place
  within : min 0 (s.size - sb_min_wd - s.extent) ≤ s.c ∧ s.c ≤ 0
  total : s.total = s.extent
  slscale : s.bar.w.slscale = s.total
  slpos : ahead = false → s.bar.w.slpos = -s.c

structure Side.Ready (s : Side) : Prop where
  place : s.place ≤ 0
  extent : 0 < s.extent
  bar : Ordered s.bar.w

structure Side.Inv (s : Side) (ahead : Bool) : Prop where
  ready : s.Ready
  view : 50 ≤ s.size - sb_min_wd
  slsize : s.bar.w.slsize = min (s.size - sb_min_wd) s.extent
  agrees : s.Agrees ahead

variable {w : scroll_widget_t}

def scales (w : scroll_widget_t) : Int × Int × Int := (w.slscale, w.slsize, w.slpos)

theorem ordered_congr {w w' : scroll_widget_t} (h : Ordered w) (hs : scales w' = scales w) : Ordered w' := by
  simp only [scales, Prod.mk.injEq] at hs
  obtain ⟨h1, h2, h3⟩ := hs
  exact ⟨by rw [h1, h2]; exact h.slsize, by rw [h1, h2, h3]; exact h.slpos⟩

theorem draw_scales (w : scroll_widget_t) : scales (sb_draw_slider w) = scales w := rfl

theorem cancel_scales (w : scroll_widget_t) : scales (sb_cancel w) = scales w := by
  unfold sb_cancel
  split_ifs <;> rfl

theorem move_scales (w : scroll_widget_t) (pos : Int) : scales (sb_move_slider w pos).2 = scales w := by
  unfold sb_move_slider
  dsimp only
  split_ifs <;> rfl

theorem reshape_scales (w : scroll_widget_t) (wd ht : Int) : scales (scroll_reshape w wd ht) = scales w := by
  unfold scroll_reshape
  dsimp only
  split_ifs
  all_goals first | rfl | exact (draw_scales _).trans (cancel_scales _)

theorem realize_scales (h : 0 < w.slsize) : scales (scroll_realize w) = scales w := by
  unfold scroll_realize
  dsimp only
  rw [if_neg (show ¬ w.slsize = 0 by omega)]
  split_ifs <;> rfl

def clip (w : scroll_widget_t) : scroll_widget_t :=
  let w := if w.slpos > w.slscale - w.slsize then { w with slpos := w.slscale - w.slsize } else w
  if w.is_realized then sb_draw_slider w else w

theorem clip_scales (w : scroll_widget_t) : scales (clip w) = (w.slscale, w.slsize, min w.slpos (w.slscale - w.slsize)) := by
  unfold clip
  by_cases hpos : w.slpos > w.slscale - w.slsize
  · simp only [if_pos hpos]
    rw [min_eq_right (by omega)]
    split_ifs <;> rfl
  · simp only [if_neg hpos]
    rw [min_eq_left (by omega)]
    split_ifs <;> rfl

theorem total_size_scales (h : Ordered w) {val : Int} (hval : 0 ≤ val) :
    scales (scroll_setopt w .WT_TOTAL_SIZE val) = (val, min w.slsize val, min w.slpos (val - min w.slsize val)) := by
  obtain ⟨hsize, hpos⟩ := h
  by_cases hsame : w.slscale = val
  · have hstay : scroll_setopt w .WT_TOTAL_SIZE val = w := if_pos hsame
    rw [hstay]
    simp only [scales, Prod.mk.injEq]
    omega
  · have hclip : scroll_setopt w .WT_TOTAL_SIZE val =
        clip (if w.slsize > (if val < 0 then 0 else val) then { w with slscale := if val < 0 then 0 else val, slsize := if val < 0 then 0 else val }
          else { w with slscale := if val < 0 then 0 else val }) := if_neg hsame
    rw [hclip, clip_scales, if_neg (show ¬ val < 0 by omega)]
    by_cases hlarge : w.slsize > val
    · rw [if_pos hlarge, min_eq_right (show val ≤ w.slsize by omega)]
    · rw [if_neg hlarge, min_eq_left (show w.slsize ≤ val by omega)]

theorem size_scales (h : Ordered w) {val : Int} (hval : 0 ≤ val) :
    scales (scroll_setopt w .WT_SIZE val) = (w.slscale, min val w.slscale, min w.slpos (w.slscale - min val w.slscale)) := by
  obtain ⟨hsize, hpos⟩ := h
  by_cases hsame : w.slsize = val
  · have hstay : scroll_setopt w .WT_SIZE val = w := if_pos hsame
    rw [hstay]
    simp only [scales, Prod.mk.injEq, true_and]
    omega
  · have hclip : scroll_setopt w .WT_SIZE val = clip { w with slsize := if val < 0 then 0 else if val > w.slscale then w.slscale else val } := if_neg hsame
    rw [hclip, clip_scales, if_neg (show ¬ val < 0 by omega)]
    by_cases hlarge : val > w.slscale
    · rw [if_pos hlarge, min_eq_right (show w.slscale ≤ val by omega)]
    · rw [if_neg hlarge, min_eq_left (show val ≤ w.slscale by omega)]

theorem position_scales {v : Int} (hval : 0 ≤ v ∧ v ≤ w.slscale - w.slsize) :
    scales (scroll_setopt w .WT_POSITION v) = (w.slscale, w.slsize, v) := by
  simp only [scroll_setopt, set_position]
  by_cases hsame : w.slpos = v
  · rw [if_pos hsame, ← hsame]
    rfl
  · simp only [if_neg hsame, if_neg (show ¬ v < 0 by omega), if_neg (show ¬ v > w.slscale - w.slsize by omega)]
    have hmove := move_scales { w with slpos := v }
    split_ifs
    · exact hmove _
    · exact hmove _

/-! One direction. -/

variable (life_scroll : Bool)

theorem callback_same (s : Side) (pos : Int) (pressed : Bool) :
    (s.callback life_scroll pos pressed).size = s.size ∧ (s.callback life_scroll pos pressed).extent = s.extent ∧
      (s.callback life_scroll pos pressed).bar = s.bar ∧ (s.callback life_scroll pos pressed).total = s.total := by
  unfold Side.callback
  split_ifs <;> exact ⟨rfl, rfl, rfl, rfl⟩

variable {s : Side}

theorem Side.Ready.stretch (h : s.Ready) (life_scroll : Bool) :
    (s.stretch life_scroll).Ready ∧ (s.stretch life_scroll).size = s.size ∧ (s.stretch life_scroll).extent = s.extent := by
  obtain ⟨w, hw, hscales⟩ : ∃ w, w = (if s.bar.w.orient = .OrientHorz then
        scroll_reshape s.bar.w (s.size - sb_min_wd + 1) (scroll_query_geometry s.bar.w).2
      else scroll_reshape s.bar.w (scroll_query_geometry s.bar.w).1 (s.size - sb_min_wd + 1)) ∧ scales w = scales s.bar.w := by
    refine ⟨_, rfl, ?_⟩
    split_ifs <;> exact reshape_scales _ _ _
  have hbar : Ordered w := ordered_congr h.bar hscales
  unfold Side.stretch
  simp only [← hw]
  by_cases hcalled : s.bar.w.state = .Move ∧ w.state = .Idle ∧ s.bar.slpos_old ≠ s.bar.w.slpos
  · rw [if_pos hcalled]
    obtain ⟨h1, h2, h3, -⟩ := callback_same life_scroll { s with bar := { s.bar with w := w } } s.bar.w.slpos false
    refine ⟨⟨?_, by rw [h2]; exact h.extent, by rw [h3]; exact hbar⟩, h1, h2⟩
    unfold Side.callback
    have := h.bar.slpos.1
    have := h.place
    split_ifs <;> simp only <;> omega
  · rw [if_neg hcalled]
    exact ⟨⟨h.place, h.extent, hbar⟩, rfl, rfl⟩

theorem resized_scales (h : Ordered w) {t v : Int} (htotal : 0 ≤ t) (hview : 0 ≤ v) (page line : Int) :
    scales (scroll_setopt (scroll_setopt (scroll_setopt (scroll_setopt w .WT_TOTAL_SIZE t) .WT_SIZE v) .WT_PAGE_INC page) .WT_LINE_INC line) =
      (t, min v t, min (min w.slpos (t - min w.slsize t)) (t - min v t)) := by
  have h1 := total_size_scales h htotal
  obtain ⟨hsize, hpos⟩ := h
  generalize scroll_setopt w .WT_TOTAL_SIZE t = w1 at h1
  simp only [scales, Prod.mk.injEq] at h1
  have hord : Ordered w1 := ⟨by omega, by omega⟩
  have h2 : scales (scroll_setopt w1 .WT_SIZE v) = _ := size_scales hord hview
  rw [h1.1, h1.2.2] at h2
  exact h2

structure Side.Placed (s : Side) : Prop where
  ready : s.Ready
  view : 50 ≤ s.size - sb_min_wd
  place : s.c = s.place
  within : min 0 (s.size - sb_min_wd - s.extent) ≤ s.c ∧ s.c ≤ 0
  total : s.total = s.extent

theorem place_child_spec (h : s.Ready) (hview : 50 ≤ s.size - sb_min_wd) :
    s.place_child.Placed ∧ s.place_child.size = s.size ∧ s.place_child.extent = s.extent ∧ s.place_child.bar = s.bar ∧
      s.place_child.c = max s.place (min 0 (s.size - sb_min_wd - s.extent)) := by
  have hplace := h.place
  unfold Side.place_child
  simp only
  rw [if_neg (by omega)]
  by_cases hleft : s.place < s.size - sb_min_wd - s.extent
  · rw [if_pos hleft]
    exact ⟨⟨⟨min_le_left _ _, h.extent, h.bar⟩, hview, rfl, ⟨le_refl _, min_le_left _ _⟩, rfl⟩, rfl, rfl, rfl, by simp only; omega⟩
  · rw [if_neg hleft]
    exact ⟨⟨⟨hplace, h.extent, h.bar⟩, hview, rfl, ⟨by simp only; omega, hplace⟩, rfl⟩, rfl, rfl, rfl, by simp only; omega⟩

theorem ordered_of_scales {t v p : Int} (hs : scales w = (t, min v t, p)) (htotal : 0 ≤ t) (hview : 0 ≤ v) (hpos : 0 ≤ p ∧ p ≤ t - min v t) :
    Ordered w := by
  simp only [scales, Prod.mk.injEq] at hs
  exact ⟨by omega, by omega⟩

theorem Side.Placed.inv (h : s.Placed) {w : scroll_widget_t} {p : Int} {ahead : Bool}
    (hscales : scales w = (s.extent, min (s.size - sb_min_wd) s.extent, p)) (hp : 0 ≤ p ∧ p ≤ s.extent - min (s.size - sb_min_wd) s.extent)
    (hpos : ahead = false → p = -s.c) : { s with bar := { s.bar with w := w } }.Inv ahead := by
  have hextent := h.ready.extent
  have hview := h.view
  have hord := ordered_of_scales hscales (by omega) (by omega) hp
  simp only [scales, Prod.mk.injEq] at hscales
  obtain ⟨h1, h2, h3⟩ := hscales
  exact ⟨⟨h.ready.place, hextent, hord⟩, hview, h2, h.place, h.within, h.total, h1.trans h.total.symm, fun ha => h3.trans (hpos ha)⟩

theorem reposition_inv (h : s.Placed) {p : Int} (hscales : scales s.bar.w = (s.extent, min (s.size - sb_min_wd) s.extent, p)) :
    s.reposition.Inv false := by
  have hwithin := h.within
  have hset := hscales
  simp only [scales, Prod.mk.injEq] at hset
  have hlast := position_scales (w := s.bar.w) (v := -s.c) (by omega)
  rw [hset.1, hset.2.1] at hlast
  exact h.inv hlast (by omega) fun _ => rfl

theorem rescale_scales (h : s.Placed) :
    scales s.rescale.bar.w = (s.extent, min (s.size - sb_min_wd) s.extent,
      min (min s.bar.w.slpos (s.extent - min s.bar.w.slsize s.extent)) (s.extent - min (s.size - sb_min_wd) s.extent)) := by
  have hextent := h.ready.extent
  have hview := h.view
  have hscales := resized_scales (t := s.total) (v := s.size - sb_min_wd) h.ready.bar (by rw [h.total]; omega) (by omega)
    (s.size - sb_min_wd) ((s.size - sb_min_wd).tdiv 4)
  rw [← h.total]
  exact hscales

theorem Side.Placed.rescale (h : s.Placed) : s.rescale.Placed := by
  have hscales := rescale_scales h
  have hextent := h.ready.extent
  have hview := h.view
  obtain ⟨hsize, hpos⟩ := h.ready.bar
  exact ⟨⟨h.ready.place, hextent, ordered_of_scales hscales (by omega) (by omega) (by omega)⟩, hview, h.place, h.within, h.total⟩

theorem config_size (h : s.Ready) (hview : 50 ≤ s.size - sb_min_wd) (life_scroll csize cpos : Bool) :
    (s.config life_scroll true csize cpos).Inv false ∧ (s.config life_scroll true csize cpos).size = s.size := by
  obtain ⟨hs, hsize, -⟩ := h.stretch life_scroll
  obtain ⟨hplaced, hsz, -⟩ := place_child_spec hs (by rw [hsize]; exact hview)
  unfold Side.config
  simp only [Bool.or_true, if_true]
  generalize (s.stretch life_scroll).place_child = u at hplaced hsz
  exact ⟨reposition_inv hplaced.rescale (rescale_scales hplaced), hsz.trans hsize⟩

theorem config_child_size {ahead : Bool} (h : s.Inv ahead) {t : Side} (ht : t = { s with extent := t.extent }) (hextent : 0 < t.extent)
    (life_scroll : Bool) : (t.config life_scroll false true false).Inv ahead ∧ (t.config life_scroll false true false).size = s.size := by
  have hsame : t.size = s.size ∧ t.place = s.place ∧ t.bar = s.bar := by rw [ht]; exact ⟨rfl, rfl, rfl⟩
  obtain ⟨e1, e2, e3⟩ := hsame
  have hview := h.view
  have hslsize := h.slsize
  have hold := h.ready.extent
  have hbars := h.ready.bar
  obtain ⟨hplaced, hsz, hext, hbar, hc⟩ := place_child_spec (s := t) ⟨e2 ▸ h.ready.place, hextent, e3 ▸ hbars⟩ (e1 ▸ hview)
  unfold Side.config
  simp only [Bool.or_false, Bool.false_eq_true, if_false, if_true]
  generalize t.place_child = u at hplaced hsz hext hbar hc
  obtain ⟨hplace, hin, htot, hscale, hslpos⟩ := h.agrees
  obtain ⟨hord1, hord2⟩ := hbars
  have hscales := rescale_scales hplaced
  rw [hbar, e3] at hscales
  refine ⟨hplaced.inv (w := u.rescale.bar.w) hscales (by omega) fun ha => ?_, hsz.trans e1⟩
  have := hslpos ha
  omega

theorem config_child_place {ahead : Bool} (h : s.Inv ahead) {t : Side} (ht : t = { s with place := t.place }) (hplace : t.place ≤ 0)
    (life_scroll : Bool) : (t.config life_scroll false false true).Inv false ∧ (t.config life_scroll false false true).size = s.size := by
  have hsame : t.size = s.size ∧ t.extent = s.extent ∧ t.bar = s.bar := by rw [ht]; exact ⟨rfl, rfl, rfl⟩
  obtain ⟨e1, e2, e3⟩ := hsame
  obtain ⟨hplaced, hsz, hext, hbar, -⟩ := place_child_spec (s := t) ⟨hplace, e2 ▸ h.ready.extent, e3 ▸ h.ready.bar⟩ (e1 ▸ h.view)
  unfold Side.config
  simp only [Bool.or_false, Bool.false_eq_true, if_false, if_true]
  generalize t.place_child = u at hplaced hsz hext hbar
  refine ⟨reposition_inv (p := s.bar.w.slpos) hplaced ?_, hsz.trans e1⟩
  rw [hbar, hext, hsz, e1, e2, e3]
  simp only [scales, Prod.mk.injEq, and_true]
  exact ⟨h.agrees.slscale.trans h.agrees.total, h.slsize⟩

theorem bar_moved {lag : Bool} (h : s.Inv lag) {bar : Bar} {called : Option Bool} (hbar : s.bar.Handled bar called) (life_scroll : Bool) :
    (s.barMoved life_scroll bar called).Inv (ahead called life_scroll lag) ∧ (s.barMoved life_scroll bar called).size = s.size := by
  obtain ⟨h1, h2, h3, h4, h5⟩ := hbar
  have hslsize := h.slsize
  have hview := h.view
  have hextent := h.ready.extent
  obtain ⟨hplace, hin, htot, hscale, hslpos⟩ := h.agrees
  have hscales : scales bar.w = (s.extent, min (s.size - sb_min_wd) s.extent, bar.w.slpos) := by
    simp only [scales, Prod.mk.injEq, and_true]
    omega
  have hp : 0 ≤ bar.w.slpos ∧ bar.w.slpos ≤ s.extent - min (s.size - sb_min_wd) s.extent := by omega
  have hord : Ordered bar.w := ordered_of_scales hscales (by omega) (by omega) hp
  have hplaced : { s with bar := bar }.Placed := ⟨⟨h.ready.place, hextent, hord⟩, hview, hplace, hin, htot⟩
  cases called with
  | none => exact ⟨hplaced.inv hscales hp fun ha => (h5 rfl).trans (hslpos ha), rfl⟩
  | some pressed =>
    unfold Side.barMoved Side.callback
    simp only [ahead]
    by_cases hlazy : pressed = true ∧ ¬ life_scroll = true
    · rw [if_pos hlazy]
      refine ⟨hplaced.inv hscales hp fun ha => ?_, rfl⟩
      simp [hlazy.1, hlazy.2] at ha
    · rw [if_neg hlazy]
      by_cases hmove : -bar.w.slpos ≠ s.c
      · rw [if_pos hmove]
        have hnew : { s with bar := bar, place := -bar.w.slpos, c := -bar.w.slpos }.Placed :=
          ⟨⟨show -bar.w.slpos ≤ 0 by omega, hextent, hord⟩, hview, rfl, ⟨by simp only; omega, by simp only; omega⟩, htot⟩
        exact ⟨hnew.inv hscales hp fun _ => (Int.neg_neg _).symm, rfl⟩
      · rw [if_neg hmove]
        exact ⟨hplaced.inv hscales hp fun _ => by simp only; omega, rfl⟩

/-! Whole runs. -/

theorem Side.Inv.usr {ahead : Bool} (h : s.Inv ahead) (usr : Int) : { s with usr := usr }.Inv ahead :=
  ⟨⟨h.ready.place, h.ready.extent, h.ready.bar⟩, h.view, h.slsize, ⟨h.agrees.place, h.agrees.within, h.agrees.total, h.agrees.slscale, h.agrees.slpos⟩⟩

def Sized (size : Int) : Prop := size = 0 ∨ 50 ≤ size - sb_min_wd

structure Inv (s : viewp_widget_t × Bool × Bool) : Prop where
  before : s.1.is_realized = false → s.1.horz.Ready ∧ s.1.vert.Ready ∧ Sized s.1.horz.size ∧ Sized s.1.vert.size
  after : s.1.is_realized = true → s.1.horz.Inv s.2.1 ∧ s.1.vert.Inv s.2.2

theorem Side.Ready.filled (h : s.Ready) : s.filled.Ready :=
  ⟨h.place, show 0 < max _ _ by unfold sb_min_ht SLHT SLWD; omega, h.bar⟩

theorem reshape_child_ready {w : viewp_widget_t} (hh : w.horz.Ready) (hv : w.vert.Ready) :
    (reshape_child w).1.horz.Ready ∧ (reshape_child w).1.vert.Ready ∧ (reshape_child w).1.horz.size = w.horz.size ∧
      (reshape_child w).1.vert.size = w.vert.size ∧ (reshape_child w).1.is_realized = w.is_realized := by
  unfold reshape_child
  cases w.fill with
  | AlignFill => exact ⟨hh.filled, hv.filled, rfl, rfl, rfl⟩
  | AlignFillVert => exact ⟨hh, hv.filled, rfl, rfl, rfl⟩
  | AlignFillHorz => exact ⟨hh.filled, hv, rfl, rfl, rfl⟩
  | other => exact ⟨hh, hv, rfl, rfl, rfl⟩

theorem minsize_large (w : viewp_widget_t) : 50 ≤ (viewp_query_minsize w).1 - sb_min_wd ∧ 50 ≤ (viewp_query_minsize w).2 - sb_min_wd := by
  unfold viewp_query_minsize sb_min_ht sb_min_wd SLHT SLWD
  simp only
  omega

theorem reshape_inv {w : viewp_widget_t} (hh : w.horz.Ready) (hv : w.vert.Ready) {wd ht : Int}
    (hne : fitted w wd ht ≠ (w.horz.size, w.vert.size)) :
    (viewp_reshape w wd ht).is_realized = w.is_realized ∧ Inv (viewp_reshape w wd ht, false, false) ∧
      ((viewp_reshape w wd ht).horz.size, (viewp_reshape w wd ht).vert.size) = fitted w wd ht := by
  have hmin := minsize_large w
  have hfit : 50 ≤ (fitted w wd ht).1 - sb_min_wd ∧ 50 ≤ (fitted w wd ht).2 - sb_min_wd := by
    unfold fitted at hne ⊢
    by_cases hsame : wd ≠ w.horz.size ∨ ht ≠ w.vert.size
    · rw [if_pos hsame]
      simp only
      omega
    · rw [if_neg hsame] at hne
      exact absurd (by simp only [Prod.mk.injEq]; omega) hne
  unfold viewp_reshape
  rw [if_pos hne]
  obtain ⟨h1, h2, h3, h4, h5⟩ := reshape_child_ready (w := viewp_resize w (fitted w wd ht).1 (fitted w wd ht).2)
    ⟨hh.place, hh.extent, hh.bar⟩ ⟨hv.place, hv.extent, hv.bar⟩
  generalize reshape_child (viewp_resize w (fitted w wd ht).1 (fitted w wd ht).2) = r at h1 h2 h3 h4 h5
  simp only [viewp_resize] at h3 h4 h5
  by_cases hreal : w.is_realized = true
  · simp only [hreal, if_true]
    obtain ⟨hch, hszh⟩ := config_size h1 (by omega) r.1.life_scroll r.2 r.2
    obtain ⟨hcv, hszv⟩ := config_size h2 (by omega) r.1.life_scroll r.2 r.2
    refine ⟨h5.trans hreal, ⟨fun hno => ?_, fun _ => ⟨hch, hcv⟩⟩, ?_⟩
    · exact absurd (h5.trans hreal) (by simp only [viewp_config] at hno; simp [hno])
    · simp only [viewp_config, hszh, hszv, h3, h4]
  · rw [Bool.not_eq_true] at hreal
    simp only [hreal, Bool.false_eq_true, if_false]
    refine ⟨h5.trans hreal, ⟨fun _ => ⟨h1, h2, .inr ?_, .inr ?_⟩, fun hyes => ?_⟩, by simp only [h3, h4]⟩
    · simp only
      omega
    · simp only
      omega
    · exact absurd (hyes.symm.trans (h5.trans hreal)) (by decide)

theorem Inv.sides {s : viewp_widget_t × Bool × Bool} (h : Inv s) :
    s.1.horz.Ready ∧ s.1.vert.Ready ∧ Sized s.1.horz.size ∧ Sized s.1.vert.size := by
  cases hreal : s.1.is_realized with
  | false => exact h.before hreal
  | true =>
    obtain ⟨h1, h2⟩ := h.after hreal
    exact ⟨h1.ready, h2.ready, .inr h1.view, .inr h2.view⟩

variable {lag : Bool × Bool}

theorem usr_inv {w : viewp_widget_t} (h : Inv (w, lag)) (usrwd usrht : Int) :
    Inv ({ w with horz := { w.horz with usr := usrwd }, vert := { w.vert with usr := usrht } }, lag) := by
  refine ⟨fun hno => ?_, fun hyes => ?_⟩
  · obtain ⟨h1, h2, h3, h4⟩ := h.before hno
    exact ⟨⟨h1.place, h1.extent, h1.bar⟩, ⟨h2.place, h2.extent, h2.bar⟩, h3, h4⟩
  · obtain ⟨h1, h2⟩ := h.after hyes
    exact ⟨h1.usr usrwd, h2.usr usrht⟩

theorem reshape_step {s : viewp_widget_t × Bool × Bool} {w : viewp_widget_t} (h : Inv (w, s.2)) (hsame : w.is_realized = s.1.is_realized ∧
    w.horz.size = s.1.horz.size ∧ w.vert.size = s.1.vert.size) (wd ht : Int) :
    Inv (viewp_reshape w wd ht, if (viewp_reshape w wd ht).is_realized = s.1.is_realized ∧ (viewp_reshape w wd ht).horz.size = s.1.horz.size ∧
      (viewp_reshape w wd ht).vert.size = s.1.vert.size then s.2 else (false, false)) := by
  obtain ⟨hh, hv, -⟩ := h.sides
  by_cases hne : fitted w wd ht ≠ (w.horz.size, w.vert.size)
  · obtain ⟨hreal, hinv, hsizes⟩ := reshape_inv hh hv hne
    rw [if_neg]
    · exact hinv
    · rintro ⟨-, h1, h2⟩
      exact hne (by rw [← hsizes, h1, h2, hsame.2.1, hsame.2.2])
  · have hstay : viewp_reshape w wd ht = w := if_neg hne
    rw [hstay, if_pos hsame]
    exact h

theorem realized_side {ahead : Bool} (h : s.Inv ahead) : { s with bar := { s.bar with w := scroll_realize s.bar.w } }.Inv ahead := by
  have hscales : scales (scroll_realize s.bar.w) = scales s.bar.w := realize_scales (by
    have := h.slsize
    have := h.view
    have := h.ready.extent
    omega)
  have hord := ordered_congr h.ready.bar hscales
  simp only [scales, Prod.mk.injEq] at hscales
  obtain ⟨e1, e2, e3⟩ := hscales
  exact ⟨⟨h.ready.place, h.ready.extent, hord⟩, h.view, e2.trans h.slsize,
    ⟨h.agrees.place, h.agrees.within, h.agrees.total, e1.trans h.agrees.slscale, fun ha => e3.trans (h.agrees.slpos ha)⟩⟩

theorem realize_inv {w : viewp_widget_t} (hreal : w.is_realized = false) (hh : w.horz.Ready) (hv : w.vert.Ready) (hsh : Sized w.horz.size)
    (hsv : Sized w.vert.size) : (viewp_realize w).is_realized = true ∧ Inv (viewp_realize w, false, false) := by
  have hmin := minsize_large w
  unfold viewp_realize
  simp only [hreal, Bool.false_eq_true, if_false]
  obtain ⟨v, hv', hview⟩ : ∃ v, v = (if w.horz.size > 0 ∧ w.vert.size > 0 then w else viewp_resize w (viewp_query_minsize w).1 (viewp_query_minsize w).2) ∧
      v.horz.Ready ∧ v.vert.Ready ∧ 50 ≤ v.horz.size - sb_min_wd ∧ 50 ≤ v.vert.size - sb_min_wd := by
    refine ⟨_, rfl, ?_⟩
    by_cases hpos : w.horz.size > 0 ∧ w.vert.size > 0
    · rw [if_pos hpos]
      unfold Sized at hsh hsv
      exact ⟨hh, hv, by omega, by omega⟩
    · rw [if_neg hpos]
      exact ⟨⟨hh.place, hh.extent, hh.bar⟩, ⟨hv.place, hv.extent, hv.bar⟩, hmin.1, hmin.2⟩
  rw [← hv']
  obtain ⟨hhv, hvv, hviewh, hviewv⟩ := hview
  obtain ⟨h1, h2, h3, h4, -⟩ := reshape_child_ready hhv hvv
  generalize (reshape_child v).1 = r at h1 h2 h3 h4
  obtain ⟨hch, -⟩ := config_size h1 (by omega) r.life_scroll true true
  obtain ⟨hcv, -⟩ := config_size h2 (by omega) r.life_scroll true true
  refine ⟨trivial, nofun, fun _ => ⟨?_, ?_⟩⟩
  · exact realized_side hch
  · exact realized_side hcv

theorem child_resized {w : viewp_widget_t} (h : Inv (w, lag)) {wd ht : Int} (hpos : 0 < wd ∧ 0 < ht) :
    Inv (viewp_child_change { w with horz := { w.horz with extent := wd }, vert := { w.vert with extent := ht } } true false, lag) := by
  unfold viewp_child_change
  cases hreal : w.is_realized with
  | false =>
    simp only [Bool.false_eq_true, if_false]
    obtain ⟨h1, h2, h3, h4⟩ := h.before hreal
    exact ⟨fun _ => ⟨⟨h1.place, hpos.1, h1.bar⟩, ⟨h2.place, hpos.2, h2.bar⟩, h3, h4⟩, nofun⟩
  | true =>
    simp only [if_true]
    obtain ⟨h1, h2⟩ := h.after hreal
    exact ⟨nofun, fun _ => ⟨(config_child_size h1 rfl hpos.1 w.life_scroll).1, (config_child_size h2 rfl hpos.2 w.life_scroll).1⟩⟩

theorem child_moved {w : viewp_widget_t} (h : Inv (w, lag)) {x y : Int} (hpos : x ≤ 0 ∧ y ≤ 0) :
    Inv (viewp_child_change { w with horz := { w.horz with place := x }, vert := { w.vert with place := y } } false true, false, false) := by
  unfold viewp_child_change
  cases hreal : w.is_realized with
  | false =>
    simp only [Bool.false_eq_true, if_false]
    obtain ⟨h1, h2, h3, h4⟩ := h.before hreal
    exact ⟨fun _ => ⟨⟨hpos.1, h1.extent, h1.bar⟩, ⟨hpos.2, h2.extent, h2.bar⟩, h3, h4⟩, nofun⟩
  | true =>
    simp only [if_true]
    obtain ⟨h1, h2⟩ := h.after hreal
    exact ⟨nofun, fun _ => ⟨(config_child_place h1 rfl hpos.1 w.life_scroll).1, (config_child_place h2 rfl hpos.2 w.life_scroll).1⟩⟩

theorem follow_inv {s : viewp_widget_t × Bool × Bool} (h : Inv s) {e : Event} (he : Allowed s.1 e) : Inv (follow s e) := by
  obtain ⟨w, lagh, lagv⟩ := s
  obtain ⟨hh, hv, hsh, hsv⟩ := h.sides
  cases e with
  | realize =>
    cases hreal : w.is_realized with
    | false =>
      obtain ⟨hyes, hinv⟩ := realize_inv hreal hh hv hsh hsv
      have hlag : (follow (w, lagh, lagv) .realize).2 = (false, false) :=
        if_neg fun hsame => absurd (hyes.symm.trans (hsame.1.trans hreal)) (by decide)
      rw [show follow (w, lagh, lagv) .realize = (viewp_realize w, false, false) from Prod.ext rfl hlag]
      exact hinv
    | true =>
      have hstay : viewp_realize w = w := if_pos hreal
      have hlag : (follow (w, lagh, lagv) .realize).2 = (lagh, lagv) := if_pos (by simp only [step, hstay, and_self])
      rw [show follow (w, lagh, lagv) .realize = (w, lagh, lagv) from Prod.ext hstay hlag]
      exact h
  | reshape wd ht => exact reshape_step (s := (w, lagh, lagv)) h ⟨rfl, rfl, rfl⟩ wd ht
  | setWidth val =>
    have hinv : Inv ({ w with horz := { w.horz with usr := short (max 0 val) } }, lagh, lagv) := usr_inv h _ _
    exact reshape_step (s := (w, lagh, lagv)) hinv ⟨rfl, rfl, rfl⟩ _ _
  | setHeight val =>
    have hinv : Inv ({ w with vert := { w.vert with usr := short (max 0 val) } }, lagh, lagv) := usr_inv h _ _
    exact reshape_step (s := (w, lagh, lagv)) hinv ⟨rfl, rfl, rfl⟩ _ _
  | resizeChild wd ht => exact child_resized h he
  | moveChild x y => exact child_moved h he
  | hbar bar called =>
    simp only [follow, step]
    cases hreal : w.is_realized with
    | false => exact ⟨fun _ => h.before hreal, fun hyes => absurd (hyes.symm.trans hreal) (by decide)⟩
    | true =>
      obtain ⟨h1, h2⟩ := h.after hreal
      simp only [if_true]
      exact ⟨nofun, fun _ => ⟨(bar_moved h1 he w.life_scroll).1, h2⟩⟩
  | vbar bar called =>
    simp only [follow, step]
    cases hreal : w.is_realized with
    | false => exact ⟨fun _ => h.before hreal, fun hyes => absurd (hyes.symm.trans hreal) (by decide)⟩
    | true =>
      obtain ⟨h1, h2⟩ := h.after hreal
      simp only [if_true]
      exact ⟨nofun, fun _ => ⟨h1, (bar_moved h2 he w.life_scroll).1⟩⟩

theorem create_inv (fill : Fill) {child : widget_t} (hplace : child.x ≤ 0 ∧ child.y ≤ 0) (hsize : 0 < child.w ∧ 0 < child.h) :
    Inv (viewp_create life_scroll fill child, false, false) :=
  ⟨fun _ => ⟨⟨hplace.1, hsize.1, (create_valid .OrientHorz).ordered⟩, ⟨hplace.2, hsize.2, (create_valid .OrientVert).ordered⟩, .inl rfl, .inl rfl⟩, nofun⟩

theorem viewport_agrees (life_scroll : Bool) (fill : Fill) {child : widget_t} (hplace : child.x ≤ 0 ∧ child.y ≤ 0) (hsize : 0 < child.w ∧ 0 < child.h)
    {events : List Event} (hevents : AllSafe follow (fun s e => Allowed s.1 e) (viewp_create life_scroll fill child, false, false) events)
    (hreal : (run life_scroll fill child events).1.is_realized = true) :
    (run life_scroll fill child events).1.horz.Agrees (run life_scroll fill child events).2.1 ∧
      (run life_scroll fill child events).1.vert.Agrees (run life_scroll fill child events).2.2 := by
  have hinv := AllSafe.invariant Inv (fun s e hs he => follow_inv hs he) hevents (create_inv life_scroll fill hplace hsize)
  obtain ⟨h1, h2⟩ := hinv.after hreal
  exact ⟨h1.agrees, h2.agrees⟩

theorem viewport_agrees_moved : (run false .other ⟨0, 0, 200, 100⟩ [.realize, .moveChild (-20) 0]).1.horz.Agrees false ∧
    (run false .other ⟨0, 0, 200, 100⟩ [.realize, .moveChild (-20) 0]).1.vert.Agrees false :=
  viewport_agrees false .other (by decide) (by decide) ⟨trivial, ⟨by decide, by decide⟩, trivial⟩ (by decide +kernel)

def shown : viewp_widget_t := viewp_realize (viewp_create false .other ⟨0, 0, 200, 100⟩)

def held (pos : Int) : Bar := { shown.horz.bar with w := { shown.horz.bar.w with state := .Move, slpos := pos } }

theorem slider_is_ahead : shown.horz.bar.Handled (held 20) (some true) ∧ (step shown (.hbar (held 20) (some true))).horz.bar.w.slpos = 20 ∧
    (step shown (.hbar (held 20) (some true))).horz.c = 0 ∧ (step shown (.moveChild 5 0)).horz.c = 5 ∧ (step shown (.moveChild 5 0)).horz.place = 0 := by
  unfold Bar.Handled
  decide +kernel

end WWindowSystem.Viewport
