import WWindowSystem.Library.Run
import WWindowSystem.Wt.Getstring

namespace WWindowSystem.Scrollbar

inductive Orient
  | OrientVert | OrientHorz
  deriving DecidableEq

inductive State
  | Idle | Up | Down | Move | PgUp | PgDown
  deriving DecidableEq

inductive Timer
  | sb_move_timer | sb_updown_timer
  deriving DecidableEq

/-- `drawn` is the place and the size of the slider on the screen, behind the upper arrow; `fault` is set by a division by
zero. -/
structure scroll_widget_t where
  w : widget_t
  is_realized : Bool
  orient : Orient
  slscale : Int
  slsize : Int
  slpos : Int
  slsize_abs : Int
  slpos_abs : Int
  mouse_pos : Int
  line_inc : Int
  page_inc : Int
  timer : Option Timer
  state : State
  usrwd : Int
  usrht : Int
  drawn : Int × Int
  fault : Bool
  deriving DecidableEq

def SLWD : Int := 17

def SLHT : Int := SLWD - 1

def abs_size (w : scroll_widget_t) : Int := if w.orient = .OrientHorz then w.w.w else w.w.h

def sb_slsize_rel2abs (w : scroll_widget_t) (rel_slsize : Int) : Int :=
  max (SLHT / 2) (((abs_size w - 2 * SLHT) * rel_slsize).tdiv w.slscale)

def sb_pos_rel2abs (w : scroll_widget_t) (rel_pos abs_slsize : Int) : Int :=
  ((abs_size w - 2 * SLHT - abs_slsize) * rel_pos).tdiv (max 1 (w.slscale - w.slsize))

def sb_pos_abs2rel (w : scroll_widget_t) (abs_pos abs_slsize : Int) : Int :=
  (abs_pos * (w.slscale - w.slsize)).tdiv (abs_size w - 2 * SLHT - abs_slsize)

def sb_draw_slider (w : scroll_widget_t) : scroll_widget_t :=
  let slsize := sb_slsize_rel2abs w w.slsize
  let pos := sb_pos_rel2abs w w.slpos slsize
  { w with slsize_abs := slsize, slpos_abs := pos, drawn := (pos, slsize), fault := w.fault || decide (w.slscale = 0) }

def sb_move_slider (w : scroll_widget_t) (abs_pos : Int) : Int × scroll_widget_t :=
  let abs_pos :=
    if abs_pos < 0 then 0
    else if abs_pos > abs_size w - 2 * SLHT - w.slsize_abs then abs_size w - 2 * SLHT - w.slsize_abs
    else abs_pos
  if abs_pos = w.slpos_abs then (-1, w)
  else if w.is_realized then (abs_pos, { w with drawn := (abs_pos, w.slsize_abs) })
  else (abs_pos, w)

def slide (w : scroll_widget_t) (r : Int) : scroll_widget_t :=
  { w with
    slpos := sb_pos_abs2rel w r w.slsize_abs
    slpos_abs := r
    fault := w.fault || decide (abs_size w - 2 * SLHT - w.slsize_abs = 0) }

def sb_move_timer (w : scroll_widget_t) (mouse : Option (Int × Int)) : scroll_widget_t :=
  match mouse with
  | none => { w with timer := none }
  | some (x, y) =>
    let pos := if w.orient = .OrientVert then y else x
    if pos = w.mouse_pos then { w with timer := some .sb_move_timer }
    else
      let p := sb_move_slider w (w.slpos_abs + pos - w.mouse_pos)
      if p.1 ≥ 0 then { slide { p.2 with mouse_pos := pos } p.1 with timer := some .sb_move_timer }
      else { p.2 with timer := some .sb_move_timer }

def target (w : scroll_widget_t) : State → Option Int
  | .Up => some (w.slpos - w.line_inc)
  | .Down => some (w.slpos + w.line_inc)
  | .PgUp => some (w.slpos - w.page_inc)
  | .PgDown => some (w.slpos + w.page_inc)
  | .Idle => none
  | .Move => none

def sb_updown_timer (w : scroll_widget_t) : scroll_widget_t :=
  match target w w.state with
  | none => { w with timer := none }
  | some goal =>
    let slpos := short goal
    let slpos := if slpos < 0 then 0 else if slpos > w.slscale - w.slsize then short (w.slscale - w.slsize) else slpos
    if slpos = w.slpos then w
    else
      let w := { w with slpos := slpos }
      let slpos_abs := short (sb_pos_rel2abs w slpos w.slsize_abs)
      { (sb_move_slider w slpos_abs).2 with slpos_abs := slpos_abs, timer := some .sb_updown_timer }

def sb_cancel (w : scroll_widget_t) : scroll_widget_t :=
  if w.state = .Idle then w else { w with timer := none, state := .Idle }

def scroll_create (orient : Orient) : scroll_widget_t where
  w := { x := 0, y := 0, w := 0, h := 0 }
  is_realized := false
  orient := orient
  slscale := 1024
  slsize := 0
  slpos := 0
  slsize_abs := 0
  slpos_abs := 0
  mouse_pos := 0
  line_inc := 0
  page_inc := 0
  timer := none
  state := .Idle
  usrwd := 0
  usrht := 0
  drawn := (0, 0)
  fault := false

def scroll_query_minsize (w : scroll_widget_t) : Int × Int :=
  if w.orient = .OrientHorz then (max (3 * SLHT) w.usrwd, SLWD) else (SLWD, max (3 * SLHT) w.usrht)

def scroll_query_geometry (w : scroll_widget_t) : Int × Int :=
  let (wd, ht) := scroll_query_minsize w
  if w.orient = .OrientHorz then (max wd w.w.w, ht) else (wd, max ht w.w.h)

def scroll_realize (w : scroll_widget_t) : scroll_widget_t :=
  if w.is_realized then w
  else
    let w := if w.slsize = 0 then { w with slsize := w.slscale } else w
    let w := if w.page_inc = 0 then { w with page_inc := w.slsize } else w
    let w := if w.line_inc = 0 then { w with line_inc := 1 } else w
    let (wd, ht) := scroll_query_geometry w
    { sb_draw_slider { w with w := { w.w with w := wd, h := ht } } with is_realized := true }

def scroll_reshape (w : scroll_widget_t) (wd ht : Int) : scroll_widget_t :=
  if wd ≠ w.w.w ∨ ht ≠ w.w.h then
    let (minwd, minht) := scroll_query_minsize w
    let (wd, ht) :=
      if w.orient = .OrientHorz then (if wd < minwd then minwd else wd, SLWD)
      else (SLWD, if ht < minht then minht else ht)
    if wd ≠ w.w.w ∨ ht ≠ w.w.h then
      let w := { w with w := { w.w with w := wd, h := ht } }
      if w.is_realized then sb_draw_slider (sb_cancel w) else w
    else w
  else w

inductive Option_t
  | WT_WIDTH | WT_HEIGHT | WT_SIZE | WT_POSITION | WT_LINE_INC | WT_PAGE_INC | WT_TOTAL_SIZE
  deriving DecidableEq

def set_size (w : scroll_widget_t) (val : Int) : scroll_widget_t :=
  if w.slsize = val then w
  else
    let w := { w with slsize := if val < 0 then 0 else if val > w.slscale then w.slscale else val }
    let w := if w.slpos > w.slscale - w.slsize then { w with slpos := w.slscale - w.slsize } else w
    if w.is_realized then sb_draw_slider w else w

def set_position (w : scroll_widget_t) (val : Int) : scroll_widget_t :=
  if w.slpos = val then w
  else
    let w := { w with slpos := if val < 0 then 0 else if val > w.slscale - w.slsize then w.slscale - w.slsize else val }
    let p := sb_move_slider w (sb_pos_rel2abs w w.slpos w.slsize_abs)
    if p.1 ≥ 0 then { p.2 with slpos_abs := p.1 } else p.2

def set_total_size (w : scroll_widget_t) (val : Int) : scroll_widget_t :=
  if w.slscale = val then w
  else
    let w := { w with slscale := if val < 0 then 0 else val }
    let w := if w.slsize > w.slscale then { w with slsize := w.slscale } else w
    let w := if w.slpos > w.slscale - w.slsize then { w with slpos := w.slscale - w.slsize } else w
    if w.is_realized then sb_draw_slider w else w

def scroll_setopt (w : scroll_widget_t) (key : Option_t) (val : Int) : scroll_widget_t :=
  match key with
  | .WT_WIDTH =>
    let w := { w with usrwd := short (max 0 val) }
    scroll_reshape w w.usrwd w.w.h
  | .WT_HEIGHT =>
    let w := { w with usrht := short (max 0 val) }
    scroll_reshape w w.w.w w.usrht
  | .WT_SIZE => set_size w val
  | .WT_POSITION => set_position w val
  | .WT_LINE_INC => { w with line_inc := val }
  | .WT_PAGE_INC => { w with page_inc := val }
  | .WT_TOTAL_SIZE => set_total_size w val

def pressed (w : scroll_widget_t) (x y : Int) : State :=
  let mpos := if w.orient = .OrientHorz then x else y
  if mpos < SLHT then .Up
  else if mpos ≥ abs_size w - SLHT then .Down
  else if mpos ≥ SLHT + w.slpos_abs ∧ mpos < SLHT + w.slpos_abs + w.slsize_abs then .Move
  else if mpos < SLHT + w.slpos_abs then .PgUp
  else .PgDown

def scroll_press (w : scroll_widget_t) (x y : Int) : scroll_widget_t :=
  if w.state ≠ .Idle then w
  else if pressed w x y = .Move then
    { w with timer := some .sb_move_timer, state := .Move, mouse_pos := if w.orient = .OrientHorz then x else y }
  else sb_updown_timer { w with state := pressed w x y }

def scroll_tick (w : scroll_widget_t) (mouse : Option (Int × Int)) : scroll_widget_t :=
  match w.timer with
  | none => w
  | some .sb_move_timer => sb_move_timer { w with timer := none } mouse
  | some .sb_updown_timer => sb_updown_timer { w with timer := none }

inductive Event
  | setopt (key : Option_t) (val : Int)
  | realize
  | press (x y : Int)
  | release
  | tick (mouse : Option (Int × Int))

def step (w : scroll_widget_t) : Event → scroll_widget_t
  | .setopt key val => scroll_setopt w key val
  | .realize => scroll_realize w
  | .press x y => if w.is_realized then scroll_press w x y else w
  | .release => if w.is_realized then sb_cancel w else w
  | .tick mouse => scroll_tick w mouse

end WWindowSystem.Scrollbar
