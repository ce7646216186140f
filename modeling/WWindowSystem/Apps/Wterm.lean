import WWindowSystem.Library.Run

namespace WWindowSystem.Wterm

def SMALLBUFFER : Nat := 63

def MAX_PARAMETERS : Nat := 6

def MAX_COLORS : Int := 8

def F_NORMAL : Nat := 0

def F_REVERSE : Nat := 1

def F_UNDERLINE : Nat := 2

def F_ITALIC : Nat := 4

def F_BOLD : Nat := 8

def F_LIGHT : Nat := 16

inductive Mode
  | M_CLEAR
  | M_DRAW
  | M_INVERS
  deriving DecidableEq

inductive Request
  | pbox (x y w h : Int)
  | vscroll (x y w h ny : Int)
  | printstring (x y : Int) (text : List Nat)
  | setmode (mode : Mode)
  | settextstyle (style : Nat)
  | setBackgroundColor (index : Int)
  | setForegroundColor (index : Int)
  | test
  | beep
  deriving DecidableEq

/-- `reading` holds while the bytes of one `read` are printed; `sent` and `indexed` are the requests of the last step and the
places of `parameter` it has used. -/
structure Term where
  winw : Int
  winh : Int
  fonw : Int
  fonh : Int
  col : Int
  row : Int
  widecol : Bool
  widerow : Bool
  Colors : Int
  reversed : Bool
  visualbell : Bool
  cblink : Bool
  bgmode : Mode
  style : Nat
  escstate : Nat
  curx : Int
  cury : Int
  curon : Bool
  curvis : Bool
  savx : Int
  savy : Int
  wrap : Bool
  xtermemu : Nat
  params : Nat
  parameter : Nat → Int
  sbufx : Int
  sbufy : Int
  sbuf : List Nat
  reading : Bool
  sent : List Request
  indexed : List Nat

def Term.send (r : Request) (s : Term) : Term := { s with sent := s.sent ++ [r] }

def w_pbox (x y w h : Int) (s : Term) : Term := s.send (.pbox x y w h)

def w_vscroll (x y w h ny : Int) (s : Term) : Term := s.send (.vscroll x y w h ny)

def w_setmode (mode : Mode) (s : Term) : Term := s.send (.setmode mode)

def w_settextstyle (s : Term) : Term := s.send (.settextstyle s.style)

def draw_cursor (s : Term) : Term :=
  if s.curvis then s
  else w_pbox (s.curx * s.fonw) (s.cury * s.fonh) s.fonw s.fonh (w_setmode .M_INVERS { s with curvis := true })

def hide_cursor (s : Term) : Term :=
  if s.curvis then w_pbox (s.curx * s.fonw) (s.cury * s.fonh) s.fonw s.fonh (w_setmode .M_INVERS { s with curvis := false })
  else s

def mode_of (color : Bool) : Mode := if color then .M_DRAW else .M_CLEAR

def change_bgmode (color : Bool) (s : Term) : Term :=
  if s.bgmode ≠ mode_of color then w_settextstyle { s with bgmode := mode_of color, style := s.style ^^^ F_REVERSE } else s

def digit (c : Nat) : Nat := (c + 208) % 256

def esc5 (c : Nat) (s : Term) : Term :=
  let s :=
    if s.Colors ≠ 0 then (if (digit c : Int) < s.Colors then s.send (.setBackgroundColor (digit c)) else s)
    else change_bgmode (decide (digit c = 0)) s
  { s with escstate := 0 }

def esc4 (c : Nat) (s : Term) : Term :=
  let s :=
    if s.Colors ≠ 0 then (if (digit c : Int) < s.Colors then s.send (.setForegroundColor (digit c)) else s)
    else change_bgmode (decide (digit c ≠ 0)) s
  { s with escstate := 0 }

def masked (wide : Bool) (c : Nat) : Int := if wide then (c : Int) - 32 else ((c : Int) - 32) % 128

def clamp (v size : Int) : Int := if size ≤ v then size - 1 else if v < 0 then 0 else v

def esc3 (c : Nat) (s : Term) : Term := { s with curx := clamp (masked s.widecol c) s.col, escstate := 0 }

def esc2 (c : Nat) (s : Term) : Term := { s with cury := clamp (masked s.widerow c) s.row, escstate := 3 }

def set_style (style : Nat) (s : Term) : Term := w_settextstyle { s with style := style }

def clear_attributes (s : Term) : Term :=
  let s :=
    if s.Colors ≠ 0 then
      let (bg, fg) := if s.reversed then (0, s.Colors - 1) else (s.Colors - 1, 0)
      { (s.send (.setBackgroundColor bg)).send (.setForegroundColor fg) with style := F_NORMAL, bgmode := .M_CLEAR }
    else if s.reversed then { s with bgmode := .M_DRAW, style := F_REVERSE }
    else { s with style := F_NORMAL, bgmode := .M_CLEAR }
  { w_settextstyle s with curon := true }

def off (style flag : Nat) : Nat := style &&& (31 ^^^ flag)

def esc1_code (c : Char) (s : Term) : Term :=
  match c with
  | '[' => { s with escstate := 10 }
  | 'A' => { s with cury := if s.cury - 1 < 0 then 0 else s.cury - 1 }
  | 'B' => { s with cury := if s.row ≤ s.cury + 1 then s.row - 1 else s.cury + 1 }
  | 'C' => { s with curx := if s.col ≤ s.curx + 1 then s.col - 1 else s.curx + 1 }
  | 'D' => { s with curx := if s.curx - 1 < 0 then 0 else s.curx - 1 }
  | 'E' => { w_pbox 0 0 s.winw s.winh (w_setmode s.bgmode s) with curx := 0, cury := 0 }
  | 'H' => { s with curx := 0, cury := 0 }
  | 'I' =>
    if s.cury - 1 < 0 then
      w_pbox 0 0 s.winw s.fonh
        (w_setmode s.bgmode (w_vscroll 0 0 s.winw ((s.row - 1) * s.fonh) s.fonh { s with cury := 0 }))
    else { s with cury := s.cury - 1 }
  | 'J' =>
    let s := w_setmode s.bgmode s
    let s := if s.cury < s.row - 1 then w_pbox 0 ((s.cury + 1) * s.fonh) s.winw ((s.row - 1 - s.cury) * s.fonh) s else s
    w_pbox (s.curx * s.fonw) (s.cury * s.fonh) ((s.col - s.curx) * s.fonw) s.fonh s
  | 'K' => w_pbox (s.curx * s.fonw) (s.cury * s.fonh) ((s.col - s.curx) * s.fonw) s.fonh (w_setmode s.bgmode s)
  | 'L' =>
    let s :=
      if s.cury < s.row - 1 then
        w_vscroll 0 (s.cury * s.fonh) s.winw ((s.row - 1 - s.cury) * s.fonh) ((s.cury + 1) * s.fonh) s
      else s
    { w_pbox 0 (s.cury * s.fonh) s.winw s.fonh (w_setmode s.bgmode s) with curx := 0 }
  | 'M' =>
    let s :=
      if s.cury < s.row - 1 then
        w_vscroll 0 ((s.cury + 1) * s.fonh) s.winw ((s.row - 1 - s.cury) * s.fonh) (s.cury * s.fonh) s
      else s
    { w_pbox 0 ((s.row - 1) * s.fonh) s.winw s.fonh (w_setmode s.bgmode s) with curx := 0 }
  | 'Y' => { s with escstate := 2 }
  | 'b' => { s with escstate := 4 }
  | 'c' => { s with escstate := 5 }
  | 'd' =>
    let s := w_setmode s.bgmode s
    let s := if 0 < s.cury then w_pbox 0 0 s.winw (s.cury * s.fonh) s else s
    if 0 < s.curx then w_pbox 0 (s.cury * s.fonh) (s.curx * s.fonw) s.fonh s else s
  | 'e' => { s with curon := true }
  | 'f' => { s with curon := false }
  | 'j' => { s with savx := s.curx, savy := s.cury }
  | 'k' => { s with curx := s.savx, cury := s.savy }
  | 'l' => { w_pbox 0 (s.cury * s.fonh) s.winw s.fonh (w_setmode s.bgmode s) with curx := 0 }
  | 'o' =>
    let s := w_setmode s.bgmode s
    if 0 < s.curx then w_pbox 0 (s.cury * s.fonh) (s.curx * s.fonw) s.fonh s else s
  | 'p' => set_style (if s.bgmode = .M_CLEAR then s.style ||| F_REVERSE else off s.style F_REVERSE) s
  | 'q' => set_style (if s.bgmode = .M_CLEAR then off s.style F_REVERSE else s.style ||| F_REVERSE) s
  | 'v' => { s with wrap := true }
  | 'w' => { s with wrap := false }
  | 'G' => clear_attributes s
  | 'g' => set_style (s.style ||| F_BOLD) s
  | 'h' => set_style (off s.style F_BOLD) s
  | 'i' => set_style (s.style ||| F_UNDERLINE) s
  | 'm' => set_style (off s.style F_UNDERLINE) s
  | 'n' => set_style (s.style ||| F_ITALIC) s
  | 'r' => set_style (off s.style F_ITALIC) s
  | 's' => set_style (s.style ||| F_LIGHT) s
  | 't' => set_style (off s.style F_LIGHT) s
  | _ => s

def esc1 (c : Nat) (s : Term) : Term := esc1_code (Char.ofNat c) { s with escstate := 0 }

def mouse_value (s : Term) : Nat :=
  (List.range (s.params + 1)).foldl
    (fun value i => if s.parameter i = 9 then value ||| 1 else if s.parameter i = 1000 ∨ s.parameter i = 1001 then value ||| 2 else value) 0

def color_value (value : Int) (s : Term) : Term :=
  if 30 ≤ value ∧ value ≤ 37 then esc4 (value - 30 + 48).toNat s
  else if 40 ≤ value ∧ value ≤ 47 then esc5 (value - 40 + 48).toNat s
  else if value = 0 then esc1 71 s
  else s

def Term.index (l : List Nat) (s : Term) : Term := { s with indexed := s.indexed ++ l }

def clear_params (s : Term) : Term :=
  { s.index (List.range (s.params + 1)) with
    parameter := fun i => if i ≤ s.params then 0 else s.parameter i
    params := 0
    escstate := 0 }

def esc20 (c : Nat) (s : Term) : Term :=
  if c = 59 ∧ s.params + 1 < MAX_PARAMETERS then { s with params := s.params + 1 }
  else if 48 ≤ c ∧ c ≤ 57 then
    { s.index [s.params] with parameter := fun i => if i = s.params then s.parameter i * 10 + (c - 48 : Nat) else s.parameter i }
  else if c = 104 then clear_params { s.index (List.range (s.params + 1)) with xtermemu := s.xtermemu ||| mouse_value s }
  else if c = 108 then clear_params { s.index (List.range (s.params + 1)) with xtermemu := s.xtermemu &&& (3 ^^^ mouse_value s) }
  else if c = 109 then
    clear_params ((List.range (s.params + 1)).foldl (fun t i => color_value (s.parameter i) t) (s.index (List.range (s.params + 1))))
  else clear_params s

def esc10 (c : Nat) (s : Term) : Term :=
  if 48 ≤ c ∧ c ≤ 57 then
    { s.index [s.params] with
      parameter := fun i => if i = s.params then ((c - 48 : Nat) : Int) else s.parameter i
      escstate := 20 }
  else if c = 63 then { s with escstate := 20 }
  else esc20 c s

def sflush (s : Term) : Term :=
  if s.sbuf = [] then s else { s.send (.printstring (s.sbufx * s.fonw) (s.sbufy * s.fonh) s.sbuf) with sbuf := [] }

def sadd (c : Nat) (s : Term) : Term :=
  let s := if s.sbuf.length = SMALLBUFFER then sflush s else s
  let s := if s.sbuf = [] then { s with sbufx := s.curx, sbufy := s.cury } else s
  { s with sbuf := s.sbuf ++ [c] }

def next_line (s : Term) : Term :=
  if s.row ≤ s.cury + 1 then
    { w_pbox 0 ((s.row - 1) * s.fonh) s.winw s.fonh
        (w_setmode s.bgmode (w_vscroll 0 s.fonh s.winw ((s.row - 1) * s.fonh) 0 s)) with cury := s.row - 1 }
  else { s with cury := s.cury + 1 }

def bell (s : Term) : Term :=
  if s.visualbell then
    w_pbox 0 0 s.winw s.winh ((w_pbox 0 0 s.winw s.winh (w_setmode .M_INVERS s)).send .test)
  else s.send .beep

def print_char (c : Nat) (s : Term) : Term :=
  let s := sadd c s
  if s.col ≤ s.curx + 1 then
    let s := sflush s
    if s.wrap then next_line { s with curx := 0 } else { s with curx := s.col - 1 }
  else { s with curx := s.curx + 1 }

def esc0 (c : Nat) (s : Term) : Term :=
  match c with
  | 0 => s
  | 7 => bell s
  | 8 =>
    let s := sflush s
    { s with curx := if s.curx - 1 < 0 then 0 else s.curx - 1 }
  | 9 =>
    let s := sflush s
    { s with curx := if s.col ≤ (s.curx / 8 + 1) * 8 then s.col - 1 else (s.curx / 8 + 1) * 8 }
  | 10 => next_line (sflush s)
  | 13 => { sflush s with curx := 0 }
  | 27 => { sflush s with escstate := 1 }
  | 127 => s
  | c => print_char c s

def printc (s : Term) (c : Nat) : Term :=
  match s.escstate with
  | 0 => esc0 c s
  | 1 => esc1 c (sflush s)
  | 2 => esc2 c (sflush s)
  | 3 => esc3 c (sflush s)
  | 4 => esc4 c (sflush s)
  | 5 => esc5 c (sflush s)
  | 10 => esc10 c (sflush s)
  | 20 => esc20 c s
  | _ => { s with escstate := 0 }

structure Options where
  col : Int
  row : Int
  fonw : Int
  fonh : Int
  sharedcolors : Int
  reversed : Bool
  visualbell : Bool
  cblink : Bool
  col_pos : 1 ≤ col
  row_pos : 1 ≤ row
  font_pos : 1 ≤ fonw ∧ 1 ≤ fonh

def Options.start (o : Options) : Term where
  winw := o.col * o.fonw
  winh := o.row * o.fonh
  fonw := o.fonw
  fonh := o.fonh
  col := o.col
  row := o.row
  widecol := decide (127 < o.col)
  widerow := decide (127 < o.row)
  Colors := if MAX_COLORS ≤ o.sharedcolors then o.sharedcolors else 0
  reversed := o.reversed
  visualbell := o.visualbell
  cblink := o.cblink
  bgmode := .M_CLEAR
  style := 0
  escstate := 0
  curx := 0
  cury := 0
  curon := false
  curvis := false
  savx := 0
  savy := 0
  wrap := false
  xtermemu := 0
  params := 0
  parameter := fun _ => 0
  sbufx := 0
  sbufy := 0
  sbuf := []
  reading := false
  sent := []
  indexed := []

def init (o : Options) : Term :=
  let s := esc1 71 o.start
  let s := if s.reversed ∨ s.Colors ≠ 0 then w_pbox 0 0 s.winw s.winh (w_setmode s.bgmode s) else s
  draw_cursor { s with curx := 0, savx := 0, cury := 0, savy := 0, wrap := true, curvis := false, escstate := 0 }

def resize (w h : Int) (s : Term) : Term :=
  let newCol := w.tdiv s.fonw
  let newRow := h.tdiv s.fonh
  if newCol ≠ s.col ∨ newRow ≠ s.row then
    { s with col := newCol, row := newRow, winw := newCol * s.fonw, winh := newRow * s.fonh }
  else s

/-- What happens in `term`: a `read` begins, gives a byte and ends; a resize is reported; one of its `ioctl` calls has failed;
nothing has come for a while. -/
inductive Event
  | begin_read
  | byte (c : Nat)
  | end_read
  | resized (w h : Int)
  | failed (pgrp : Bool)
  | timeout
  deriving DecidableEq

def complaint (pgrp : Bool) : List Nat :=
  (if pgrp then "wterm: can't get process group (TIOCGPGRP)\r\n" else "wterm: can't set terminal size (TIOCSWINSZ)\r\n").toList.map Char.toNat

def act (s : Term) (e : Event) : Term :=
  match e with
  | .begin_read => if s.reading then s else { (if s.curon then hide_cursor s else s) with reading := true }
  | .byte c => if s.reading then { (if c = 10 then printc (printc s c) 13 else printc s c) with reading := true } else s
  | .end_read =>
    if s.reading then
      let s := sflush s
      { (if s.curon then draw_cursor s else s) with reading := false }
    else s
  | .resized w h => if s.reading then s else resize w h s
  | .failed pgrp => if s.reading then s else (complaint pgrp).foldl printc s
  | .timeout => if s.reading ∨ ¬ (s.cblink ∧ s.curon) then s else if s.curvis then hide_cursor s else draw_cursor s

def step (s : Term) (e : Event) : Term := act { s with sent := [], indexed := [] } e

end WWindowSystem.Wterm
