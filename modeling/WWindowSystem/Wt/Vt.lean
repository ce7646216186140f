import Mathlib.Logic.Function.Basic
import WWindowSystem.Library.Words

namespace WWindowSystem

def MAX_COLORS : Int := 8
def MAX_PARAMETERS : Int := 6
def VT_BUFSIZE : Nat := 80
def DEF_BGCHAR : Byte := 32
def VT_CLEAR : Byte := 0
def VT_DRAW : Byte := 1
def VT_NORMAL : Byte := 0x00
def VT_REVERSE : Byte := 0x01
def VT_UNDERLINE : Byte := 0x02
def VT_ITALIC : Byte := 0x04
def VT_BOLD : Byte := 0x08
def VT_LIGHT : Byte := 0x10

structure vtchar_t where
  bg : BitVec 4
  fg : BitVec 4
  mode : BitVec 2
  attr : BitVec 6
  c : Byte
  deriving DecidableEq

inductive OutFn where
  | putc_normal
  | putc_esc
  | putc_esc_y1
  | putc_esc_y2
  | putc_esc_c
  | putc_esc_b
  | putc_xterm
  | putc_xparam
  deriving DecidableEq

/-- The terminal widget without its window, its selection and its callback; `outbuf` is the buffer up
to `outbufp`, and `touched` records the accesses to `screen`, `parameter` and `color`. -/
structure Vt where
  Colors : Nat
  is_realized : Bool
  histsize : Int
  curhistsize : Int
  wd : Int
  ht : Int
  screenht : Int
  screen : Int → vtchar_t
  offs : Int
  curoffs : Int
  curx : Int
  cury : Int
  savx : Int
  savy : Int
  curvis : Bool
  curon : Bool
  autowrap : Bool
  curattr : Byte
  curbg : BitVec 4
  curfg : BitVec 4
  style_mask : Byte
  font_mask : Byte
  reversed : Bool
  bgmode : Byte
  xtermemu : BitVec 16
  params : Int
  parameter : Int → Int
  outx : Int
  outy : Int
  outbuf : List Byte
  outfn : OutFn
  touched : List Access

def Vt.touch (s : Vt) (size index : Int) : Vt := { s with touched := ⟨size, index⟩ :: s.touched }

def Vt.screen_size (s : Vt) : Int := s.wd * s.screenht

def Vt.stored (s : Vt) (c : Byte) : vtchar_t :=
  ⟨s.curbg, s.curfg, s.bgmode.setWidth 2, s.curattr.setWidth 6, c⟩

def Vt.put (s : Vt) (vcp : Int) (v : vtchar_t) : Vt :=
  { s.touch s.screen_size vcp with screen := Function.update s.screen vcp v }

def vt_screen_pos (s : Vt) (x y : Int) : Int :=
  let y := y + s.curoffs
  (if y ≥ s.screenht then y - s.screenht else y) * s.wd + x

def vt_screen_nl (s : Vt) (vcp : Int) : Int :=
  if vcp ≥ s.screen_size then vcp - s.screen_size else vcp

def vt_screen_pl (s : Vt) (vcp : Int) : Int := if vcp < 0 then vcp + s.screen_size else vcp

def putChars (s : Vt) (vcp : Int) : List Byte → Vt
  | [] => s
  | c :: cs => putChars (s.put vcp (s.stored c)) (vcp + 1) cs

def vt_flush (s : Vt) : Vt :=
  if s.outbuf = [] then s
  else { putChars s (vt_screen_pos s s.outx s.outy) (s.outbuf.takeWhile (· ≠ 0)) with outbuf := [] }

def vt_addchar (s : Vt) (c : Byte) : Vt :=
  let s := if s.outbuf.length ≥ VT_BUFSIZE then vt_flush s else s
  let s := if s.outbuf = [] then { s with outx := s.curx, outy := s.cury } else s
  { s with outbuf := s.outbuf ++ [c] }

def vt_cursor_show (s : Vt) : Vt :=
  if s.curon ∧ ¬ s.curvis ∧ s.offs = s.curoffs then { s with curvis := true } else s

def vt_cursor_hide (s : Vt) : Vt := { s with curvis := false }

def vt_setattr (s : Vt) (attr : Byte) : Vt :=
  let s := vt_flush s
  { s with curattr := attr &&& (s.font_mask ||| s.style_mask) }

def vt_change_bgmode (s : Vt) (reverse : Bool) : Vt :=
  let mode := if reverse then VT_DRAW else VT_CLEAR
  if s.bgmode ≠ mode then
    let s := { s with bgmode := mode }
    if s.is_realized then vt_setattr s (s.curattr ^^^ VT_REVERSE) else s
  else s

def Vt.useColor (s : Vt) (col : Byte) : Vt :=
  let s := if col.toNat < s.Colors then vt_flush s else s
  s.touch MAX_COLORS col.toNat

def vt_set_fgcol (s : Vt) (col : Byte) : Vt :=
  let col := col - 0x30
  if s.Colors ≠ 0 then { s.useColor col with curfg := col.setWidth 4 }
  else vt_change_bgmode s (col ≠ 0)

def vt_set_bgcol (s : Vt) (col : Byte) : Vt :=
  let col := col - 0x30
  if s.Colors ≠ 0 then { s.useColor col with curbg := col.setWidth 4 }
  else vt_change_bgmode s (col = 0)

def RESTORE_ATTRIBUTES (s : Vt) (vt : vtchar_t) : Vt :=
  let s := vt_setattr s (vt.attr.setWidth 8)
  let s := vt_set_fgcol s (vt.fg.setWidth 8 + 0x30)
  vt_set_bgcol s (vt.bg.setWidth 8 + 0x30)

def CMP_ATTRIBUTES (x y : vtchar_t) : Prop :=
  x.bg ≠ y.bg ∨ x.fg ≠ y.fg ∨ x.attr ≠ y.attr ∨ x.mode ≠ y.mode

instance (x y : vtchar_t) : Decidable (CMP_ATTRIBUTES x y) :=
  inferInstanceAs (Decidable (_ ∨ _ ∨ _ ∨ _))

def redrawCells : Nat → Vt → vtchar_t → Nat → Int → Vt × vtchar_t × Int
  | 0, s, new, _, vcp => (s, new, vcp)
  | n + 1, s, new, len, vcp =>
    let s := s.touch s.screen_size vcp
    let v := s.screen vcp
    if CMP_ATTRIBUTES new v ∨ len ≥ VT_BUFSIZE then
      redrawCells n (RESTORE_ATTRIBUTES s v) v 1 (vcp + 1)
    else redrawCells n s new (len + 1) (vcp + 1)

def redrawRows : Nat → Vt → vtchar_t → Int → Vt
  | 0, s, _, _ => s
  | n + 1, s, new, vcp =>
    let r := redrawCells s.wd.toNat s new 0 vcp
    redrawRows n r.1 r.2.1 (vt_screen_nl r.1 r.2.2)

def vt_redraw (s : Vt) (y ymax : Int) : Vt :=
  let vcp := vt_screen_pos s 0 y
  let save := s.stored 0
  let s := s.touch s.screen_size vcp
  let new := s.screen vcp
  let s := RESTORE_ATTRIBUTES s new
  let s := redrawRows (ymax - y).toNat s new vcp
  RESTORE_ATTRIBUTES s save

def vt_vmove (s : Vt) (offs : Int) : Vt :=
  let offs := if offs < 0 then 0 else if offs > s.curhistsize then s.curhistsize else offs
  let oldoffs := s.offs - s.curoffs
  let oldoffs := if oldoffs < 0 then oldoffs + s.screenht else oldoffs
  let dist := (offs - oldoffs).natAbs
  if dist = 0 then s
  else
    let s := vt_cursor_hide s
    let (y, ymax) : Int × Int :=
      if dist < s.ht then if offs > oldoffs then (0, dist) else (s.ht - dist, s.ht) else (0, s.ht)
    let curoffs := s.offs - offs
    let s := { s with curoffs := if curoffs < 0 then curoffs + s.screenht else curoffs }
    vt_cursor_show (vt_redraw s y ymax)

def resizeCells (old : Int → vtchar_t) (size nsize : Int) : Nat → (Int → vtchar_t) → List Access →
    Int → Int → (Int → vtchar_t) × List Access
  | 0, nscreen, touched, _, _ => (nscreen, touched)
  | n + 1, nscreen, touched, vcp1, vcp2 =>
    resizeCells old size nsize n (Function.update nscreen vcp1 (old vcp2))
      (⟨nsize, vcp1⟩ :: ⟨size, vcp2⟩ :: touched) (vcp1 + 1) (vcp2 + 1)

def wrapped (a n : Int) : Int := if a.tmod n < 0 then a.tmod n + n else a.tmod n

def resizeRows (s : Vt) (wd ht screenht : Int) : Nat → (Int → vtchar_t) → List Access →
    (Int → vtchar_t) × List Access
  | 0, nscreen, touched => (nscreen, touched)
  | i + 1, nscreen, touched =>
    let vcp1 := wrapped (min s.ht ht - 1 - i) screenht * wd
    let vcp2 := wrapped (s.curoffs + min s.ht ht - 1 - i) s.screenht * s.wd
    let r := resizeCells s.screen s.screen_size (wd * screenht) (min s.wd wd).toNat nscreen touched
      vcp1 vcp2
    resizeRows s wd ht screenht i r.1 r.2

def vt_resize (s : Vt) (wd ht screenht : Int) : Vt :=
  let wd := if wd < 1 then 1 else wd
  let ht := if ht < 1 then 1 else ht
  let screenht := if screenht < ht then ht else screenht
  if wd = s.wd ∧ ht = s.ht ∧ screenht = s.screenht then s
  else
    let s := vt_cursor_hide (vt_vmove (vt_flush s) 0)
    let filled := (List.range (wd * screenht).toNat).map fun i : Nat => (⟨wd * screenht, i⟩ : Access)
    let r := resizeRows s wd ht screenht (min s.screenht screenht).toNat
      (fun _ => s.stored DEF_BGCHAR) (filled ++ s.touched)
    let s := { s with
      wd, ht, screenht, screen := r.1, touched := r.2, curoffs := 0, offs := 0
      curx := min (wd - 1) s.curx, cury := min (ht - 1) s.cury
      savx := min (wd - 1) s.savx, savy := min (ht - 1) s.savy }
    vt_cursor_show (vt_redraw s 0 s.ht)

def vt_cursor_on (s : Vt) : Vt := { s with curon := true }
def vt_cursor_off (s : Vt) : Vt := { s with curon := false }

def cursorPos (c : Byte) (size : Int) : Int :=
  let z := ((c.toNat : Int) - 32) % 128
  if z ≥ size then size - 1 else if z < 0 then 0 else z

def vt_cursor_xpos (s : Vt) (c : Byte) : Vt := { vt_flush s with curx := cursorPos c s.wd }
def vt_cursor_ypos (s : Vt) (c : Byte) : Vt := { vt_flush s with cury := cursorPos c s.ht }

def vt_cursor_up (s : Vt) : Vt :=
  { vt_flush s with cury := if s.cury - 1 < 0 then 0 else s.cury - 1 }

def vt_cursor_down (s : Vt) : Vt :=
  { vt_flush s with cury := if s.cury + 1 ≥ s.ht then s.ht - 1 else s.cury + 1 }

def vt_cursor_left (s : Vt) : Vt :=
  { vt_flush s with curx := if s.curx - 1 < 0 then 0 else s.curx - 1 }

def vt_cursor_right (s : Vt) : Vt :=
  { vt_flush s with curx := if s.curx + 1 ≥ s.wd then s.wd - 1 else s.curx + 1 }

def vt_cursor_home (s : Vt) : Vt := { vt_flush s with curx := 0, cury := 0 }
def vt_cursor_save (s : Vt) : Vt := { s with savx := s.curx, savy := s.cury }
def vt_cursor_restore (s : Vt) : Vt := { vt_flush s with curx := s.savx, cury := s.savy }

def blankCells : Nat → Vt → Int → Vt × Int
  | 0, s, vcp => (s, vcp)
  | n + 1, s, vcp => blankCells n (s.put vcp (s.stored DEF_BGCHAR)) (vcp + 1)

def blankRows : Nat → Vt → Int → Vt × Int
  | 0, s, vcp => (s, vcp)
  | n + 1, s, vcp =>
    let r := blankCells s.wd.toNat s vcp
    blankRows n r.1 (vt_screen_nl r.1 r.2)

def vt_clear_screen (s : Vt) : Vt :=
  let s := vt_flush s
  (blankRows s.ht.toNat s (vt_screen_pos s 0 0)).1

def vt_clear_eop (s : Vt) : Vt :=
  let s := vt_flush s
  let r := blankCells (s.wd - s.curx).toNat s (vt_screen_pos s s.curx s.cury)
  (blankRows (s.ht - (s.cury + 1)).toNat r.1 (vt_screen_nl r.1 r.2)).1

def vt_clear_sop (s : Vt) : Vt :=
  let s := vt_flush s
  let r := blankRows s.cury.toNat s (vt_screen_pos s 0 0)
  (blankCells s.curx.toNat r.1 r.2).1

def vt_clear_eol (s : Vt) : Vt :=
  let s := vt_flush s
  (blankCells (s.wd - s.curx).toNat s (vt_screen_pos s s.curx s.cury)).1

def vt_clear_sol (s : Vt) : Vt :=
  let s := vt_flush s
  (blankCells s.curx.toNat s (vt_screen_pos s 0 s.cury)).1

def copyCells (d : Int) : Nat → Vt → Int → Int → Vt × Int × Int
  | 0, s, vcp1, vcp2 => (s, vcp1, vcp2)
  | n + 1, s, vcp1, vcp2 =>
    copyCells d n ((s.touch s.screen_size vcp1).put vcp2 (s.screen vcp1)) (vcp1 + d) (vcp2 + d)

def copyRowsBack : Nat → Vt → Int → Int → Vt
  | 0, s, _, _ => s
  | n + 1, s, vcp1, vcp2 =>
    let r := copyCells (-1) s.wd.toNat s vcp1 vcp2
    copyRowsBack n r.1 (vt_screen_pl r.1 r.2.1) (vt_screen_pl r.1 r.2.2)

def copyRows : Nat → Vt → Int → Int → Vt
  | 0, s, _, _ => s
  | n + 1, s, vcp1, vcp2 =>
    let r := copyCells 1 s.wd.toNat s vcp1 vcp2
    copyRows n r.1 (vt_screen_nl r.1 r.2.1) (vt_screen_nl r.1 r.2.2)

def vt_insert_line (s : Vt) : Vt :=
  let s := vt_flush s
  let s := if s.cury < s.ht - 1 then
      copyRowsBack (s.ht - 1 - s.cury).toNat s (vt_screen_pos s (s.wd - 1) (s.ht - 2))
        (vt_screen_pos s (s.wd - 1) (s.ht - 1))
    else s
  { (blankCells s.wd.toNat s (vt_screen_pos s 0 s.cury)).1 with curx := 0 }

def vt_rev_index (s : Vt) : Vt :=
  let s := vt_flush s
  if s.cury - 1 < 0 then
    let s := { s with cury := 0 }
    let s := copyRowsBack (s.ht - 1 - s.cury).toNat s (vt_screen_pos s (s.wd - 1) (s.ht - 2))
      (vt_screen_pos s (s.wd - 1) (s.ht - 1))
    (blankCells s.wd.toNat s (vt_screen_pos s 0 s.cury)).1
  else { s with cury := s.cury - 1 }

def vt_delete_line (s : Vt) : Vt :=
  let s := vt_flush s
  let s := if s.cury < s.ht - 1 then
      copyRows (s.ht - (s.cury + 1)).toNat s (vt_screen_pos s 0 (s.cury + 1)) (vt_screen_pos s 0 s.cury)
    else s
  { (blankCells s.wd.toNat s (vt_screen_pos s 0 (s.ht - 1))).1 with curx := 0 }

def vt_scroll (s : Vt) : Vt :=
  let s := vt_flush s
  let offs := if s.offs + 1 ≥ s.screenht then s.offs + 1 - s.screenht else s.offs + 1
  let s := { s with
    offs, curoffs := offs
    curhistsize := if s.curhistsize < s.histsize then s.curhistsize + 1 else s.curhistsize }
  (blankCells s.wd.toNat s (vt_screen_pos s 0 (s.ht - 1))).1

def vt_normal (s : Vt) : Vt :=
  let s :=
    if s.Colors ≠ 0 then
      let last := BitVec.ofNat 8 (s.Colors - 1) + 0x30
      let s := if s.reversed then vt_set_fgcol (vt_set_bgcol s 0x30) last
        else vt_set_fgcol (vt_set_bgcol s last) 0x30
      vt_setattr { s with bgmode := VT_CLEAR } VT_NORMAL
    else if s.reversed then vt_setattr { s with bgmode := VT_DRAW } VT_REVERSE
    else vt_setattr { s with bgmode := VT_CLEAR } VT_NORMAL
  vt_cursor_on s

def Vt.attrOn (s : Vt) (attr : Byte) : Vt := vt_setattr s (s.curattr ||| attr)
def Vt.attrOff (s : Vt) (attr : Byte) : Vt := vt_setattr s (s.curattr &&& ~~~attr)

def vt_reverse_on (s : Vt) : Vt :=
  if s.bgmode = VT_DRAW then s.attrOff VT_REVERSE else s.attrOn VT_REVERSE

def vt_reverse_off (s : Vt) : Vt :=
  if s.bgmode = VT_DRAW then s.attrOn VT_REVERSE else s.attrOff VT_REVERSE

def vt_bold_on (s : Vt) : Vt := s.attrOn VT_BOLD
def vt_bold_off (s : Vt) : Vt := s.attrOff VT_BOLD
def vt_italic_on (s : Vt) : Vt := s.attrOn VT_ITALIC
def vt_italic_off (s : Vt) : Vt := s.attrOff VT_ITALIC
def vt_underline_on (s : Vt) : Vt := s.attrOn VT_UNDERLINE
def vt_underline_off (s : Vt) : Vt := s.attrOff VT_UNDERLINE
def vt_dim_on (s : Vt) : Vt := s.attrOn VT_LIGHT
def vt_dim_off (s : Vt) : Vt := s.attrOff VT_LIGHT
def vt_autowrap_on (s : Vt) : Vt := { s with autowrap := true }
def vt_autowrap_off (s : Vt) : Vt := { s with autowrap := false }

def vt_backspace (s : Vt) : Vt := vt_cursor_left s

def vt_tab (s : Vt) : Vt :=
  let curx := (s.curx / 8 + 1) * 8
  { vt_flush s with curx := if curx ≥ s.wd then s.wd - 1 else curx }

def Vt.nextRow (s : Vt) : Vt :=
  if s.cury + 1 ≥ s.ht then { vt_scroll { s with cury := s.cury + 1 } with cury := s.ht - 1 }
  else { s with cury := s.cury + 1 }

def vt_lf (s : Vt) : Vt := (vt_flush s).nextRow

def vt_cr (s : Vt) : Vt := { vt_flush s with curx := 0 }

def vt_print (s : Vt) (c : Byte) : Vt :=
  let s := vt_addchar s c
  let s := { s with curx := s.curx + 1 }
  if s.curx ≥ s.wd then
    let s := vt_flush s
    if ¬ s.autowrap then { s with curx := s.wd - 1 } else { s with curx := 0 }.nextRow
  else s

def mouseMode : Nat → Vt → BitVec 16 → Vt × BitVec 16
  | 0, s, value => (s, value)
  | i + 1, s, value =>
    let s := s.touch MAX_PARAMETERS i
    mouseMode i s (if s.parameter i = 9 then value ||| 1
      else if s.parameter i = 1000 ∨ s.parameter i = 1001 then value ||| 2 else value)

def setParameter (s : Vt) (i : Int) : Vt :=
  let s := s.touch MAX_PARAMETERS i
  let value := s.parameter i
  if value ≥ 30 ∧ value ≤ 37 then vt_set_fgcol s (BitVec.ofInt 8 (value - 30) + 0x30)
  else if value ≥ 40 ∧ value ≤ 47 then vt_set_bgcol s (BitVec.ofInt 8 (value - 40) + 0x30)
  else if value = 0 then vt_normal s
  else s

def clearParameters : Nat → Vt → Vt
  | 0, s => s
  | n + 1, s =>
    clearParameters n { s.touch MAX_PARAMETERS n with parameter := Function.update s.parameter n 0 }

def isDigit (c : Byte) : Bool := 0x30 ≤ c && c ≤ 0x39

def putc_xparam (s : Vt) (c : Byte) : Vt :=
  if c = 0x3b ∧ s.params < MAX_PARAMETERS - 1 then { s with params := s.params + 1 }
  else if isDigit c then
    let s := s.touch MAX_PARAMETERS s.params
    let value := short (short (s.parameter s.params * 10) + (c.toNat - 0x30))
    { s with parameter := Function.update s.parameter s.params value }
  else
    let n := (s.params + 1).toNat
    let s :=
      if c = 0x68 ∨ c = 0x6c then
        let (s, value) := mouseMode n s 0
        { s with xtermemu := if c = 0x6c then s.xtermemu &&& ~~~value else s.xtermemu ||| value }
      else if c = 0x6d then (List.range n).foldl (fun s i => setParameter s i) s
      else s
    { clearParameters n s with params := 0, outfn := .putc_normal }

def putc_xterm (s : Vt) (c : Byte) : Vt :=
  if isDigit c then
    { s.touch MAX_PARAMETERS s.params with
      parameter := Function.update s.parameter s.params (c.toNat - 0x30), outfn := .putc_xparam }
  else if c = 0x3f then { s with outfn := .putc_xparam }
  else putc_xparam s c

def putc_esc_c (s : Vt) (c : Byte) : Vt := vt_set_bgcol { s with outfn := .putc_normal } c
def putc_esc_b (s : Vt) (c : Byte) : Vt := vt_set_fgcol { s with outfn := .putc_normal } c
def putc_esc_y2 (s : Vt) (c : Byte) : Vt := vt_cursor_xpos { s with outfn := .putc_normal } c
def putc_esc_y1 (s : Vt) (c : Byte) : Vt := vt_cursor_ypos { s with outfn := .putc_esc_y2 } c

def putc_esc (s : Vt) (c : Byte) : Vt :=
  let s := { s with outfn := .putc_normal }
  if c = 0x5b then { s with outfn := .putc_xterm }
  else if c = 0x41 then vt_cursor_up s
  else if c = 0x42 then vt_cursor_down s
  else if c = 0x43 then vt_cursor_right s
  else if c = 0x44 then vt_cursor_left s
  else if c = 0x45 then vt_cursor_home (vt_clear_screen s)
  else if c = 0x48 then vt_cursor_home s
  else if c = 0x49 then vt_rev_index s
  else if c = 0x4a then vt_clear_eop s
  else if c = 0x4b then vt_clear_eol s
  else if c = 0x4c then vt_insert_line s
  else if c = 0x4d then vt_delete_line s
  else if c = 0x59 then { s with outfn := .putc_esc_y1 }
  else if c = 0x62 then { s with outfn := .putc_esc_b }
  else if c = 0x63 then { s with outfn := .putc_esc_c }
  else if c = 0x64 then vt_clear_sop s
  else if c = 0x65 then vt_cursor_on s
  else if c = 0x66 then vt_cursor_off s
  else if c = 0x6a then vt_cursor_save s
  else if c = 0x6b then vt_cursor_restore s
  else if c = 0x6f then vt_clear_sol s
  else if c = 0x70 then vt_reverse_on s
  else if c = 0x71 then vt_reverse_off s
  else if c = 0x76 then vt_autowrap_on s
  else if c = 0x77 then vt_autowrap_off s
  else if c = 0x47 then vt_normal s
  else if c = 0x67 then vt_bold_on s
  else if c = 0x68 then vt_bold_off s
  else if c = 0x69 then vt_underline_on s
  else if c = 0x6d then vt_underline_off s
  else if c = 0x6e then vt_italic_on s
  else if c = 0x72 then vt_italic_off s
  else if c = 0x73 then vt_dim_on s
  else if c = 0x74 then vt_dim_off s
  else s

def putc_normal (s : Vt) (c : Byte) : Vt :=
  if c = 0 ∨ c = 7 then s
  else if c = 8 then vt_backspace s
  else if c = 9 then vt_tab s
  else if c = 10 then vt_cr (vt_lf s)
  else if c = 13 then vt_cr s
  else if c = 27 then { s with outfn := .putc_esc }
  else if c = 127 then s
  else vt_print s c

def OutFn.run : OutFn → Vt → Byte → Vt
  | .putc_normal => WWindowSystem.putc_normal
  | .putc_esc => WWindowSystem.putc_esc
  | .putc_esc_y1 => WWindowSystem.putc_esc_y1
  | .putc_esc_y2 => WWindowSystem.putc_esc_y2
  | .putc_esc_c => WWindowSystem.putc_esc_c
  | .putc_esc_b => WWindowSystem.putc_esc_b
  | .putc_xterm => WWindowSystem.putc_xterm
  | .putc_xparam => WWindowSystem.putc_xparam

def Vt.putc (s : Vt) (c : Byte) : Vt := s.outfn.run s c

def vt_output (s : Vt) (cp : List Byte) : Vt :=
  vt_cursor_show (vt_flush (cp.foldl Vt.putc (vt_cursor_hide (vt_vmove s 0))))

/-- The widget as `calloc` and `vt_create` leave it, with the options that were set before. -/
structure VtOptions where
  Colors : Nat
  histsize : Int
  style_mask : Byte
  font_mask : Byte
  reversed : Bool
  bgmode : Byte

def vt_create (o : VtOptions) : Vt where
  Colors := o.Colors
  is_realized := false
  histsize := o.histsize
  curhistsize := 0
  wd := 0
  ht := 0
  screenht := 0
  screen := fun _ => ⟨0, 0, 0, 0, 0⟩
  offs := 0
  curoffs := 0
  curx := 0
  cury := 0
  savx := 0
  savy := 0
  curvis := false
  curon := false
  autowrap := false
  curattr := 0
  curbg := 0
  curfg := 0
  style_mask := o.style_mask
  font_mask := o.font_mask
  reversed := o.reversed
  bgmode := o.bgmode
  xtermemu := 0
  params := 0
  parameter := fun _ => 0
  outx := 0
  outy := 0
  outbuf := []
  outfn := .putc_normal
  touched := []

def vt_initialize (s : Vt) (wd ht screenht : Int) : Vt :=
  let s := { s with curvis := false, curon := true, autowrap := true }
  let colors := (List.range s.Colors).map fun i : Nat => (⟨MAX_COLORS, i⟩ : Access)
  let s := vt_normal { s with touched := colors ++ s.touched }
  let filled := (List.range (wd * screenht).toNat).map fun i : Nat => (⟨wd * screenht, i⟩ : Access)
  { s with
    wd, ht, offs := 0, screenht, screen := fun _ => s.stored DEF_BGCHAR, touched := filled ++ s.touched
    curx := 0, savx := 0, cury := 0, savy := 0, outx := 0, outy := 0, outbuf := []
    outfn := .putc_normal }

def vt_realize (o : VtOptions) (wd ht : Int) : Vt :=
  let s := vt_initialize (vt_create o) wd ht (ht + o.histsize)
  { vt_cursor_show s with is_realized := true }

end WWindowSystem
