import WWindowSystem.Wt.VtCuts
import WWindowSystem.Wt.VtRun

namespace WWindowSystem

abbrev WinCells := Int → Int → Byte

def w_printstring (win : WinCells) (x y : Int) (s : List Byte) : WinCells := fun y' x' =>
  let s := s.takeWhile (· ≠ 0)
  if y' = y ∧ x ≤ x' ∧ x' < x + s.length then s.getD (x' - x).toNat 0 else win y' x'

def w_pbox (win : WinCells) (x y wd ht : Int) : WinCells := fun y' x' =>
  if (y ≤ y' ∧ y' < y + ht) ∧ x ≤ x' ∧ x' < x + wd then DEF_BGCHAR else win y' x'

def w_vscroll (win : WinCells) (y ht y1 : Int) : WinCells := fun y' x' =>
  if y1 ≤ y' ∧ y' < y1 + ht then win (y' - y1 + y) x' else win y' x'

/-! The functions with the suffix `_win` are what those of the widget do to its window. The cursor is
left out. -/

def vt_flush_win (s : Vt) (win : WinCells) : WinCells :=
  if s.outbuf = [] then win else w_printstring win s.outx s.outy s.outbuf

def vt_addchar_win (s : Vt) (win : WinCells) : WinCells :=
  if s.outbuf.length ≥ VT_BUFSIZE then vt_flush_win s win else win

def vt_change_bgmode_win (s : Vt) (reverse : Bool) (win : WinCells) : WinCells :=
  let mode := if reverse then VT_DRAW else VT_CLEAR
  if s.bgmode ≠ mode then
    if s.is_realized then vt_flush_win { s with bgmode := mode } win else win
  else win

def Vt.useColor_win (s : Vt) (col : Byte) (win : WinCells) : WinCells :=
  if col.toNat < s.Colors then vt_flush_win s win else win

def vt_set_fgcol_win (s : Vt) (col : Byte) (win : WinCells) : WinCells :=
  let col := col - 0x30
  if s.Colors ≠ 0 then s.useColor_win col win else vt_change_bgmode_win s (col ≠ 0) win

def vt_set_bgcol_win (s : Vt) (col : Byte) (win : WinCells) : WinCells :=
  let col := col - 0x30
  if s.Colors ≠ 0 then s.useColor_win col win else vt_change_bgmode_win s (col = 0) win

def redrawCells_win : Nat → Vt → vtchar_t → List Byte → Int → Int → Int → WinCells → WinCells × vtchar_t
  | 0, _, new, buf, xpos, ypos, _, win => (w_printstring win xpos ypos buf, new)
  | n + 1, s, new, buf, xpos, ypos, vcp, win =>
    let v := s.screen vcp
    if CMP_ATTRIBUTES new v ∨ buf.length ≥ VT_BUFSIZE then
      redrawCells_win n s v [v.c] (xpos + buf.length) ypos (vcp + 1) (w_printstring win xpos ypos buf)
    else redrawCells_win n s new (buf ++ [v.c]) xpos ypos (vcp + 1) win

def redrawRows_win : Nat → Vt → vtchar_t → Int → Int → WinCells → WinCells
  | 0, _, _, _, _, win => win
  | n + 1, s, new, ypos, vcp, win =>
    let r := redrawCells_win s.wd.toNat s new [] 0 ypos vcp win
    redrawRows_win n s r.2 (ypos + 1) (vt_screen_nl s (vcp + s.wd)) r.1

def vt_redraw_win (s : Vt) (y ymax : Int) (win : WinCells) : WinCells :=
  let vcp := vt_screen_pos s 0 y
  redrawRows_win (ymax - y).toNat s (s.screen vcp) y vcp win

def vt_vmove_win (s : Vt) (offs : Int) (win : WinCells) : WinCells :=
  let offs := if offs < 0 then 0 else if offs > s.curhistsize then s.curhistsize else offs
  let oldoffs := s.offs - s.curoffs
  let oldoffs := if oldoffs < 0 then oldoffs + s.screenht else oldoffs
  let dist := (offs - oldoffs).natAbs
  if dist = 0 then win
  else
    let (win, y, ymax) : WinCells × Int × Int :=
      if dist < s.ht then
        if offs > oldoffs then (w_vscroll win 0 (s.ht - dist) dist, 0, dist)
        else (w_vscroll win dist (s.ht - dist) 0, s.ht - dist, s.ht)
      else (win, 0, s.ht)
    let curoffs := s.offs - offs
    vt_redraw_win { s with curoffs := if curoffs < 0 then curoffs + s.screenht else curoffs } y ymax win

def vt_clear_screen_win (s : Vt) (win : WinCells) : WinCells :=
  w_pbox (vt_flush_win s win) 0 0 s.wd s.ht

def vt_clear_eop_win (s : Vt) (win : WinCells) : WinCells :=
  let win := vt_flush_win s win
  let win := if s.cury < s.ht - 1 then w_pbox win 0 (s.cury + 1) s.wd (s.ht - 1 - s.cury) else win
  if s.curx < s.wd - 1 then w_pbox win s.curx s.cury (s.wd - s.curx) 1 else win

def vt_clear_sop_win (s : Vt) (win : WinCells) : WinCells :=
  let win := vt_flush_win s win
  let win := if s.cury > 0 then w_pbox win 0 0 s.wd s.cury else win
  if s.curx > 0 then w_pbox win 0 s.cury s.curx 1 else win

def vt_clear_eol_win (s : Vt) (win : WinCells) : WinCells :=
  let win := vt_flush_win s win
  if s.curx < s.wd - 1 then w_pbox win s.curx s.cury (s.wd - s.curx) 1 else win

def vt_clear_sol_win (s : Vt) (win : WinCells) : WinCells :=
  let win := vt_flush_win s win
  if s.curx > 0 then w_pbox win 0 s.cury s.curx 1 else win

def vt_insert_line_win (s : Vt) (win : WinCells) : WinCells :=
  let win := vt_flush_win s win
  let win := if s.cury < s.ht - 1 then w_vscroll win s.cury (s.ht - 1 - s.cury) (s.cury + 1) else win
  w_pbox win 0 s.cury s.wd 1

def vt_rev_index_win (s : Vt) (win : WinCells) : WinCells :=
  let win := vt_flush_win s win
  if s.cury - 1 < 0 then w_pbox (w_vscroll win 0 (s.ht - 1) 1) 0 0 s.wd 1 else win

def vt_delete_line_win (s : Vt) (win : WinCells) : WinCells :=
  let win := vt_flush_win s win
  let win := if s.cury < s.ht - 1 then w_vscroll win (s.cury + 1) (s.ht - 1 - s.cury) s.cury else win
  w_pbox win 0 (s.ht - 1) s.wd 1

def vt_scroll_win (s : Vt) (win : WinCells) : WinCells :=
  w_pbox (w_vscroll (vt_flush_win s win) 1 (s.ht - 1) 0) 0 (s.ht - 1) s.wd 1

def vt_normal_win (s : Vt) (win : WinCells) : WinCells :=
  if s.Colors ≠ 0 then
    let last := BitVec.ofNat 8 (s.Colors - 1) + 0x30
    let bg := if s.reversed then 0x30 else last
    let fg := if s.reversed then last else 0x30
    let win := vt_set_fgcol_win (vt_set_bgcol s bg) fg (vt_set_bgcol_win s bg win)
    vt_flush_win (vt_set_fgcol (vt_set_bgcol s bg) fg) win
  else vt_flush_win s win

def Vt.nextRow_win (s : Vt) (win : WinCells) : WinCells :=
  if s.cury + 1 ≥ s.ht then vt_scroll_win { s with cury := s.cury + 1 } win else win

def vt_lf_win (s : Vt) (win : WinCells) : WinCells := (vt_flush s).nextRow_win (vt_flush_win s win)

def vt_print_win (s : Vt) (c : Byte) (win : WinCells) : WinCells :=
  let win := vt_addchar_win s win
  let s := vt_addchar s c
  let s := { s with curx := s.curx + 1 }
  if s.curx ≥ s.wd then
    let win := vt_flush_win s win
    let s := vt_flush s
    if ¬ s.autowrap then win else { s with curx := 0 }.nextRow_win win
  else win

def setParameter_win (s : Vt) (i : Int) (win : WinCells) : WinCells :=
  let s := s.touch MAX_PARAMETERS i
  let value := s.parameter i
  if value ≥ 30 ∧ value ≤ 37 then vt_set_fgcol_win s (BitVec.ofInt 8 (value - 30) + 0x30) win
  else if value ≥ 40 ∧ value ≤ 47 then vt_set_bgcol_win s (BitVec.ofInt 8 (value - 40) + 0x30) win
  else if value = 0 then vt_normal_win s win
  else win

structure VtWindow where
  vt : Vt
  win : WinCells

def VtWindow.setParameter (d : VtWindow) (i : Int) : VtWindow :=
  ⟨WWindowSystem.setParameter d.vt i, setParameter_win d.vt i d.win⟩

def putc_xparam_win (s : Vt) (c : Byte) (win : WinCells) : WinCells :=
  if c = 0x3b ∧ s.params < MAX_PARAMETERS - 1 then win
  else if isDigit c then win
  else if c = 0x68 ∨ c = 0x6c then win
  else if c = 0x6d then
    ((List.range (s.params + 1).toNat).foldl (fun d (i : Nat) => d.setParameter i) (⟨s, win⟩ : VtWindow)).win
  else win

def putc_xterm_win (s : Vt) (c : Byte) (win : WinCells) : WinCells :=
  if isDigit c then win else if c = 0x3f then win else putc_xparam_win s c win

def putc_esc_win (s : Vt) (c : Byte) (win : WinCells) : WinCells :=
  let s := { s with outfn := .putc_normal }
  if c = 0x5b then win
  else if c = 0x41 then vt_flush_win s win
  else if c = 0x42 then vt_flush_win s win
  else if c = 0x43 then vt_flush_win s win
  else if c = 0x44 then vt_flush_win s win
  else if c = 0x45 then vt_clear_screen_win s win
  else if c = 0x48 then vt_flush_win s win
  else if c = 0x49 then vt_rev_index_win s win
  else if c = 0x4a then vt_clear_eop_win s win
  else if c = 0x4b then vt_clear_eol_win s win
  else if c = 0x4c then vt_insert_line_win s win
  else if c = 0x4d then vt_delete_line_win s win
  else if c = 0x59 then win
  else if c = 0x62 then win
  else if c = 0x63 then win
  else if c = 0x64 then vt_clear_sop_win s win
  else if c = 0x65 then win
  else if c = 0x66 then win
  else if c = 0x6a then win
  else if c = 0x6b then vt_flush_win s win
  else if c = 0x6f then vt_clear_sol_win s win
  else if c = 0x70 then vt_flush_win s win
  else if c = 0x71 then vt_flush_win s win
  else if c = 0x76 then win
  else if c = 0x77 then win
  else if c = 0x47 then vt_normal_win s win
  else if c = 0x67 then vt_flush_win s win
  else if c = 0x68 then vt_flush_win s win
  else if c = 0x69 then vt_flush_win s win
  else if c = 0x6d then vt_flush_win s win
  else if c = 0x6e then vt_flush_win s win
  else if c = 0x72 then vt_flush_win s win
  else if c = 0x73 then vt_flush_win s win
  else if c = 0x74 then vt_flush_win s win
  else win

def putc_normal_win (s : Vt) (c : Byte) (win : WinCells) : WinCells :=
  if c = 0 ∨ c = 7 then win
  else if c = 8 then vt_flush_win s win
  else if c = 9 then vt_flush_win s win
  else if c = 10 then vt_flush_win (vt_lf s) (vt_lf_win s win)
  else if c = 13 then vt_flush_win s win
  else if c = 27 then win
  else if c = 127 then win
  else vt_print_win s c win

def OutFn.win : OutFn → Vt → Byte → WinCells → WinCells
  | .putc_normal => putc_normal_win
  | .putc_esc => putc_esc_win
  | .putc_esc_y1 => fun s _ => vt_flush_win s
  | .putc_esc_y2 => fun s _ => vt_flush_win s
  | .putc_esc_c => vt_set_bgcol_win
  | .putc_esc_b => vt_set_fgcol_win
  | .putc_xterm => putc_xterm_win
  | .putc_xparam => putc_xparam_win

def VtWindow.putc (d : VtWindow) (c : Byte) : VtWindow := ⟨d.vt.putc c, d.vt.outfn.win d.vt c d.win⟩

def VtWindow.call (d : VtWindow) : ViewCall → VtWindow
  | .output cp =>
    let r := cp.foldl VtWindow.putc ⟨d.vt.started, vt_vmove_win d.vt 0 d.win⟩
    ⟨vt_output d.vt cp, vt_flush_win r.vt r.win⟩
  | .vmove offs => ⟨vt_vmove d.vt offs, vt_vmove_win d.vt offs d.win⟩

def VtWindow.realize (o : VtOptions) (wd ht : Int) : VtWindow := ⟨vt_realize o wd ht, fun _ _ => DEF_BGCHAR⟩

def VtWindow.Shown (d : VtWindow) : Prop :=
  ∀ y x, 0 ≤ y → y < d.vt.ht → 0 ≤ x → x < d.vt.wd → d.win y x = (d.vt.screen (vt_screen_pos d.vt x y)).c

end WWindowSystem
