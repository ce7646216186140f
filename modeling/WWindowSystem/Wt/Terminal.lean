import WWindowSystem.Library.Grid
import WWindowSystem.Wt.Vt

namespace WWindowSystem

structure Terminal where
  wd : Int
  ht : Int
  histsize : Int
  grid : List (List Byte)
  history : List (List Byte)
  curx : Int
  cury : Int
  savx : Int
  savy : Int
  autowrap : Bool
  params : Int
  outfn : OutFn

def Terminal.blank (t : Terminal) : List Byte := List.replicate t.wd.toNat DEF_BGCHAR

def Terminal.write (t : Terminal) (c : Byte) : Terminal :=
  { t with grid := t.grid.modify t.cury.toNat fun row => row.set t.curx.toNat c }

def Terminal.scroll (t : Terminal) : Terminal :=
  let history := t.history ++ t.grid.take 1
  { t with
    grid := t.grid.drop 1 ++ [t.blank]
    history := history.drop (history.length - t.histsize.toNat) }

def Terminal.erase (t : Terminal) (p : Int → Int → Bool) : Terminal :=
  { t with grid := t.grid.mapIdx fun y row => row.mapIdx fun x c => if p y x then DEF_BGCHAR else c }

def Terminal.insertRow (t : Terminal) (y : Int) : Terminal :=
  { t with grid := (t.grid.take y.toNat ++ t.blank :: t.grid.drop y.toNat).dropLast }

def Terminal.deleteRow (t : Terminal) (y : Int) : Terminal :=
  { t with grid := t.grid.eraseIdx y.toNat ++ [t.blank] }

def Terminal.moveTo (t : Terminal) (x y : Int) : Terminal :=
  { t with curx := max 0 (min x (t.wd - 1)), cury := max 0 (min y (t.ht - 1)) }

def Terminal.nextRow (t : Terminal) : Terminal :=
  if t.cury = t.ht - 1 then t.scroll else { t with cury := t.cury + 1 }

def Terminal.print (t : Terminal) (c : Byte) : Terminal :=
  let t := t.write c
  if t.curx < t.wd - 1 then { t with curx := t.curx + 1 }
  else if t.autowrap then { t with curx := 0 }.nextRow
  else t

def Terminal.normal (t : Terminal) (c : Byte) : Terminal :=
  if c = 0 ∨ c = 7 ∨ c = 127 then t
  else if c = 8 then t.moveTo (t.curx - 1) t.cury
  else if c = 9 then t.moveTo ((t.curx / 8 + 1) * 8) t.cury
  else if c = 10 then { t.nextRow with curx := 0 }
  else if c = 13 then { t with curx := 0 }
  else if c = 27 then { t with outfn := .putc_esc }
  else t.print c

def Terminal.esc (t : Terminal) (c : Byte) : Terminal :=
  let t := { t with outfn := .putc_normal }
  if c = 0x5b then { t with outfn := .putc_xterm }
  else if c = 0x41 then t.moveTo t.curx (t.cury - 1)
  else if c = 0x42 then t.moveTo t.curx (t.cury + 1)
  else if c = 0x43 then t.moveTo (t.curx + 1) t.cury
  else if c = 0x44 then t.moveTo (t.curx - 1) t.cury
  else if c = 0x45 then { t.erase fun _ _ => true with curx := 0, cury := 0 }
  else if c = 0x48 then { t with curx := 0, cury := 0 }
  else if c = 0x49 then if t.cury = 0 then t.insertRow 0 else { t with cury := t.cury - 1 }
  else if c = 0x4a then t.erase fun y x => decide (y = t.cury ∧ t.curx ≤ x ∨ t.cury < y)
  else if c = 0x4b then t.erase fun y x => decide (y = t.cury ∧ t.curx ≤ x)
  else if c = 0x4c then { t.insertRow t.cury with curx := 0 }
  else if c = 0x4d then { t.deleteRow t.cury with curx := 0 }
  else if c = 0x59 then { t with outfn := .putc_esc_y1 }
  else if c = 0x62 then { t with outfn := .putc_esc_b }
  else if c = 0x63 then { t with outfn := .putc_esc_c }
  else if c = 0x64 then t.erase fun y x => decide (y < t.cury ∨ y = t.cury ∧ x < t.curx)
  else if c = 0x6a then { t with savx := t.curx, savy := t.cury }
  else if c = 0x6b then { t with curx := t.savx, cury := t.savy }
  else if c = 0x6f then t.erase fun y x => decide (y = t.cury ∧ x < t.curx)
  else if c = 0x76 then { t with autowrap := true }
  else if c = 0x77 then { t with autowrap := false }
  else t

def Terminal.xparam (t : Terminal) (c : Byte) : Terminal :=
  if c = 0x3b ∧ t.params < MAX_PARAMETERS - 1 then { t with params := t.params + 1 }
  else if isDigit c then t
  else { t with params := 0, outfn := .putc_normal }

def Terminal.putc (t : Terminal) (c : Byte) : Terminal :=
  match t.outfn with
  | .putc_normal => t.normal c
  | .putc_esc => t.esc c
  | .putc_esc_y1 => { t.moveTo t.curx (((c.toNat : Int) - 32) % 128) with outfn := .putc_esc_y2 }
  | .putc_esc_y2 => { t.moveTo (((c.toNat : Int) - 32) % 128) t.cury with outfn := .putc_normal }
  | .putc_esc_c => { t with outfn := .putc_normal }
  | .putc_esc_b => { t with outfn := .putc_normal }
  | .putc_xterm => if isDigit c ∨ c = 0x3f then { t with outfn := .putc_xparam } else t.xparam c
  | .putc_xparam => t.xparam c

def Terminal.output (t : Terminal) (cp : List Byte) : Terminal := cp.foldl Terminal.putc t

end WWindowSystem
