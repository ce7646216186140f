import WWindowSystem.Server.Calls

namespace WWindowSystem

structure WWIN where
  handle : Nat
  fg : Int := FGCOL_INDEX
  bg : Int := BGCOL_INDEX
  linewidth : Int := 1
  drawmode : BitVec 16 := M_INVERS
  pattern : BitVec 16 := GRAY_PATTERN
  textstyle : BitVec 16 := F_NORMAL
  colors : Int

structure Link where
  driver : Driver
  cid : Nat
  planes : Nat
  sharedcolors : Int
  big : Bool
  libBig : Bool

/-- The server and the library of one client. The window with handle `h` was created for the record
at `libPtr h`, `wins` are the records with a valid `magic`, and `asked` is the pattern that the last
call for a record has asked for, whether a packet was sent or not. -/
structure Dialogue where
  server : Server
  gc : Nat → GCONTEXT
  libPtr : Nat → Option Nat
  wins : Nat → Option WWIN
  asked : Nat → Pattern

def Dialogue.setWin (S : Dialogue) (win : Nat) (w : Option WWIN) : Dialogue :=
  { S with wins := Function.update S.wins win w }

def Dialogue.set_defgc (S : Dialogue) (win : Nat) (colors : Int) (ret : Int × Server) : Int × Dialogue :=
  if ret.1 = 0 then (0, { S with server := ret.2 })
  else (win, { server := ret.2
               gc := Function.update S.gc ret.1.toNat set_defaultgc
               libPtr := Function.update S.libPtr ret.1.toNat (some win)
               wins := Function.update S.wins win (some { handle := ret.1.toNat, colors })
               asked := Function.update S.asked win DefaultPattern })

def w_create (L : Link) (mouse : Point) (S : Dialogue) (win : Nat) (width height : Int)
    (flags : Flags) : Int × Dialogue :=
  if (S.wins win).isSome then (0, S)
  else S.set_defgc win L.sharedcolors
    (Request.run L.driver mouse S.server (.create L.cid width height flags))

def w_createChild (L : Link) (mouse : Point) (S : Dialogue) (win parent : Nat) (width height : Int)
    (flags : Flags) : Int × Dialogue :=
  match S.wins parent with
  | none => (0, S)
  | some p =>
    if (S.wins win).isSome then (0, S)
    else S.set_defgc win p.colors
      (Request.run L.driver mouse S.server (.create2 L.cid width height flags p.handle))

def w_delete (L : Link) (mouse : Point) (S : Dialogue) (win : Nat) : Int × Dialogue :=
  match S.wins win with
  | none => (-1, S)
  | some w =>
    let ret := Request.run L.driver mouse S.server (.delete w.handle)
    let S := { S with server := ret.2 }
    if ret.1 = 0 then (0, S.setWin win none) else (ret.1, S)

def w_settextstyle (S : Dialogue) (win : Nat) (flags : BitVec 16) : Int × Dialogue :=
  match S.wins win with
  | none => (-1, S)
  | some w =>
    let old := w.textstyle
    (short old.toNat, if old ≠ flags then
      let textstyle := flags &&& F_STYLEMASK
      { S.setWin win (some { w with textstyle }) with
        gc := client_settextstyle S.server S.gc w.handle textstyle }
    else S)

def w_setpattern (S : Dialogue) (win : Nat) (pattern : BitVec 16) : Int × Dialogue :=
  match S.wins win with
  | none => (0, S)
  | some w =>
    let old := w.pattern
    let S := { S with asked := Function.update S.asked win (patternOf pattern) }
    (old.toNat, if old ≠ pattern then
      { S.setWin win (some { w with pattern }) with
        gc := client_setpattern S.server S.gc w.handle pattern }
    else S)

def patternData (L : Link) (data : Pattern) : Pattern :=
  if L.libBig = L.big then data else data.map (ntohs false)

def w_setpatterndata (L : Link) (S : Dialogue) (win : Nat) (data : Pattern) : Int × Dialogue :=
  match S.wins win with
  | none => (0xffff, S)
  | some w =>
    (w.pattern.toNat, { S.setWin win (some { w with pattern := W_USERPATTERN }) with
      asked := Function.update S.asked win data
      gc := client_setpatterndata S.server S.gc w.handle (patternData L data) })

def w_setmode (S : Dialogue) (win : Nat) (mode : BitVec 16) : Int × Dialogue :=
  match S.wins win with
  | none => (-1, S)
  | some w =>
    let old := w.drawmode
    (short old.toNat, if old ≠ mode then
      { S.setWin win (some { w with drawmode := mode }) with
        gc := client_setmode S.server S.gc w.handle mode }
    else S)

def w_setlinewidth (S : Dialogue) (win : Nat) (width : Int) : Int × Dialogue :=
  match S.wins win with
  | none => (-1, S)
  | some w =>
    let old := w.linewidth
    if width < 0 then (old, S)
    else (old, if old ≠ width then
      { S.setWin win (some { w with linewidth := width }) with
        gc := client_setlinewidth S.server S.gc w.handle width }
    else S)

def w_allocColor (S : Dialogue) (win red green blue : Nat) : Int × Dialogue :=
  match S.wins win with
  | none => (-1, S)
  | some w =>
    let ret := clientAllocColor S.server w.handle red green blue
    let S := { S with server := ret.2 }
    (ret.1, if ret.1 ≥ 0 then S.setWin win (some { w with colors := w.colors + 1 }) else S)

def w_freeColor (S : Dialogue) (win : Nat) (color : Int) : Int × Dialogue :=
  match S.wins win with
  | none => (-1, S)
  | some w =>
    let ret := clientFreeColor S.server w.handle color
    let S := { S with server := ret.2 }
    (ret.1, if ret.1 > 0 then S.setWin win (some { w with colors := w.colors - ret.1 }) else S)

def colorInRange (L : Link) (color : Int) : Prop := ¬ (color < 0 ∨ color ≥ 1 <<< L.planes)

instance (L : Link) (color : Int) : Decidable (colorInRange L color) :=
  inferInstanceAs (Decidable (¬ _))

def w_setForegroundColor (L : Link) (S : Dialogue) (win : Nat) (color : Int) : Int × Dialogue :=
  match S.wins win with
  | none => (-1, S)
  | some w =>
    let old := w.fg
    if old ≠ color then
      if colorInRange L color then
        (old, { S.setWin win (some { w with fg := color }) with
          gc := clientSetColor colorSetFGColor S.server S.gc w.handle color })
      else (-1, S)
    else (old, S)

def w_setBackgroundColor (L : Link) (S : Dialogue) (win : Nat) (color : Int) : Int × Dialogue :=
  match S.wins win with
  | none => (-1, S)
  | some w =>
    let old := w.bg
    if old ≠ color then
      if colorInRange L color then
        (old, { S.setWin win (some { w with bg := color }) with
          gc := clientSetColor colorSetBGColor S.server S.gc w.handle color })
      else (-1, S)
    else (old, S)

inductive Other where
  | request (r : Request)
  | alloc (handle red green blue : Nat)
  | free (handle : Nat) (color : Int)
  | change (handle : Nat) (color : Int) (red green blue : Nat)

def Other.run (L : Link) (mouse : Point) (s : Server) : Other → Server
  | .request r => serve L.driver s (r, mouse)
  | .alloc handle red green blue => (clientAllocColor s handle red green blue).2
  | .free handle color => (clientFreeColor s handle color).2
  | .change handle color red green blue => (clientChangeColor s handle color red green blue).2

inductive LibCall where
  | create (win : Nat) (width height : Int) (flags : Flags)
  | createChild (win parent : Nat) (width height : Int) (flags : Flags)
  | delete (win : Nat)
  | settextstyle (win : Nat) (flags : BitVec 16)
  | setpattern (win : Nat) (pattern : BitVec 16)
  | setpatterndata (win : Nat) (data : Pattern)
  | setmode (win : Nat) (mode : BitVec 16)
  | setlinewidth (win : Nat) (width : Int)
  | allocColor (win red green blue : Nat)
  | freeColor (win : Nat) (color : Int)
  | setForegroundColor (win : Nat) (color : Int)
  | setBackgroundColor (win : Nat) (color : Int)
  | other (o : Other)

def LibCall.run (L : Link) (mouse : Point) (S : Dialogue) : LibCall → Int × Dialogue
  | .create win width height flags => w_create L mouse S win width height flags
  | .createChild win parent width height flags => w_createChild L mouse S win parent width height flags
  | .delete win => w_delete L mouse S win
  | .settextstyle win flags => w_settextstyle S win flags
  | .setpattern win pattern => w_setpattern S win pattern
  | .setpatterndata win data => w_setpatterndata L S win data
  | .setmode win mode => w_setmode S win mode
  | .setlinewidth win width => w_setlinewidth S win width
  | .allocColor win red green blue => w_allocColor S win red green blue
  | .freeColor win color => w_freeColor S win color
  | .setForegroundColor win color => w_setForegroundColor L S win color
  | .setBackgroundColor win color => w_setBackgroundColor L S win color
  -- A window that appears here belongs to another client.
  | .other o => (0, { S with
      server := o.run L mouse S.server
      libPtr := fun h => if h ∈ S.server.ids then S.libPtr h else none })

def libCall (L : Link) (S : Dialogue) (c : LibCall × Point) : Dialogue := (c.1.run L c.2 S).2

def dialogue_init (d : Display) (screen : Pixmap) (colors : Colors) : Dialogue where
  server := window_init d screen colors
  gc := fun _ => set_defaultgc
  libPtr := fun _ => none
  wins := fun _ => none
  asked := fun _ => DefaultPattern

end WWindowSystem
