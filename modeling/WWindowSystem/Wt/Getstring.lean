import Mathlib.Data.List.Basic
import WWindowSystem.Library.Words
import WWindowSystem.Wt.Timeouts

namespace WWindowSystem

def KEY_LEFT : Int := 0x02
def KEY_RIGHT : Int := 0x06
def KEY_HOME : Int := 0x01
def KEY_END : Int := 0x05
def KEY_UP : Int := 0x10
def KEY_DOWN : Int := 0x0e
def KEY_PGUP : Int := 0x1c
def KEY_PGDOWN : Int := 0x1e
def KEY_BS : Int := 0x08
def KEY_DEL : Int := 0x7f
def KEY_KILLINE : Int := 0x0b
def KEY_CLEAR : Int := 0x1b
def WKEY_UP : Int := 0x1100
def WKEY_DOWN : Int := 0x1200
def WKEY_LEFT : Int := 0x1300
def WKEY_RIGHT : Int := 0x1400
def WKEY_PGUP : Int := 0x1500
def WKEY_PGDOWN : Int := 0x1600
def WKEY_HOME : Int := 0x1700
def WKEY_END : Int := 0x1800
def WKEY_DEL : Int := 0x1a00
def Getstr.BUTTON_LEFT : Int := 4
def Getstr.BUTTON_RIGHT : Int := 1
def WT_DEFAULT_XBORDER : Int := 2
def WT_DEFAULT_YBORDER : Int := 2
def XBORDER : Int := WT_DEFAULT_XBORDER + 4
def YBORDER : Int := WT_DEFAULT_YBORDER + 4
def DEF_EDIT_WIDTH : Int := 32

def DESTRUCTIVE (k : Int) : Prop :=
  k = WKEY_DEL ∨ k = KEY_DEL ∨ k = KEY_BS ∨ k = KEY_CLEAR ∨ k = KEY_KILLINE

def MOVEMENT (k : Int) : Prop :=
  k = WKEY_LEFT ∨ k = KEY_LEFT ∨ k = WKEY_RIGHT ∨ k = KEY_RIGHT ∨ k = WKEY_HOME ∨ k = KEY_HOME ∨ k = WKEY_END ∨
    k = KEY_END ∨ k = WKEY_UP ∨ k = KEY_UP ∨ k = WKEY_DOWN ∨ k = KEY_DOWN ∨ k = WKEY_PGUP ∨ k = KEY_PGUP ∨
    k = WKEY_PGDOWN ∨ k = KEY_PGDOWN

instance (k : Int) : Decidable (DESTRUCTIVE k) := inferInstanceAs (Decidable (_ ∨ _))

instance (k : Int) : Decidable (MOVEMENT k) := inferInstanceAs (Decidable (_ ∨ _))

structure widget_t where
  x : Int
  y : Int
  w : Int
  h : Int
  deriving DecidableEq

/-- The `getstring_widget_t`. `hasText` says that `text` is not `NULL`, and `touched` are the accesses to it.
`stuck` is set when a loop does not end. Drawing and the callbacks of the program are left out. -/
structure Getstr where
  w : widget_t
  is_realized : Bool
  fontht : Int
  xborder : Int
  hasText : Bool
  text : Int → Byte
  mask : Option (List Byte)
  bufsize : Int
  maxlen : Int
  textlen : Int
  showlen : Int
  char_width : Int
  cursor : Int
  textpos : Int
  copystart : Int
  copyend : Int
  timer : Int
  cursor_on : Bool
  usrwd : Int
  usrht : Int
  usrshowlen : Int
  touched : List Access
  stuck : Bool

def Getstr.touch (s : Getstr) (i : Int) : Getstr := { s with touched := ⟨s.bufsize, i⟩ :: s.touched }

def Getstr.span (s : Getstr) (i n : Int) : Getstr :=
  { s with touched := (List.range n.toNat).map (fun k : Nat => (⟨s.bufsize, i + k⟩ : Access)) ++ s.touched }

def Getstr.put (s : Getstr) (i : Int) (c : Byte) : Getstr :=
  { s.touch i with text := Function.update s.text i c }

def stringLength (text : Int → Byte) : Nat → Int → Nat
  | 0, _ => 0
  | n + 1, i => if text i = 0 then 0 else stringLength text n (i + 1) + 1

def Getstr.readString (s : Getstr) (i : Int) : Getstr :=
  s.span i (stringLength s.text (s.bufsize - i).toNat i + 1)

def Getstr.memcpy (s : Getstr) (dst src n : Int) : Getstr :=
  let n := if n < 0 then n + 2 ^ 64 else n
  { (s.span src n).span dst n with
    text := fun i => if dst ≤ i ∧ i < dst + n then s.text (i - dst + src) else s.text i }

def Getstr.strcpy (s : Getstr) (val : List Byte) : Getstr :=
  { s.span 0 (val.length + 1) with
    text := fun i => if 0 ≤ i ∧ i ≤ val.length then val.getD i.toNat 0 else s.text i }

def cursor_invert (s : Getstr) : Getstr := { s with cursor_on := !s.cursor_on }

def getstring_draw (s : Getstr) : Getstr :=
  let idx := s.textpos + s.showlen
  let idx := min s.textlen idx
  let bak := s.text idx
  let s := (s.touch idx).put idx 0
  let s := s.readString s.textpos
  s.put idx bak

def draw_to_endpos (s : Getstr) : Getstr :=
  let s := { s with textpos := s.textlen - s.showlen }
  let s := if s.textpos > 0 then { s with cursor := s.showlen } else { s with textpos := 0, cursor := s.textlen }
  getstring_draw { s with copystart := s.textpos + s.cursor, copyend := s.textpos + s.cursor }

def redraw_getstring (s : Getstr) : Getstr :=
  let cursor_on := s.cursor_on
  let s := if cursor_on then cursor_invert s else s
  let s := draw_to_endpos s
  if cursor_on then cursor_invert s else s

def getstring_query_minsize (s : Getstr) : Getstr × Int × Int :=
  let s := if s.usrshowlen > s.showlen ∧ s.usrshowlen ≤ s.maxlen then { s with showlen := s.usrshowlen } else s
  (s, max (s.char_width * s.showlen + 2 * XBORDER) s.usrwd, s.fontht + 2 * YBORDER)

def getstring_query_geometry (s : Getstr) : Getstr × Int × Int :=
  let r := getstring_query_minsize s
  (r.1, max r.1.w.w r.2.1, r.2.2)

structure Getstring where
  s : Getstr
  T : Ticker

def Getstring.stop (self : Int) (d : Getstring) : Getstring :=
  if d.s.timer ≥ 0 then ⟨{ d.s with timer := -1 }, d.T.wt_deltimeout self d.s.timer⟩ else d

def Getstr.roomFor (s : Getstr) (wd : Int) : Int :=
  let def_wd := (wd - 2 * XBORDER).tdiv s.char_width
  if def_wd < 1 then 1 else min s.maxlen def_wd

def getstring_reshape (self : Int) (d : Getstring) (x y wd _ht : Int) : Getstring × Bool :=
  let (d, ret) : Getstring × Bool :=
    if x ≠ d.s.w.x ∨ y ≠ d.s.w.y then ({ d with s := { d.s with w := { d.s.w with x, y } } }, true) else (d, false)
  if wd ≠ d.s.w.w then
    let r := getstring_query_minsize { d.s with showlen := d.s.roomFor wd }
    let s := r.1
    let wd := if wd < r.2.1 then r.2.1 else wd
    let ht := r.2.2
    if wd ≠ s.w.w ∨ ht ≠ s.w.h then
      let s := { s with w := { s.w with w := wd, h := ht } }
      let s := { s with xborder := short ((s.w.w - s.char_width * s.showlen).tdiv 2) }
      if s.is_realized then
        let d := Getstring.stop self ⟨s, d.T⟩
        let g := getstring_query_geometry d.s
        let s := { g.1 with w := { g.1.w with w := g.2.1 } }
        (⟨redraw_getstring s, d.T⟩, true)
      else (⟨s, d.T⟩, true)
    else (⟨s, d.T⟩, ret)
  else (d, ret)

def check_size (self : Int) (d : Getstring) : Getstring × Bool :=
  if ¬ d.s.is_realized then (d, false)
  else
    let r := getstring_query_minsize d.s
    let wd := if r.1.w.w > r.2.1 then r.1.w.w else r.2.1
    let ht := if r.1.w.h > r.2.2 then r.1.w.h else r.2.2
    getstring_reshape self ⟨r.1, d.T⟩ r.1.w.x r.1.w.y wd ht

def scroll_left (s : Getstr) : Getstr :=
  if s.textpos + s.showlen ≥ s.textlen then s
  else
    let s := { s with textpos := s.textpos + 1 }
    s.touch (s.textpos + s.showlen - 1)

def scroll_right (s : Getstr) : Getstr :=
  if s.textpos ≤ 0 then s
  else
    let s := { s with textpos := s.textpos - 1 }
    s.touch s.textpos

def moveLeft : Nat → Getstr → Int → Getstr
  | 0, s, _ => s
  | n + 1, s, idx => moveLeft n ((s.touch idx).put (idx - 1) (s.text idx)) (idx + 1)

def moveRight : Nat → Getstr → Int → Getstr
  | 0, s, _ => s
  | n + 1, s, idx => moveRight n ((s.touch idx).put (idx + 1) (s.text idx)) (idx - 1)

def backspace_key (s : Getstr) : Getstr :=
  let idx := s.textpos + s.cursor
  let s := moveLeft (s.textlen - idx + 1).toNat s idx
  let s := { s with textlen := s.textlen - 1 }
  if s.cursor ≤ 0 then { s with textpos := s.textpos - 1 }
  else
    let s := if s.textlen ≥ s.textpos + s.showlen then s.touch (s.textpos + s.showlen - 1) else s
    { s with cursor := s.cursor - 1 }

def add_key (s : Getstr) (key : Int) : Getstr :=
  if s.textlen ≥ s.maxlen then s
  else
    let idx := s.textpos + s.cursor
    let s := moveRight (s.textlen - idx + 1).toNat s s.textlen
    let s := s.put (s.textpos + s.cursor) (BitVec.ofInt 8 key)
    let s := { s with textlen := s.textlen + 1 }
    if s.cursor ≥ s.showlen then scroll_left s else { s with cursor := s.cursor + 1 }

def char_in (key lc : Int) : List Byte → Bool
  | [] => false
  | [cc] => if cc = 0x2d then (lc < key ∧ key < 0) ∨ key = 0 else key = cc.toInt
  | cc :: next :: mask =>
    if cc = 0x2d then
      if (lc < key ∧ key < next.toInt) ∨ key = next.toInt then true else char_in key lc mask
    else if key = cc.toInt then true
    else char_in key cc.toInt (next :: mask)

def Getstr.printable (s : Getstr) (key : Int) : Bool :=
  0x20 ≤ key ∧ key ≤ 0xff ∧ (s.mask.all fun mask => char_in key 256 mask)

def process_key (s : Getstr) (key : Int) : Getstr :=
  if key = KEY_BS then if s.cursor < 1 ∧ s.textpos < 1 then s else backspace_key s
  else if key = KEY_DEL ∨ key = WKEY_DEL then
    if s.textpos + s.cursor ≥ s.textlen then s
    else if s.cursor < s.showlen then backspace_key { s with cursor := s.cursor + 1 }
    else
      let key := s.textpos + s.cursor
      let s := moveLeft (s.textlen - key).toNat s (key + 1)
      { s with textlen := s.textlen - 1 }
  else if key = KEY_KILLINE then
    if s.textpos + s.cursor ≥ s.textlen then s
    else
      let s := { s with textlen := s.textpos + s.cursor }
      s.put s.textlen 0
  else if key = KEY_CLEAR then
    if s.textlen < 1 then s
    else
      let s := s.span 0 s.textlen
      { s.put 0 0 with textpos := 0, cursor := 0, textlen := 0 }
  else if key = KEY_LEFT ∨ key = WKEY_LEFT then
    if s.cursor > 0 ∨ s.textpos > 0 then
      if s.cursor ≤ 0 then scroll_right s else { s with cursor := s.cursor - 1 }
    else s
  else if key = KEY_RIGHT ∨ key = WKEY_RIGHT then
    if s.textpos + s.cursor < s.textlen then
      if s.cursor ≥ s.showlen then scroll_left s else { s with cursor := s.cursor + 1 }
    else s
  else if key = KEY_HOME ∨ key = WKEY_HOME then
    let s := if s.textpos = 0 then { s with cursor := 0 } else s
    if s.textpos > 0 then getstring_draw { s with textpos := 0, cursor := 0 } else s
  else if key = KEY_END ∨ key = WKEY_END then
    if s.textpos + s.cursor < s.textlen then
      if s.textpos + s.showlen < s.textlen then draw_to_endpos s
      else { s with cursor := s.textlen - s.textpos }
    else s
  else if key = 0x0d ∨ key = 0x0a then s
  else if s.printable key then add_key s key
  else s

def paint_text (s : Getstr) (x : Int) : Getstr :=
  let max := min s.showlen (s.textlen - s.textpos)
  let (s, x) : Getstr × Int := if x < 0 then (if s.textpos > 0 then scroll_right s else s, 0) else (s, x)
  let (s, x) : Getstr × Int :=
    if x > max then (if s.textpos + s.showlen < s.textlen then scroll_left s else s, max) else (s, x)
  { s with copyend := s.textpos + x }

def timer_callback (self : Int) (d : Getstring) (mouse : Option Int) : Getstring :=
  match mouse with
  | none => { d with s := { d.s with timer := -1 } }
  | some mx =>
    let mx := short ((mx - d.s.xborder).tdiv d.s.char_width)
    let s := cursor_invert (paint_text (cursor_invert d.s) mx)
    let r := d.T.wt_addtimeout 100 .timer_callback self
    ⟨{ s with timer := r.1 }, r.2⟩

def clear_selection (s : Getstr) : Getstr :=
  if s.copyend ≠ s.copystart then
    if s.copystart < s.textpos then paint_text s 0
    else if s.copystart > s.textpos + s.showlen then paint_text s s.showlen
    else paint_text s (s.copystart - s.textpos)
  else s

def remove_selection (s : Getstr) : Getstr :=
  getstring_draw <|
    if s.copyend < s.copystart then
      let s := s.memcpy s.copyend s.copystart (s.textlen - s.copystart + 1)
      let s := { s with textlen := s.textlen - (s.copystart - s.copyend) }
      { s with cursor := s.copyend - s.textpos }
    else
      let s := s.memcpy s.copystart s.copyend (s.textlen - s.copyend + 1)
      let s := { s with textlen := s.textlen - (s.copyend - s.copystart) }
      if s.copystart < s.textpos then { s with textpos := s.copystart, cursor := 0 } else s

def cursor_position (s : Getstr) (x : Int) : Getstr :=
  let x := if x + s.textpos > s.textlen then s.textlen - s.textpos else if x < 0 then 0 else x
  { s with copystart := s.textpos + x, copyend := s.textpos + x, cursor := x }

def paste (s : Getstr) (data : List Byte) : Getstr :=
  if data.length < 2 ^ 15 then data.foldl (fun s c => add_key s c.toInt) s else { s with stuck := true }

inductive GetstringEvent where
  | mpress (x key : Int) (sel : Option (List Byte)) (mouse : Option Int)
  | mrelease (key : Int)
  | key (key : Int)

def getstring_event (self : Int) (d : Getstring) : GetstringEvent → Getstring
  | .mpress x key sel mouse =>
    let s := clear_selection (cursor_invert d.s)
    let s := cursor_position s (short ((x - s.xborder).tdiv s.char_width))
    if key = Getstr.BUTTON_LEFT then timer_callback self ⟨cursor_invert s, d.T⟩ mouse
    else if key = Getstr.BUTTON_RIGHT then
      match sel with
      | none => ⟨s, d.T⟩
      | some data =>
        let s := paste s data
        ⟨cursor_invert (cursor_position s s.cursor), d.T⟩
    else ⟨s, d.T⟩
  | .mrelease key =>
    let d := Getstring.stop self d
    if d.s.copyend ≠ d.s.copystart ∧ key = Getstr.BUTTON_LEFT then
      let len := if d.s.copyend < d.s.copystart then d.s.copystart - d.s.copyend else d.s.copyend - d.s.copystart
      { d with s := d.s.span (min d.s.copyend d.s.copystart) len }
    else d
  | .key key =>
    let cursor_on := d.s.cursor_on
    let s := if cursor_on then cursor_invert d.s else d.s
    let shown (s : Getstr) : Getstring := ⟨if cursor_on then cursor_invert s else s, d.T⟩
    if s.copyend ≠ s.copystart then
      if MOVEMENT key then
        let s := process_key (clear_selection s) key
        shown (cursor_position s s.cursor)
      else
        let s := remove_selection s
        if DESTRUCTIVE key then shown (cursor_position s s.cursor)
        else
          let s := process_key s key
          shown (cursor_position s s.cursor)
    else
      let s := process_key s key
      shown (cursor_position s s.cursor)

def getstring_focus (self : Int) (d : Getstring) (enter : Bool) : Getstring :=
  let d := { d with s := cursor_invert d.s }
  if ¬ enter then Getstring.stop self d else d

inductive GetstringOpt where
  | string_address (val : List Byte)
  | string_length (val : Int)
  | string_mask (val : List Byte)
  | string_width (val : Int)
  | width (val : Int)

def getstring_setopt (self : Int) (d : Getstring) : GetstringOpt → Getstring
  | .string_address val =>
    let s := d.s
    let len := short val.length
    let s := if ¬ s.hasText ∨ len ≥ s.bufsize then { s with bufsize := len + 1, hasText := true } else s
    let s := s.strcpy val
    let s := { s with textlen := len }
    let s := if s.maxlen = (0 : Int) then { s with maxlen := len } else s
    if s.is_realized then
      let cursor_on := s.cursor_on
      let s := if cursor_on then cursor_invert s else s
      let s := draw_to_endpos s
      let s := if cursor_on then cursor_invert s else s
      Getstring.stop self ⟨s, d.T⟩
    else ⟨s, d.T⟩
  | .string_length val =>
    let s := { d.s with maxlen := short val }
    let s : Getstr :=
      if s.maxlen ≥ s.bufsize then
        if s.hasText then
          let t : Getstr := { s.readString 0 with bufsize := s.maxlen + 1 }
          t.span 0 (stringLength s.text s.bufsize.toNat 0 + 1)
        else Getstr.put { s with bufsize := s.maxlen + 1, hasText := true } 0 0
      else s
    let s := if s.showlen > s.maxlen ∨ s.showlen = 0 then { s with showlen := s.maxlen } else s
    ⟨s, d.T⟩
  | .string_mask val => { d with s := { d.s with mask := some val } }
  | .string_width val =>
    let s := { d.s with showlen := short val }
    let s := { s with usrshowlen := s.showlen }
    (check_size self ⟨s, d.T⟩).1
  | .width val =>
    let s := { d.s with usrwd := short (max 0 val) }
    (getstring_reshape self ⟨s, d.T⟩ s.w.x s.w.y s.usrwd s.w.h).1

def getstring_create (char_width fontht longMax : Int) : Getstring where
  s :=
    { w := ⟨0, 0, 0, 0⟩, is_realized := false, fontht, xborder := XBORDER, hasText := false, text := fun _ => 0
      mask := none, bufsize := 0, maxlen := 0, textlen := 0, showlen := 0, char_width, cursor := 0, textpos := 0
      copystart := 0, copyend := 0, timer := -1, cursor_on := false, usrwd := 0, usrht := 0
      usrshowlen := DEF_EDIT_WIDTH, touched := [], stuck := false }
  T := Ticker.start longMax

def getstring_realize (d : Getstring) : Getstring :=
  if d.s.is_realized ∨ ¬ d.s.hasText then d
  else
    let r := getstring_query_geometry d.s
    let s := { r.1 with w := { r.1.w with w := r.2.1, h := r.2.2 } }
    { d with s := { redraw_getstring s with is_realized := true } }

structure Getstr.Holds (s : Getstr) : Prop where
  has : s.hasText = true
  len : 0 ≤ s.textlen ∧ s.textlen < s.bufsize
  room : 0 ≤ s.maxlen ∧ s.maxlen < s.bufsize
  zero : s.text s.textlen = 0
  nonzero : ∀ i, 0 ≤ i → i < s.textlen → s.text i ≠ 0
  inside : ∀ a ∈ s.touched, a.Inside

structure Getstr.Placed (s : Getstr) : Prop where
  textpos : 0 ≤ s.textpos
  cursor : 0 ≤ s.cursor ∧ s.cursor ≤ s.showlen
  within : s.textpos + s.cursor ≤ s.textlen

structure Getstr.Selected (s : Getstr) : Prop where
  copystart : 0 ≤ s.copystart ∧ s.copystart ≤ s.textlen
  copyend : s.textpos ≤ s.copyend ∧ s.copyend ≤ s.textlen

def Edit (s t : Getstr) : Prop := ∃ text textlen textpos cursor copystart copyend cursor_on touched,
  t = { s with text, textlen, textpos, cursor, copystart, copyend, cursor_on, touched }

variable {s t u : Getstr} {i n : Int}

theorem Edit.refl (s : Getstr) : Edit s s := ⟨_, _, _, _, _, _, _, _, rfl⟩

theorem Edit.trans (h : Edit s t) (h' : Edit t u) : Edit s u := by
  obtain ⟨_, _, _, _, _, _, _, _, rfl⟩ := h
  obtain ⟨_, _, _, _, _, _, _, _, rfl⟩ := h'
  exact ⟨_, _, _, _, _, _, _, _, rfl⟩

theorem Getstr.Holds.moved (h : s.Holds) (he : t.hasText = s.hasText ∧ t.text = s.text ∧ t.bufsize = s.bufsize ∧
    t.maxlen = s.maxlen ∧ t.textlen = s.textlen) (ht : ∀ a ∈ t.touched, a.Inside) : t.Holds := by
  obtain ⟨e1, e2, e3, e4, e5⟩ := he
  refine ⟨e1.trans h.has, ?_, ?_, ?_, ?_, ht⟩
  · rw [e3, e5]
    exact h.len
  · rw [e3, e4]
    exact h.room
  · rw [e2, e5]
    exact h.zero
  · rw [e2, e5]
    exact h.nonzero

theorem touch_inside (h : ∀ a ∈ s.touched, a.Inside) (hi : 0 ≤ i ∧ i < s.bufsize) :
    ∀ a ∈ (s.touch i).touched, a.Inside := by
  intro a ha
  cases ha with
  | head => exact hi
  | tail _ ha => exact h a ha

theorem span_inside (h : ∀ a ∈ s.touched, a.Inside) (h0 : 0 ≤ i) (hn : i + n ≤ s.bufsize) :
    ∀ a ∈ (s.span i n).touched, a.Inside := by
  intro a ha
  obtain ha | ha := List.mem_append.mp ha
  · obtain ⟨k, hk, rfl⟩ := List.mem_map.mp ha
    rw [List.mem_range] at hk
    constructor
    · dsimp only
      omega
    · dsimp only
      omega
  · exact h a ha

theorem Getstr.Holds.touch (h : s.Holds) (hi : 0 ≤ i ∧ i ≤ s.textlen) : (s.touch i).Holds := by
  have hlen := h.len
  exact h.moved ⟨rfl, rfl, rfl, rfl, rfl⟩ (touch_inside h.inside ⟨hi.1, by omega⟩)

theorem Getstr.Holds.span (h : s.Holds) (h0 : 0 ≤ i) (hn : i + n ≤ s.textlen + 1) : (s.span i n).Holds := by
  have hlen := h.len
  exact h.moved ⟨rfl, rfl, rfl, rfl, rfl⟩ (span_inside h.inside h0 (by omega))

theorem stringLength_le {text : Int → Byte} {j : Int} (hz : text j = 0) (n : Nat) {i : Int} (hi : i ≤ j) :
    i + stringLength text n i ≤ j := by
  induction n generalizing i with
  | zero =>
    rw [stringLength, Int.natCast_zero, Int.add_zero]
    exact hi
  | succ n ih =>
    rw [stringLength]
    split_ifs with h0
    · rw [Int.natCast_zero, Int.add_zero]
      exact hi
    · have hne : i ≠ j := by
        rintro rfl
        exact h0 hz
      have := ih (i := i + 1) (by omega)
      omega

theorem readString_inside (h : ∀ a ∈ s.touched, a.Inside) {j : Int} (h0 : 0 ≤ i) (hi : i ≤ j) (hj : j < s.bufsize)
    (hz : s.text j = 0) : ∀ a ∈ (s.readString i).touched, a.Inside := by
  apply span_inside h h0
  have := stringLength_le hz (s.bufsize - i).toNat hi
  omega

theorem cut_restored (s : Getstr) (idx i : Int) : (((s.touch idx).put idx 0).readString i).put idx (s.text idx) =
      { s with touched := ((((s.touch idx).put idx 0).readString i).touch idx).touched } := by
  simp only [Getstr.put, Getstr.touch, Getstr.readString, Getstr.span, Function.update_idem, Function.update_eq_self]

theorem getstring_draw_spec (h : s.Holds) (hp : 0 ≤ s.textpos ∧ s.textpos ≤ s.textlen) (hs : 0 ≤ s.showlen) :
    ∃ touched, getstring_draw s = { s with touched } ∧ ∀ a ∈ touched, a.Inside := by
  have hlen := h.len
  have hidx : s.textpos ≤ min s.textlen (s.textpos + s.showlen) ∧ min s.textlen (s.textpos + s.showlen) ≤ s.textlen := by
    omega
  unfold getstring_draw
  dsimp only
  generalize min s.textlen (s.textpos + s.showlen) = idx at hidx
  have h1 : ∀ a ∈ (s.touch idx).touched, a.Inside := touch_inside h.inside ⟨by omega, by omega⟩
  have h2 : ∀ a ∈ ((s.touch idx).put idx 0).touched, a.Inside := touch_inside h1 ⟨by omega, show idx < s.bufsize by omega⟩
  have h3 := readString_inside h2 (i := s.textpos) (j := idx) hp.1 (by omega) (show idx < s.bufsize by omega)
    (Function.update_self idx 0 s.text)
  have h4 := touch_inside h3 (i := idx) ⟨by omega, show idx < s.bufsize by omega⟩
  exact ⟨_, cut_restored s idx s.textpos, h4⟩

theorem draw_to_endpos_spec (h : s.Holds) (hs : 0 ≤ s.showlen) :
    Edit s (draw_to_endpos s) ∧ (draw_to_endpos s).Holds ∧ (draw_to_endpos s).Placed ∧ (draw_to_endpos s).Selected := by
  have hlen := h.len
  unfold draw_to_endpos
  dsimp only
  have hall (textpos cursor : Int) (hp : 0 ≤ textpos) (hc : 0 ≤ cursor ∧ cursor ≤ s.showlen)
      (hw : textpos + cursor = s.textlen) : Edit s (getstring_draw { s with
        textpos, cursor, copystart := textpos + cursor, copyend := textpos + cursor }) ∧ (getstring_draw { s with
        textpos, cursor, copystart := textpos + cursor, copyend := textpos + cursor }).Holds ∧ (getstring_draw { s with
        textpos, cursor, copystart := textpos + cursor, copyend := textpos + cursor }).Placed ∧ (getstring_draw { s with
        textpos, cursor, copystart := textpos + cursor, copyend := textpos + cursor }).Selected := by
    have hm : ({ s with textpos, cursor, copystart := textpos + cursor, copyend := textpos + cursor } : Getstr).Holds :=
      h.moved ⟨rfl, rfl, rfl, rfl, rfl⟩ h.inside
    obtain ⟨_, he, ht⟩ := getstring_draw_spec hm ⟨hp, show textpos ≤ s.textlen by omega⟩ hs
    rw [he]
    refine ⟨⟨_, _, _, _, _, _, _, _, rfl⟩, hm.moved ⟨rfl, rfl, rfl, rfl, rfl⟩ ht, ⟨hp, hc, le_of_eq hw⟩,
      ⟨show 0 ≤ textpos + cursor by omega, le_of_eq hw⟩, ⟨show textpos ≤ textpos + cursor by omega, le_of_eq hw⟩⟩
  split_ifs with hpos
  · exact hall (s.textlen - s.showlen) s.showlen (by omega) ⟨hs, le_refl _⟩ (by omega)
  · exact hall 0 s.textlen (le_refl 0) ⟨hlen.1, by omega⟩ (by omega)

theorem redraw_getstring_spec (h : s.Holds) (hs : 0 ≤ s.showlen) :
    Edit s (redraw_getstring s) ∧ (redraw_getstring s).Holds ∧ (redraw_getstring s).Placed ∧
      (redraw_getstring s).Selected := by
  unfold redraw_getstring
  dsimp only
  split_ifs with hc
  · have hm : (cursor_invert s).Holds := h.moved ⟨rfl, rfl, rfl, rfl, rfl⟩ h.inside
    obtain ⟨he, hh, hp, hsel⟩ := draw_to_endpos_spec hm hs
    have hi : Edit (draw_to_endpos (cursor_invert s)) (cursor_invert (draw_to_endpos (cursor_invert s))) :=
      ⟨_, _, _, _, _, _, _, _, rfl⟩
    have hi' : Edit s (cursor_invert s) := ⟨_, _, _, _, _, _, _, _, rfl⟩
    exact ⟨hi'.trans (he.trans hi), hh.moved ⟨rfl, rfl, rfl, rfl, rfl⟩ hh.inside, ⟨hp.textpos, hp.cursor, hp.within⟩,
      ⟨hsel.copystart, hsel.copyend⟩⟩
  · exact draw_to_endpos_spec h hs

end WWindowSystem
