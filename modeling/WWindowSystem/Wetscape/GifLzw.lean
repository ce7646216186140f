import WWindowSystem.Library.Loops
import WWindowSystem.Wetscape.Io

namespace WWindowSystem.Gif

inductive state_t
  | InHeader | InCmap | InSelect | InExt | InImageDesc | InImage | Skip | InError
  deriving DecidableEq

/-- What the decoder gets from elsewhere: whether there is a window of the given size, the current line of the image
after some calls of `image_addpixels`, and what is in memory that `malloc` returns. -/
structure GifEnv where
  getwin : Int → Int → Bool → Bool
  cur_y : Int → Int → Bool → List Byte → Int
  suffix : Int → Byte
  prefixes : Int → Int

structure gif_block where
  navail_bytes : Int
  nbits_left : Nat
  b1 : Byte
  byte_buff : List Byte
  pbytes : Nat

structure gif_table where
  curr_size : Nat
  clear : Int
  ending : Int
  newcodes : Int
  top_slot : Int
  slot : Int
  suffix : Int → Byte
  prefixes : Int → Int
  dec_fc : Int
  dec_oc : Int
  dec_size : Nat
  dec_clearing : Bool

/-- The fields for the pixels; `added` are the calls of `image_addpixels` and `emitted` the color indices so far. -/
structure gif_pixels where
  pixels : Byte
  mask : Byte
  dec_x : Int
  errbuf : List (Int × Int)
  added : List Byte
  emitted : List Int

structure gif_image where
  wd : Int
  ht : Int

structure gif_info_t where
  img : Option gif_image
  state : state_t
  cmap : Option (List Byte)
  cmapsz : Int
  maxval : Int
  interlaced : Bool
  block : gif_block
  table : gif_table
  out : gif_pixels

def MAX_CODES : Nat := 4095

def code_mask : List Nat :=
  [0, 0x0001, 0x0003, 0x0007, 0x000F, 0x001F, 0x003F, 0x007F, 0x00FF, 0x01FF, 0x03FF, 0x07FF, 0x0FFF]

def emptyTable : gif_table where
  curr_size := 0
  clear := 0
  ending := 0
  newcodes := 0
  top_slot := 0
  slot := 0
  suffix := fun _ => 0
  prefixes := fun _ => 0
  dec_fc := 0
  dec_oc := 0
  dec_size := 0
  dec_clearing := false

def gif_info_alloc : gif_info_t where
  img := none
  state := .InHeader
  cmap := none
  cmapsz := 0
  maxval := 0
  interlaced := false
  block := { navail_bytes := 0, nbits_left := 0, b1 := 0, byte_buff := List.replicate 257 0, pbytes := 0 }
  table := emptyTable
  out := { pixels := 0, mask := 0, dec_x := 0, errbuf := [], added := [], emitted := [] }

def decoder_init (E : GifEnv) (size : Byte) (gif : gif_info_t) : Option gif_info_t :=
  if size.toNat < 2 ∨ 9 < size.toNat then none
  else
    let size := size.toNat
    some { gif with
      block := { gif.block with navail_bytes := 0, nbits_left := 0 }
      table := {
        curr_size := size + 1
        top_slot := 2 ^ (size + 1)
        clear := 2 ^ size
        ending := 2 ^ size + 1
        newcodes := 2 ^ size + 1 + 1
        slot := 2 ^ size + 1 + 1
        suffix := E.suffix
        prefixes := E.prefixes
        dec_fc := 0
        dec_oc := 0
        dec_size := size
        dec_clearing := gif.table.dec_clearing }
      out := { gif.out with pixels := 0, mask := 0x80, dec_x := 0 } }

def enoughTurn (s : Int × List Byte) : (Int × List Byte) ⊕ Bool :=
  if s.1 < 0 then
    match s.2 with
    | [] => .inr false
    | i :: later => if later.length < i.toNat then .inr false else .inl (s.1 + 8 * i.toNat, later.drop i.toNat)
  else .inr true

def enough (j : Int) (input : List Byte) : Bool := (runLoop enoughTurn (input.length + 1) (j, input)).getD false

def read_block (block : gif_block) (input : List Byte) : Option (gif_block × List Byte) :=
  match input with
  | [] => none
  | i :: later =>
    if later.length < i.toNat ∨ block.byte_buff.length < i.toNat then none
    else some ({ block with
      pbytes := 0
      navail_bytes := i.toNat
      byte_buff := later.take i.toNat ++ block.byte_buff.drop i.toNat }, later.drop i.toNat)

def next_byte (block : gif_block) (input : List Byte) : Option (gif_block × List Byte) :=
  (if block.navail_bytes ≤ 0 then read_block block input else some (block, input)).bind fun p =>
    (p.1.byte_buff[p.1.pbytes]?).map fun b =>
      ({ p.1 with b1 := b, pbytes := p.1.pbytes + 1, navail_bytes := p.1.navail_bytes - 1 }, p.2)

def more_bits (curr_size : Nat) (s : Nat × gif_block × List Byte) :
    (Nat × gif_block × List Byte) ⊕ Option (Nat × gif_block × List Byte) :=
  if curr_size > s.2.1.nbits_left then
    match next_byte s.2.1 s.2.2 with
    | none => .inr none
    | some (block, input) =>
      .inl (s.1 ||| block.b1.toNat <<< block.nbits_left, { block with nbits_left := block.nbits_left + 8 }, input)
  else .inr (some s)

inductive Code
  | bad
  | eof
  | code (c : Nat) (block : gif_block) (input : List Byte)

def first_bits (block : gif_block) (input : List Byte) : Option (gif_block × List Byte) :=
  if block.nbits_left = 0 then (next_byte block input).map fun p => ({ p.1 with nbits_left := 8 }, p.2)
  else some (block, input)

def get_next_code (curr_size : Nat) (block : gif_block) (input : List Byte) : Code :=
  let j := block.nbits_left + 8 * block.navail_bytes - curr_size
  if j < 0 ∧ enough j input = false then .eof
  else
    match (first_bits block input).bind fun p =>
      (runLoop (more_bits curr_size) (curr_size + 1) (p.1.b1.toNat >>> (8 - p.1.nbits_left), p.1, p.2)).join with
    | none => .bad
    | some (ret, block, input) =>
      match code_mask[curr_size]? with
      | none => .bad
      | some mask => .code (ret &&& mask) { block with nbits_left := block.nbits_left - curr_size } input

def dither8 : List (List Nat) := [
  [1, 235, 59, 219, 15, 231, 55, 215, 2, 232, 56, 216, 12, 228, 52, 212],
  [129, 65, 187, 123, 143, 79, 183, 119, 130, 66, 184, 120, 140, 76, 180, 116],
  [33, 193, 17, 251, 47, 207, 31, 247, 34, 194, 18, 248, 44, 204, 28, 244],
  [161, 97, 145, 81, 175, 111, 159, 95, 162, 98, 146, 82, 172, 108, 156, 92],
  [9, 225, 49, 209, 5, 239, 63, 223, 10, 226, 50, 210, 6, 236, 60, 220],
  [137, 73, 177, 113, 133, 69, 191, 127, 138, 74, 178, 114, 134, 70, 188, 124],
  [41, 201, 25, 241, 37, 197, 21, 255, 42, 202, 26, 242, 38, 198, 22, 252],
  [169, 105, 153, 89, 165, 101, 149, 85, 170, 106, 154, 90, 166, 102, 150, 86],
  [3, 233, 57, 217, 13, 229, 53, 213, 0, 234, 58, 218, 14, 230, 54, 214],
  [131, 67, 185, 121, 141, 77, 181, 117, 128, 64, 186, 122, 142, 78, 182, 118],
  [35, 195, 19, 249, 45, 205, 29, 245, 32, 192, 16, 250, 46, 206, 30, 246],
  [163, 99, 147, 83, 173, 109, 157, 93, 160, 96, 144, 80, 174, 110, 158, 94],
  [11, 227, 51, 211, 7, 237, 61, 221, 8, 224, 48, 208, 4, 238, 62, 222],
  [139, 75, 179, 115, 135, 71, 189, 125, 136, 72, 176, 112, 132, 68, 190, 126],
  [43, 203, 27, 243, 39, 199, 23, 253, 40, 200, 24, 240, 36, 196, 20, 254],
  [171, 107, 155, 91, 167, 103, 151, 87, 168, 104, 152, 88, 164, 100, 148, 84]]

def dither_o (x y : Int) (col : Byte) (maxval : Int) : Bool :=
  (((dither8[(x % 16).toNat]?).bind fun row => row[(y % 16).toNat]?).getD 0 : Int) * maxval ≤ col.toNat * 256

def cell (buf : List (Int × Int)) (k : Int) (odd : Bool) (f : Int → Int) : List (Int × Int) :=
  buf.modify k.toNat fun p => if odd then (p.1, f p.2) else (f p.1, p.2)

def dither_fs (x y : Int) (col : Byte) (buf : List (Int × Int)) (maxval : Int) : Option (Bool × List (Int × Int)) :=
  if x < 0 ∨ buf.length ≤ x + 2 then none
  else
    let odd := decide (y % 2 = 1)
    (buf[(x + 1).toNat]?).map fun p =>
      let lum : Int := col.toNat + (if odd then p.2 else p.1) / 16
      let val := decide (lum ≥ maxval / 2)
      let err : Int := if val then lum - maxval else lum
      let buf := cell buf (x + 1) odd fun _ => 0
      let buf := cell buf (x + 2) odd fun e => e + 7 * err
      let buf := cell buf (x + 2) (!odd) fun e => e + 1 * err
      let buf := cell buf (x + 1) (!odd) fun e => e + 5 * err
      (val, cell buf x (!odd) fun e => e + 3 * err)

structure gif_screen where
  img : gif_image
  cmap : List Byte
  cmapsz : Int
  maxval : Int
  interlaced : Bool

def dither (E : GifEnv) (s : gif_screen) (col : Byte) (out : gif_pixels) : Option (Bool × gif_pixels) :=
  let y := E.cur_y s.img.wd s.img.ht s.interlaced out.added
  if s.interlaced then some (dither_o out.dec_x y col s.maxval, out)
  else (dither_fs out.dec_x y col out.errbuf s.maxval).map fun p => (p.1, { out with errbuf := p.2 })

def pixel_color (s : gif_screen) (c : Int) : Option Byte :=
  if c < s.cmapsz then if 0 ≤ c then s.cmap[c.toNat]? else none else some 0

def put_pixel (E : GifEnv) (s : gif_screen) (out : gif_pixels) (c : Int) : Option gif_pixels :=
  (pixel_color s c).bind fun color => (dither E s color out).map fun p =>
    let pix := if p.1 then p.2.pixels else p.2.pixels ||| p.2.mask
    let x := short (p.2.dec_x + 1)
    let mask := p.2.mask.ushiftRight 1
    if x ≥ short s.img.wd then
      { p.2 with added := p.2.added ++ [pix], dec_x := 0, pixels := 0, mask := 0x80, emitted := p.2.emitted ++ [c] }
    else if mask = 0 then
      { p.2 with added := p.2.added ++ [pix], dec_x := x, pixels := 0, mask := 0x80, emitted := p.2.emitted ++ [c] }
    else { p.2 with dec_x := x, pixels := pix, mask := mask, emitted := p.2.emitted ++ [c] }

def put_pixels (E : GifEnv) (s : gif_screen) (out : gif_pixels) (dstack : List Byte) : Option gif_pixels :=
  (dstack.map fun c => (c.toNat : Int)).foldlM (put_pixel E s) out

def push (c : Byte) (dstack : List Byte) : Option (List Byte) :=
  if dstack.length < MAX_CODES + 1 then some (c :: dstack) else none

def uchar (c : Int) : Byte := BitVec.ofInt 8 c

def inTable (k : Int) : Prop := 0 ≤ k ∧ k < MAX_CODES + 1

instance inTable.decidable (k : Int) : Decidable (inTable k) := inferInstanceAs (Decidable (_ ∧ _))

def scan (t : gif_table) (s : Int × List Byte) : (Int × List Byte) ⊕ Option (Int × List Byte) :=
  if s.1 ≥ t.newcodes then
    if inTable s.1 then
      match push (t.suffix s.1) s.2 with
      | none => .inr none
      | some dstack => .inl (short (t.prefixes s.1), dstack)
    else .inr none
  else .inr (some s)

def new_slot (c code : Int) (t : gif_table) : Option gif_table :=
  if t.slot < t.top_slot then
    if inTable t.slot then
      some { t with
        dec_fc := code
        suffix := fun k => if k = t.slot then uchar code else t.suffix k
        prefixes := fun k => if k = t.slot then t.dec_oc else t.prefixes k
        slot := t.slot + 1
        dec_oc := c }
    else none
  else some t

def grow (t : gif_table) : gif_table :=
  if t.slot ≥ t.top_slot then
    if t.curr_size < 12 then { t with top_slot := t.top_slot * 2, curr_size := t.curr_size + 1 } else t
  else t

def decode_code (c : Int) (t : gif_table) : Option (List Byte × gif_table) :=
  let start : Option (Int × List Byte) :=
    if c ≥ t.slot then (push (uchar t.dec_fc) []).map fun dstack => (t.dec_oc, dstack) else some (c, [])
  start.bind fun s => (runLoop (scan t) (MAX_CODES + 2) s).join.bind fun p =>
    (push (uchar p.1) p.2).bind fun dstack => (new_slot c p.1 t).map fun t => (dstack, grow t)

/-- What the loop of `decoder` has at hand; the other locals are kept in their fields. -/
structure Reading where
  block : gif_block
  table : gif_table
  out : gif_pixels
  input : List Byte

def codeTurn (E : GifEnv) (s : gif_screen) (d : Reading) : Reading ⊕ Option (Int × Reading) :=
  match get_next_code d.table.curr_size d.block d.input with
  | .bad => .inr none
  | .eof => .inr (some (0, d))
  | .code c block input =>
    let d := { d with block := block, input := input }
    if (c : Int) = d.table.ending then .inr (some (1, { d with table := { d.table with dec_clearing := false } }))
    else if (c : Int) = d.table.clear then
      if d.table.dec_clearing then .inl d
      else .inl { d with table := { d.table with
        curr_size := d.table.dec_size + 1
        slot := d.table.newcodes
        top_slot := 2 ^ (d.table.dec_size + 1)
        dec_clearing := true } }
    else if d.table.dec_clearing then
      let c : Int := if (c : Int) ≥ d.table.slot then 0 else c
      match put_pixel E s d.out c with
      | none => .inr none
      | some out => .inl { d with table := { d.table with dec_oc := c, dec_fc := c, dec_clearing := false }, out := out }
    else
      match (decode_code c d.table).bind fun p => (put_pixels E s d.out p.1).map fun out => (p.2, out) with
      | none => .inr none
      | some (table, out) => .inl { d with table := table, out := out }

def decoder (E : GifEnv) (s : gif_screen) (d : Reading) : Option (Int × Reading) :=
  (runLoop (codeTurn E s) (8 * (d.input.length + d.block.navail_bytes.toNat) + d.block.nbits_left + 1) d).join

end WWindowSystem.Gif
