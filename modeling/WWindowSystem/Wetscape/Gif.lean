import WWindowSystem.Wetscape.GifLzw

namespace WWindowSystem.Gif

abbrev gif_io := io_t gif_info_t Unit

def col2grey (red green blue : Byte) : Byte :=
  BitVec.ofNat 8 ((307 * red.toNat + 599 * green.toNat + 118 * blue.toNat) >>> 10)

def greys : Nat → List Byte → List Byte
  | 0, _ => []
  | n + 1, cp => col2grey (cp.getD 0 0) (cp.getD 1 0) (cp.getD 2 0) :: greys n (cp.drop 3)

def getcmap (cp : List Byte) (gif : gif_info_t) : gif_info_t :=
  let cmap := greys gif.cmapsz.toNat cp
  { gif with cmap := some cmap, maxval := cmap.foldl (fun val c => max val (c.toNat : Int)) 0 }

def getimage (E : GifEnv) (wd ht : Int) (gif : gif_info_t) : Option gif_info_t :=
  if wd ≤ 0 ∨ ht ≤ 0 then none
  else if E.getwin wd ht gif.interlaced then
    some { gif with
      img := some ⟨wd, ht⟩
      out := { gif.out with errbuf := if gif.interlaced then gif.out.errbuf else List.replicate (wd + 4).toNat (0, 0) } }
  else none

/-- One turn of the loop of `gif_decoder_decode`: it goes on, or ends with a value of `end`, or leaves its arrays. -/
inductive Turn
  | next (gif : gif_info_t) (input : List Byte)
  | stop (gif : gif_info_t) (input : List Byte) (result : Int)
  | bad

def failed (gif : gif_info_t) (input : List Byte) : Turn := .stop { gif with state := .InError } input (-1)

def isalpha (c : Byte) : Bool := (65 ≤ c.toNat ∧ c.toNat ≤ 90) ∨ (97 ≤ c.toNat ∧ c.toNat ≤ 122)

def colors (flags : Byte) : Int := 2 ^ (flags.toNat % 8 + 1)

def header_turn (gif : gif_info_t) (cp : List Byte) : Turn :=
  if cp.length < 13 then .stop gif cp 1
  else if cp.take 3 ≠ cstring "GIF" ∨ isdigit (cp.getD 3 0) = false ∨ isdigit (cp.getD 4 0) = false ∨
      isalpha (cp.getD 5 0) = false then failed gif cp
  else
    let flags := cp.getD 10 0
    if flags.toNat ≥ 0x80 then .next { gif with cmapsz := colors flags, state := .InCmap } (cp.drop 13)
    else .next { gif with state := .InSelect } (cp.drop 13)

def cmap_turn (gif : gif_info_t) (cp : List Byte) : Turn :=
  if (cp.length : Int) < 3 * gif.cmapsz then .stop gif cp 1
  else .next { getcmap cp gif with state := .InSelect } (cp.drop (3 * gif.cmapsz).toNat)

def select_turn (gif : gif_info_t) (cp : List Byte) : Turn :=
  match cp with
  | [] => .stop gif cp 1
  | c :: later =>
    if c = 59 then failed gif cp
    else if c = 33 then
      match later with
      | [] => .stop gif cp 1
      | _ :: later => .next { gif with state := .InExt } later
    else if c = 44 then .next { gif with state := .InImageDesc } later
    else failed gif cp

def ext_turn (gif : gif_info_t) (cp : List Byte) : Turn :=
  match cp with
  | [] => .stop gif cp 1
  | i :: later =>
    if i = 0 then .next { gif with state := .InSelect } later
    else if cp.length < i.toNat + 1 then .stop gif cp 1
    else .next gif (cp.drop (i.toNat + 1))

def start_image (E : GifEnv) (wd ht : Int) (gif : gif_info_t) (input : List Byte) : Turn :=
  match gif.cmap with
  | none => failed gif input
  | some _ =>
    match getimage E wd ht gif with
    | none => failed gif input
    | some gif =>
      match input with
      | [] => .bad
      | size :: later =>
        match decoder_init E size gif with
        | none => failed gif later
        | some gif => .next { gif with state := .InImage } later

def desc_turn (E : GifEnv) (gif : gif_info_t) (cp : List Byte) : Turn :=
  if cp.length < 9 + 1 then .stop gif cp 1
  else
    let flags := cp.getD 8 0
    let gif := { gif with interlaced := flags.getLsbD 6 }
    let wd : Int := (cp.getD 4 0).toNat + 256 * (cp.getD 5 0).toNat
    let ht : Int := (cp.getD 6 0).toNat + 256 * (cp.getD 7 0).toNat
    if flags.toNat ≥ 0x80 then
      let gif := { gif with cmapsz := colors flags }
      if (cp.length : Int) < 9 + 3 * gif.cmapsz + 1 then .stop gif cp 1
      else start_image E wd ht (getcmap (cp.drop 9) gif) (cp.drop (9 + 3 * gif.cmapsz).toNat)
    else start_image E wd ht gif (cp.drop 9)

def gif_info_t.screen (gif : gif_info_t) (img : gif_image) (cmap : List Byte) : gif_screen :=
  { img := img, cmap := cmap, cmapsz := gif.cmapsz, maxval := gif.maxval, interlaced := gif.interlaced }

def image_turn (E : GifEnv) (gif : gif_info_t) (input : List Byte) : Turn :=
  match gif.img, gif.cmap with
  | some img, some cmap =>
    match decoder E (gif.screen img cmap) ⟨gif.block, gif.table, gif.out, input⟩ with
    | none => .bad
    | some (i, d) =>
      let gif := { gif with block := d.block, table := d.table, out := d.out }
      if i ≠ 0 then .stop { gif with state := .Skip } d.input i else .stop gif d.input 1
  | _, _ => .bad

def gifTurn (E : GifEnv) (gif : gif_info_t) (cp : List Byte) : Turn :=
  match gif.state with
  | .InHeader => header_turn gif cp
  | .InCmap => cmap_turn gif cp
  | .InSelect => select_turn gif cp
  | .InExt => ext_turn gif cp
  | .InImageDesc => desc_turn E gif cp
  | .InImage => image_turn E gif cp
  | .Skip => .stop gif [] 1
  | .InError => .stop gif [] (-1)

def gifLoop (E : GifEnv) (s : gif_info_t × List Byte) : (gif_info_t × List Byte) ⊕ Option (gif_info_t × List Byte × Int) :=
  match gifTurn E s.1 s.2 with
  | .next gif input => .inl (gif, input)
  | .stop gif input result => .inr (some (gif, input, result))
  | .bad => .inr none

def gif_decoder_decode (E : GifEnv) (iop : gif_io) : Option (Int × gif_io) :=
  (runLoop (gifLoop E) (iop.ibuf.length + 1) (iop.ihook, iop.ibuf)).join.map fun p =>
    (if p.2.2 > 0 then 0 else -1, { io_eat_input iop (iop.ibuf.length - p.2.1.length) with iptr := 0, ihook := p.1 })

def gif_start : gif_io := io_alloc_ibuf 8000 gif_info_alloc ()

def gif_deliver (E : GifEnv) (iop : gif_io) : List (List Byte) → Option gif_io
  | [] => some iop
  | x :: reads => (gif_decoder_decode E (iop.read x false)).bind fun p => if p.1 < 0 then some p.2 else gif_deliver E p.2 reads

end WWindowSystem.Gif
