import WWindowSystem.Library.Words
import WWindowSystem.Server.Color

namespace WWindowSystem

inductive BitmapType where
  | packedcolormono | packedmono | direct8 | packedcolor | direct24
  deriving DecidableEq

structure Rgb where
  red : Byte
  green : Byte
  blue : Byte

/-- A bitmap of the library, without the data. The fields after `type` come from `w_bmheader`. -/
structure BITMAP where
  width : Nat
  height : Nat
  type : BitmapType
  unitsize : Int := 0
  upl : Int := 0
  planes : Nat := 0
  colors : Int := 0
  palette : Option (Byte → Rgb) := none

def M_UNIT : Int := 4

def w_bmheader (planes : Nat) (bm : BITMAP) : Option BITMAP :=
  let some_colors (colors : Int) := if bm.colors < 2 ∨ bm.colors > colors then 2 else bm.colors
  match bm.type with
  | .packedmono => some { bm with
      upl := short ((bm.width + 31) / 32), unitsize := M_UNIT, planes := 1, colors := 2
      palette := none }
  | .packedcolor => some { bm with
      planes, upl := short ((bm.width + 15) / 16 * 16 * planes / 16)
      colors := some_colors (2 ^ planes), unitsize := 2, palette := none }
  | .direct8 => some { bm with
      upl := short ((bm.width + 3) / 4 * 4), unitsize := 1, planes := 8, colors := some_colors 256
      palette := none }
  | .direct24 => some { bm with
      upl := short bm.width, unitsize := 3, planes := 24
      colors := if bm.colors < 2 then 2 else bm.colors, palette := none }
  | .packedcolormono => none

def BITMAP.linesize (bm : BITMAP) : Int := bm.unitsize * bm.upl

/-- A line converter reads from the memory at `line`, which ends somewhere, and returns what it
stores from `dst->data` on, where `none` is a byte that it leaves alone, and the distance of the
pointer that it returns. It is `none` when it reads behind the end of the memory. -/
abbrev Converter := BITMAP → BITMAP → List Byte → Option (List (Option Byte) × Int)

def getByte : List Byte → Option (Byte × List Byte)
  | [] => none
  | b :: s => some (b, s)

structure Dither where
  Graymap : Byte → Byte
  matrix : Nat → Byte

def ditherShort (D : Dither) (gray : List Byte → Option (Byte × List Byte)) :
    Nat → Nat → BitVec 16 → BitVec 16 → List Byte → Option (BitVec 16 × List Byte)
  | 0, _, _, result, s => some (result, s)
  | n + 1, mat, bit, result, s => do
    let (v, s) ← gray s
    let result := if D.Graymap v < D.matrix mat then result ||| bit else result
    ditherShort D gray n (mat + 1) (bit >>> 1) result s

def ditherShorts (big : Bool) (D : Dither) (gray : List Byte → Option (Byte × List Byte))
    (lastbits : Nat) : Nat → List Byte → Option (List Byte)
  | 0, s => do
    let (result, _) ← ditherShort D gray lastbits 0 0x8000 0 s
    some (storeShort big (ntohs big result))
  | n + 1, s => do
    let (result, s) ← ditherShort D gray 16 0 0x8000 0 s
    let rest ← ditherShorts big D gray lastbits n s
    some (storeShort big (ntohs big result) ++ rest)

def grayTruecolor (s : List Byte) : Option (Byte × List Byte) := do
  let (r, s) ← getByte s
  let (g, s) ← getByte s
  let (b, s) ← getByte s
  let value := r.toNat * 307 + g.toNat * 599 + b.toNat * 118
  some (BitVec.ofNat 8 (value / 1024), s)

def odither (big : Bool) (D : Dither) (gray : List Byte → Option (Byte × List Byte)) : Converter :=
  fun src _ line => do
    let mono ← ditherShorts big D gray (src.width % 16) (src.width / 16) line
    some (mono.map some, src.upl * src.unitsize)

def odither_direct (big : Bool) (D : Dither) : Converter := odither big D getByte

def odither_truecolor (big : Bool) (D : Dither) : Converter := odither big D grayTruecolor

def orPlanes (big : Bool) : Nat → BitVec 16 → List Byte → Option (BitVec 16 × List Byte)
  | 0, d, s => some (d, s)
  | plane + 1, d, s => do
    let (x, s) ← loadShort big s
    orPlanes big plane (d ||| x) s

def packed2monoLine (big : Bool) (planes : Nat) : Nat → List Byte → Option (List Byte × List Byte)
  | 0, s => some ([], s)
  | count + 1, s => do
    let (d, s) ← loadShort big s
    let (d, s) ← orPlanes big (planes - 1) d s
    let (rest, s) ← packed2monoLine big planes count s
    some (storeShort big d ++ rest, s)

def packed2monoLines (big : Bool) (planes shorts skip : Nat) :
    Nat → List Byte → Option (List (Option Byte))
  | 0, _ => some []
  | height + 1, s => do
    let (d, s) ← packed2monoLine big planes shorts s
    let rest ← packed2monoLines big planes shorts skip height s
    some (d.map some ++ List.replicate (2 * skip) none ++ rest)

def packed2mono (big : Bool) : Converter := fun src _ line => do
  let shorts := src.upl / src.planes
  let skip := ((src.width : Int) + (M_UNIT * 8 - 1)) / 16 - shorts
  let d ← packed2monoLines big src.planes shorts.toNat skip.toNat src.height line
  some (d, src.unitsize * src.upl)

def addPixel (masks : List (Byte × Byte)) (dbitlo dbithi : BitVec 32) (sval : Byte)
    (d : List (BitVec 32)) : List (BitVec 32) :=
  List.zipWith (fun m d =>
    let d := if sval &&& m.1 ≠ 0 then d ||| dbitlo else d
    if sval &&& m.2 ≠ 0 then d ||| dbithi else d) masks d

def flushPlanes (big : Bool) (d : List (BitVec 32)) : List Byte :=
  d.flatMap fun x => storeLong big (ntohl big x)

def directpackedLoop (big : Bool) (masks : List (Byte × Byte)) :
    Nat → BitVec 32 → BitVec 32 → List (BitVec 32) → List Byte → Option (List Byte)
  | 0, _, dbithi, d, _ => some (if dbithi ≠ 0x8000 then flushPlanes big d else [])
  | count + 1, dbitlo, dbithi, d, s => do
    let (sval, s) ← getByte s
    let d := addPixel masks dbitlo dbithi sval d
    let dbitlo := dbitlo >>> 1
    let dbithi := dbithi >>> 1
    if dbithi = 0 then
      let rest ← directpackedLoop big masks count 0x80000000 0x8000 (masks.map fun _ => 0) s
      some (flushPlanes big d ++ rest)
    else directpackedLoop big masks count dbitlo dbithi d s

/-- The loop of `directNpacked`. The masks are those of the first and the second plane in each
word of the destination. -/
def directpacked (big : Bool) (masks : List (Byte × Byte)) : Converter := fun src dst line => do
  let d ← directpackedLoop big masks dst.width 0x80000000 0x8000 (masks.map fun _ => 0) line
  some (d.map some, src.unitsize * src.upl)

def direct8packed (big : Bool) : Converter :=
  directpacked big [(0x01, 0x02), (0x04, 0x08), (0x10, 0x20), (0x40, 0x80)]

def direct4packed (big : Bool) : Converter := directpacked big [(0x01, 0x02), (0x04, 0x08)]

def direct2packed (big : Bool) : Converter := directpacked big [(0x01, 0x02)]

def fetchPlanes (big : Bool) : Nat → List Byte → Option (List (BitVec 32) × List Byte)
  | 0, s => some ([], s)
  | n + 1, s => do
    let (x, s) ← loadLong big s
    let (d, s) ← fetchPlanes big n s
    some (ntohl big x :: d, s)

def pixelOf (masks : List (Byte × Byte)) (himask lomask : BitVec 32) (d : List (BitVec 32)) : Byte :=
  (List.zipWith (fun (m : Byte × Byte) (d : BitVec 32) =>
    (if d &&& himask ≠ 0 then m.1 else 0) ||| (if d &&& lomask ≠ 0 then m.2 else 0)) masks d).foldr
      (· ||| ·) 0

def packeddirectLoop (big : Bool) (masks : List (Byte × Byte)) :
    Nat → BitVec 32 → BitVec 32 → List (BitVec 32) → List Byte → Option (List Byte)
  | 0, _, _, _, _ => some []
  | count + 1, himask, lomask, d, s => do
    let (d, himask, lomask, s) ←
      if lomask = 0 then
        (fetchPlanes big masks.length s).map fun r => (r.1, (0x80000000#32), (0x8000#32), r.2)
      else some (d, himask, lomask, s)
    let rest ← packeddirectLoop big masks count (himask >>> 1) (lomask >>> 1) d s
    some (pixelOf masks himask lomask d :: rest)

/-- The loop of `packedNdirect`. The masks are the bits of a pixel that the first and the second
plane in each word of the source stand for. -/
def packeddirect (big : Bool) (masks : List (Byte × Byte)) : Converter := fun src dst line => do
  let d ← packeddirectLoop big masks dst.width 0 0 (masks.map fun _ => 0) line
  some (d.map some, src.unitsize * src.upl)

def packed8direct (big : Bool) : Converter :=
  packeddirect big [(0x80, 0x40), (0x20, 0x10), (0x08, 0x04), (0x02, 0x01)]

def packed4direct (big : Bool) : Converter := packeddirect big [(0x08, 0x04), (0x02, 0x01)]

def packed2direct (big : Bool) : Converter := packeddirect big [(0x02, 0x01)]

def mono2packedLoop (big : Bool) (planes : Nat) : Nat → List Byte → Option (List Byte)
  | 0, _ => some []
  | count + 1, s => do
    let (x, s) ← loadShort big s
    let rest ← mono2packedLoop big planes count s
    some (storeShort big x ++ (List.replicate (planes - 1) (storeShort big 0)).flatten ++ rest)

def mono2packed (big : Bool) : Converter := fun src dst line => do
  let d ← mono2packedLoop big dst.planes ((dst.width + 15) / 16) line
  some (d.map some, src.unitsize * src.upl)

def monoLoop (pixel : Bool → List Byte) : Nat → Byte → Byte → List Byte → Option (List Byte)
  | 0, _, _, _ => some []
  | count + 1, d0, mask, s => do
    let (d0, mask, s) ← if mask = 0 then (getByte s).map fun r => (r.1, 0x80, r.2)
      else some (d0, mask, s)
    let rest ← monoLoop pixel count d0 (mask >>> 1) s
    some (pixel (decide (d0 &&& mask ≠ 0)) ++ rest)

def mono2 (pixel : Bool → List Byte) : Converter := fun src dst line => do
  let (d0, s) ← getByte line
  let d ← monoLoop pixel dst.width d0 0x80 s
  some (d.map some, src.unitsize * src.upl)

def mono2direct : Converter := mono2 fun bit => [BitVec.ofNat 8 (if bit then FGCOL_INDEX else BGCOL_INDEX)]

def mono2truecolor : Converter :=
  mono2 fun bit => if bit then [0xff, 0xff, 0xff] else [0x00, 0x00, 0x00]

def direct2truecolorLoop (color : Byte → Rgb) : Nat → List Byte → Option (List Byte)
  | 0, _ => some []
  | count + 1, s => do
    let (v, s) ← getByte s
    let rest ← direct2truecolorLoop color count s
    some ((color v).red :: (color v).green :: (color v).blue :: rest)

/-- `none` also without a palette, which the source needs as soon as there is a pixel. -/
def direct2truecolor : Converter := fun src dst line => do
  let color ← src.palette
  let d ← direct2truecolorLoop color dst.width line
  some (d.map some, src.unitsize * src.upl)

def copy_bm : Converter := fun src _ line =>
  let count := src.unitsize * src.upl
  if count < 0 ∨ line.length < count then none
  else some ((line.take count.toNat).map some, count)

def w_convertFunction (big : Bool) (D : Dither) (src dst : BITMAP) : Option Converter :=
  match dst.type, src.type with
  | .packedmono, .packedmono => some copy_bm
  | .packedmono, .direct8 => some (odither_direct big D)
  | .packedmono, .direct24 => some (odither_truecolor big D)
  | .packedmono, .packedcolor => some (packed2mono big)
  | .packedcolor, .packedmono => some (mono2packed big)
  | .packedcolor, .packedcolor => if src.planes = dst.planes then some copy_bm else none
  | .packedcolor, .direct8 =>
    if dst.planes = 2 then some (direct2packed big)
    else if dst.planes = 4 then some (direct4packed big)
    else if dst.planes = 8 then some (direct8packed big)
    else none
  | .direct8, .packedmono => some mono2direct
  | .direct8, .packedcolor =>
    if src.planes = 2 then some (packed2direct big)
    else if src.planes = 4 then some (packed4direct big)
    else if src.planes = 8 then some (packed8direct big)
    else none
  | .direct8, .direct8 => some copy_bm
  | .direct24, .packedmono => some mono2truecolor
  | .direct24, .direct8 => some direct2truecolor
  | .direct24, .direct24 => some copy_bm
  | _, _ => none

end WWindowSystem
