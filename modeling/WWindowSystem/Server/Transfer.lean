import WWindowSystem.Server.Blocks
import WWindowSystem.Lib.Convert

namespace WWindowSystem

inductive ScreenDriver where
  | monochrome
  | packed_color (planes : Nat) (range : 1 ≤ planes ∧ planes ≤ 8)
  | packed_colormono
  | direct8

def ScreenDriver.type : ScreenDriver → BitmapType
  | .monochrome | .packed_colormono => .packedmono
  | .packed_color _ _ => .packedcolor
  | .direct8 => .direct8

def ScreenDriver.planes : ScreenDriver → Nat
  | .monochrome | .packed_colormono => 1
  | .packed_color planes _ => planes
  | .direct8 => 8

def ScreenDriver.unitsize : ScreenDriver → Int
  | .monochrome => 4
  | .packed_color _ _ | .packed_colormono => 2
  | .direct8 => 1

def ScreenDriver.upl (width : Int) : ScreenDriver → Int
  | .monochrome => short ((width + 31) / 32)
  | .packed_color planes _ => short ((width + 15) / 16 * 16 * planes / 16)
  | .packed_colormono => short ((width + 31) / 32 * 32 / 16)
  | .direct8 => short ((width + 3) / 4 * 4)

structure BlockBitmap where
  width : Int
  height : Int
  unitsize : Int
  upl : Int
  data : Nat → Byte

def BlockBitmap.size (bm : BlockBitmap) : Int := bm.height * bm.unitsize * bm.upl

def ScreenDriver.createbm (D : ScreenDriver) (width height : Int) (mem : Bool) (data : Nat → Byte) :
    BlockBitmap × Bool :=
  let bm : BlockBitmap := { width, height, unitsize := D.unitsize, upl := D.upl width, data }
  (bm, mem && decide (0 ≤ bm.size))

structure Transfer where
  btype : BlockType
  bsize : Int
  bptr : Int
  bbm : BlockBitmap

structure BlockWindow where
  container : Bool
  w : Int
  h : Int

def ScreenDriver.client_getblockreq (D : ScreenDriver) (b : Transfer) (win : Option BlockWindow)
    (x0 y0 width height : Int) (mem : Bool) (pixels : Nat → Byte) : Int × Transfer :=
  if b.btype ≠ .none ∨ width < 0 ∨ height < 0 ∨ x0 < 0 ∨ y0 < 0 then (-1, b)
  else match win with
  | none => (-2, b)
  | some win =>
    if win.container then (-3, b)
    else if x0 + width > win.w ∨ y0 + height > win.h then (-4, b)
    else
      let r := D.createbm width height mem pixels
      let b := { b with bbm := r.1 }
      if !r.2 then (-5, b)
      else (r.1.size, { b with btype := .get, bsize := r.1.size, bptr := 0 })

def ScreenDriver.client_putblockreq (D : ScreenDriver) (b : Transfer) (win : Option BlockWindow)
    (width height : Int) (mem : Bool) (data : Nat → Byte) : Int × Transfer :=
  match win with
  | none => (-1, b)
  | some win =>
    if win.container then (-2, b)
    else if b.btype ≠ .none ∨ width < 1 ∨ height < 1 then (-3, b)
    else
      let r := D.createbm width height mem data
      let b := { b with bbm := r.1 }
      if !r.2 then (-4, { b with btype := .none })
      else (r.1.size, { b with btype := .put, bsize := r.1.size, bptr := 0 })

def Transfer.count (b : Transfer) (space : Int) : Int := if b.bsize > space then space else b.bsize

def Transfer.advance (b : Transfer) (count : Int) : Transfer :=
  { b with
    bptr := b.bptr + count, bsize := b.bsize - count
    btype := if b.bsize - count < 1 then .none else b.btype }

def Transfer.client_getblockdata (b : Transfer) (space : Int) : List Byte × Transfer :=
  if b.btype ≠ .get then ([], b)
  else
    let count := b.count space
    ((List.range count.toNat).map fun i : Nat => b.bbm.data (b.bptr + i).toNat, b.advance count)

structure Drawing where
  sent : Int
  data : Nat → Byte

def Transfer.client_putblockdata (b : Transfer) (rawdata : List Byte) : Option Drawing × Transfer :=
  if b.btype ≠ .put then (none, b)
  else
    let count := b.count rawdata.length
    let data : Nat → Byte := fun i =>
      if b.bptr ≤ i ∧ i < b.bptr + count then rawdata.getD (i - b.bptr).toNat 0 else b.bbm.data i
    let b := { b with bbm := { b.bbm with data } }
    (if b.bsize - count < 1 then some ⟨b.bptr + count, data⟩ else none, b.advance count)

def Block.Agrees (b : Block) (t : Transfer) : Prop :=
  t.btype = b.btype ∧ (b.btype ≠ .none → t.bsize = b.bsize ∧ t.bptr = b.bptr)

def Server.blockWindow (s : Server) (handle : Nat) : Option BlockWindow :=
  (s.windowLookup handle).map fun f => ⟨f.win.flags.has W_CONTAINER, f.win.area.work.w, f.win.area.work.h⟩

theorem createbm_direct8 (width height : Int) (mem : Bool) (data : Nat → Byte) :
    (ScreenDriver.direct8.createbm width height mem data).1.size = (createbm width height mem).1.size ∧
      (ScreenDriver.direct8.createbm width height mem data).2 = (createbm width height mem).2 := by
  unfold createbm ScreenDriver.createbm
  dsimp only
  split_ifs with hm
  · exact ⟨rfl, hm⟩
  · exact ⟨rfl, Bool.eq_false_iff.mpr hm⟩

variable {t : Transfer} {b : Block}

theorem client_getblockreq_direct8 {s : Server} (h : b.Agrees t) (handle : Nat)
    (x0 y0 width height : Int) (mem : Bool) (pixels : Nat → Byte) :
    (ScreenDriver.direct8.client_getblockreq t (s.blockWindow handle) x0 y0 width height mem pixels).1 =
      (client_getblockreq s b handle x0 y0 width height mem).1 ∧
    (client_getblockreq s b handle x0 y0 width height mem).2.Agrees
      (ScreenDriver.direct8.client_getblockreq t (s.blockWindow handle) x0 y0 width height mem pixels).2 := by
  obtain ⟨hsize, hok⟩ := createbm_direct8 width height mem pixels
  unfold client_getblockreq ScreenDriver.client_getblockreq Server.blockWindow
  rw [h.1]
  split_ifs with hbad
  · exact ⟨rfl, h⟩
  · cases s.windowLookup handle with
    | none => exact ⟨rfl, h⟩
    | some f =>
      dsimp only [Option.map_some]
      rw [hok, hsize]
      split_ifs
      · exact ⟨rfl, h⟩
      · exact ⟨rfl, h⟩
      · exact ⟨rfl, rfl, h.2⟩
      · exact ⟨rfl, rfl, fun _ => ⟨rfl, rfl⟩⟩

theorem client_putblockreq_direct8 {s : Server} (h : b.Agrees t) (handle : Nat)
    (width height x0 y0 : Int) (mem : Bool) (data : Nat → Byte) :
    (ScreenDriver.direct8.client_putblockreq t (s.blockWindow handle) width height mem data).1 =
      (client_putblockreq s b width height handle x0 y0 mem).1 ∧
    (client_putblockreq s b width height handle x0 y0 mem).2.Agrees
      (ScreenDriver.direct8.client_putblockreq t (s.blockWindow handle) width height mem data).2 := by
  obtain ⟨hsize, hok⟩ := createbm_direct8 width height mem data
  unfold client_putblockreq ScreenDriver.client_putblockreq Server.blockWindow
  cases s.windowLookup handle with
  | none => exact ⟨rfl, h⟩
  | some f =>
    dsimp only [Option.map_some]
    rw [hok, hsize, h.1]
    split_ifs
    · exact ⟨rfl, h⟩
    · exact ⟨rfl, h⟩
    · exact ⟨rfl, rfl, fun hne => absurd rfl hne⟩
    · exact ⟨rfl, rfl, fun _ => ⟨rfl, rfl⟩⟩

theorem Block.Agrees.advance (h : b.Agrees t) (hb : b.btype ≠ .none) (count : Int) :
    (if b.bsize - count < 1 then (b.advance count).finished else b.advance count).Agrees (t.advance count) := by
  obtain ⟨hsize, hptr⟩ := h.2 hb
  unfold Transfer.advance Block.advance Block.finished
  dsimp only
  rw [hsize, hptr, h.1]
  split_ifs
  · exact ⟨rfl, fun hne => absurd rfl hne⟩
  · exact ⟨rfl, fun _ => ⟨rfl, rfl⟩⟩

theorem client_getblockdata_direct8 (h : b.Agrees t) {space : Int} (hs : 0 ≤ space)
    (hb : b.btype = .get → 0 ≤ b.bsize) :
    ((t.client_getblockdata space).1.length : Int) = (client_getblockdata b space).1 ∧
      (client_getblockdata b space).2.Agrees (t.client_getblockdata space).2 := by
  unfold Transfer.client_getblockdata client_getblockdata
  rw [h.1]
  by_cases hget : b.btype = .get
  · have hne : b.btype ≠ .none := by
      rw [hget]
      decide
    have hcount : t.count space = b.count space := by
      unfold Transfer.count Block.count
      rw [(h.2 hne).1]
    have hpos : 0 ≤ b.count space := by
      have := hb hget
      unfold Block.count
      split_ifs <;> omega
    rw [if_neg (not_not_intro hget), if_neg (not_not_intro hget), hcount]
    dsimp only
    refine ⟨?_, h.advance hne (b.count space)⟩
    rw [List.length_map, List.length_range]
    omega
  · rw [if_pos hget, if_pos hget]
    exact ⟨rfl, h⟩

theorem client_putblockdata_direct8 (s : Server) (h : b.Agrees t)
    (rawdata : Nat → Nat) (l : List Byte) :
    (client_putblockdata s b rawdata l.length).2.Agrees (t.client_putblockdata l).2 := by
  unfold Transfer.client_putblockdata client_putblockdata
  rw [h.1]
  by_cases hput : b.btype = .put
  · have hne : b.btype ≠ .none := by
      rw [hput]
      decide
    have hcount : t.count l.length = b.count l.length := by
      unfold Transfer.count Block.count
      rw [(h.2 hne).1]
    rw [if_neg (not_not_intro hput), if_neg (not_not_intro hput), hcount]
    have hb := h.2 hne
    have hnext : ∀ data next, Block.Agrees { b with bbm := { b.bbm with data := data } }
        { t with bbm := { t.bbm with data := next } } := fun _ _ => ⟨h.1, fun _ => hb⟩
    have hadv := fun data next => (hnext data next).advance hne (b.count l.length)
    simp only [h.1, apply_ite Prod.snd] at hadv ⊢
    exact hadv _ _
  · rw [if_pos hput, if_pos hput]
    exact h

end WWindowSystem
