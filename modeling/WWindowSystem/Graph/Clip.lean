import Mathlib.Algebra.Order.Ring.Int
import WWindowSystem.Server.Rect

namespace WWindowSystem.Graph

def ulong (z : Int) : Int := z % 2 ^ 64

def longs (l : List Int) : Option Unit := if ∀ z ∈ l, -2 ^ 63 ≤ z ∧ z < 2 ^ 63 then some () else none

theorem longs_eq {l : List Int} (h : ∀ z ∈ l, -2 ^ 63 ≤ z ∧ z < 2 ^ 63) : longs l = some () := if_pos h

def BOX_NEEDS_CLIPPING (x y wd ht : Int) : Option Rec → Bool
  | none => false
  | some cl => decide (ulong (x - cl.x0) ≥ ulong cl.w ∨ ulong (x + wd - 1 - cl.x0) ≥ ulong cl.w ∨
      ulong (y - cl.y0) ≥ ulong cl.h ∨ ulong (y + ht - 1 - cl.y0) ≥ ulong cl.h)

def boxValues (x y wd ht : Int) : Option Rec → List Int
  | none => []
  | some cl => [x - cl.x0, x + wd, x + wd - 1, x + wd - 1 - cl.x0, y - cl.y0, y + ht, y + ht - 1, y + ht - 1 - cl.y0]

def CLIP_POINT (x y : Int) : Option Rec → Bool
  | none => false
  | some cl => decide (ulong (x - cl.x0) ≥ ulong cl.w ∨ ulong (y - cl.y0) ≥ ulong cl.h)

def CLIP_HLINE (xa ya xe : Int) : Option Rec → Option (Int × Int)
  | none => some (xa, xe)
  | some cl =>
    if ulong (ya - cl.y0) ≥ ulong cl.h then none
    else if xa ≥ cl.x0 ∧ xe ≤ cl.x1 then some (xa, xe)
    else if max xa cl.x0 > min xe cl.x1 then none
    else some (max xa cl.x0, min xe cl.x1)

def CLIP_VLINE (xa ya ye : Int) : Option Rec → Option (Int × Int)
  | none => some (ya, ye)
  | some cl =>
    if ulong (xa - cl.x0) ≥ ulong cl.w then none
    else if ya ≥ cl.y0 ∧ ye ≤ cl.y1 then some (ya, ye)
    else if max ya cl.y0 > min ye cl.y1 then none
    else some (max ya cl.y0, min ye cl.y1)

structure Box where
  x : Int
  y : Int
  w : Int
  h : Int
  deriving DecidableEq

def CLIP_BOX (b : Box) : Option Rec → Option Box
  | none => some b
  | some cl =>
    let x1 := max b.x cl.x0
    let x2 := min (b.x + b.w) (cl.x1 + 1)
    let y1 := max b.y cl.y0
    let y2 := min (b.y + b.h) (cl.y1 + 1)
    if x1 < x2 ∧ y1 < y2 then some ⟨x1, y1, x2 - x1, y2 - y1⟩ else none

structure Blit where
  xs : Int
  ys : Int
  w : Int
  h : Int
  xd : Int
  yd : Int
  deriving DecidableEq

def CLIP_BITBLIT (b : Blit) (cls cld : Option Rec) : Option Blit :=
  if cls.isNone || cld.isNone then some b
  else do
    let s ← CLIP_BOX ⟨b.xs, b.ys, b.w, b.h⟩ cls
    let xd := b.xd + (s.x - b.xs)
    let yd := b.yd + (s.y - b.ys)
    let d ← CLIP_BOX ⟨xd, yd, s.w, s.h⟩ cld
    return ⟨s.x + (d.x - xd), s.y + (d.y - yd), d.w, d.h, d.x, d.y⟩

inductive Stroke where
  | plot (x0 y0 : Int)
  | hline (x0 y0 xe : Int)
  | vline (x0 y0 ye : Int)
  deriving DecidableEq

structure Canvas where
  glob_clip0 : Option Rec
  calls : List (Option Rec × Stroke) := []

def Canvas.draw (s : Canvas) (c : Stroke) : Canvas := { s with calls := s.calls ++ [(s.glob_clip0, c)] }

def Stroke.passes (p : Point) : Stroke → Bool
  | .plot x0 y0 => p = (x0, y0)
  | .hline x0 y0 xe => p.2 = y0 ∧ min x0 xe ≤ p.1 ∧ p.1 ≤ max x0 xe
  | .vline x0 y0 ye => p.1 = x0 ∧ min y0 ye ≤ p.2 ∧ p.2 ≤ max y0 ye

def Canvas.hits (s : Canvas) (p : Point) : Nat := s.calls.countP fun c => c.2.passes p

@[simp] theorem Canvas.hits_draw (s : Canvas) (c : Stroke) (p : Point) :
    (s.draw c).hits p = s.hits p + if c.passes p then 1 else 0 := by
  unfold Canvas.hits Canvas.draw
  rw [List.countP_append, List.countP_singleton]

@[simp] theorem Canvas.hits_clip (s : Canvas) (cl : Option Rec) (p : Point) :
    Canvas.hits { s with glob_clip0 := cl } p = s.hits p := rfl

end WWindowSystem.Graph
