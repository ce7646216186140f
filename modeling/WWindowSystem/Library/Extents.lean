import Mathlib.Algebra.Order.Group.Unbundled.Abs
import Mathlib.Algebra.Order.Ring.Int
import Mathlib.Data.List.Nodup
import Mathlib.Logic.Function.Basic
import Mathlib.Tactic.Linarith
import WWindowSystem.Library.Loops

namespace WWindowSystem

open List

def Spread (inside : Int → Int → Prop) : Prop :=
  ∀ u v u' v', |u'| ≤ |u| → |v'| ≤ |v| → inside u v → inside u' v'

structure Extent (inside : Int → Int → Prop) (dx dy : Int) : Prop where
  nonneg : 0 ≤ dx
  last : inside dx dy
  next : ¬ inside (dx + 1) dy

variable {inside : Int → Int → Prop} {dx dy u v : Int}

theorem Extent.iff (hs : Spread inside) (h : Extent inside dx dy) (hv : |v| = |dy|) : inside u v ↔ |u| ≤ dx := by
  have hdx : |dx| = dx := abs_of_nonneg h.nonneg
  constructor
  · intro hu
    by_contra hlt
    have hnext : |dx + 1| = dx + 1 := abs_of_nonneg (by have := h.nonneg; omega)
    exact h.next (hs u v (dx + 1) dy (by omega) hv.ge hu)
  · intro hu
    exact hs dx dy u v (by omega) hv.le h.last

theorem Extent.outside (hs : Spread inside) (h : Extent inside dx dy) (hu : dx < |u|) (hv : |dy| ≤ |v|) :
    ¬ inside u v := by
  intro hin
  have hrow := hs u v u dy le_rfl hv hin
  rw [h.iff hs rfl] at hrow
  omega

def shrinkTurn (out : Int → Option Bool) (dx : Int) : Int ⊕ Option Int :=
  match out dx with
  | none => .inr none
  | some true => .inl (dx - 1)
  | some false => .inr (some dx)

theorem shrink_extent {out : Int → Option Bool} {e : Int} {n : Nat} (hs : Spread inside)
    (hout : ∀ d, 0 ≤ d → d ≤ dx → ∃ b, out d = some b ∧ (b = true ↔ ¬ inside d e))
    (hdx : 0 ≤ dx) (hnext : ¬ inside (dx + 1) e) (hzero : inside 0 e) (hn : dx.toNat < n) :
    ∃ d, runLoop (shrinkTurn out) n dx = some (some d) ∧ Extent inside d e ∧ d ≤ dx := by
  have hloop : ∃ r, runLoop (shrinkTurn out) n dx = some r ∧ ∃ d, r = some d ∧ Extent inside d e ∧ d ≤ dx :=
    runLoop_spec (fun d : Int => 0 ≤ d ∧ d ≤ dx ∧ ¬ inside (d + 1) e) Int.toNat _ ?_ ?_ ⟨hdx, le_rfl, hnext⟩ hn
  · obtain ⟨_, hr, d, rfl, hd⟩ := hloop
    exact ⟨d, hr, hd⟩
  · rintro d d' ⟨h0, hle, hmore⟩ hd
    obtain ⟨b, hb, hiff⟩ := hout d h0 hle
    rw [shrinkTurn, hb] at hd
    cases b with
    | false => cases hd
    | true =>
      obtain rfl := Sum.inl.inj hd
      have hd : ¬ inside d e := hiff.mp rfl
      have hpos : d ≠ 0 := fun h => hd (h ▸ hzero)
      refine ⟨⟨by omega, by omega, ?_⟩, by omega⟩
      rwa [sub_add_cancel]
  · rintro d r ⟨h0, hle, hmore⟩ hr
    obtain ⟨b, hb, hiff⟩ := hout d h0 hle
    rw [shrinkTurn, hb] at hr
    cases b with
    | true => cases hr
    | false =>
      obtain rfl := Sum.inr.inj hr
      exact ⟨d, rfl, ⟨h0, not_not.mp fun h => Bool.false_ne_true (hiff.mpr h), hmore⟩, hle⟩

theorem quotient_step {a n d : Int} (hd : 0 < d) (hn : 0 ≤ n) (hnd : n ≤ d) :
    ((a + n) / d = if d ≤ a % d + n then a / d + 1 else a / d) ∧
      (a + n) % d = if d ≤ a % d + n then a % d + n - d else a % d + n := by
  have hm := Int.emod_nonneg a hd.ne'
  have hlt := Int.emod_lt_of_pos a hd
  have ha := Int.mul_ediv_add_emod a d
  split_ifs with hc
  · rw [Int.ediv_emod_unique hd]
    exact ⟨by linarith [mul_add d (a / d) 1], by omega, by omega⟩
  · rw [Int.ediv_emod_unique hd]
    exact ⟨by linarith, by omega, by omega⟩

section Cells

variable {ι α β : Type} [DecidableEq ι] {addr : β → ι} {f g : β → α → α}

def changes (addr : β → ι) (f : β → α → α) (l : List β) (m : ι → α) : ι → α :=
  l.foldl (fun m b => Function.update m (addr b) (f b (m (addr b)))) m

variable {m : ι → α} {l : List β}

theorem changes_other {a : ι} (ha : a ∉ l.map addr) : changes addr f l m a = m a := by
  induction l generalizing m with
  | nil => rfl
  | cons b l ih =>
    rw [map_cons, mem_cons, not_or] at ha
    rw [changes, foldl_cons]
    change changes addr f l _ a = _
    rw [ih ha.2, Function.update_of_ne ha.1]

theorem changes_cell (hl : (l.map addr).Nodup) {b : β} (hb : b ∈ l) :
    changes addr f l m (addr b) = f b (m (addr b)) := by
  induction l generalizing m with
  | nil => cases hb
  | cons c l ih =>
    rw [map_cons, nodup_cons] at hl
    rw [changes, foldl_cons]
    change changes addr f l _ (addr b) = _
    rcases mem_cons.mp hb with rfl | hb
    · rw [changes_other hl.1, Function.update_self]
    · have hne : addr b ≠ addr c := fun he => hl.1 (he ▸ mem_map_of_mem hb)
      rw [ih hl.2 hb, Function.update_of_ne hne]

theorem changes_eq_iff (hl : (l.map addr).Nodup) :
    changes addr f l m = changes addr g l m ↔ ∀ b ∈ l, f b (m (addr b)) = g b (m (addr b)) := by
  constructor
  · intro h b hb
    have hcell := congrFun h (addr b)
    rwa [changes_cell hl hb, changes_cell hl hb] at hcell
  · intro h
    funext a
    by_cases ha : a ∈ l.map addr
    · obtain ⟨b, hb, rfl⟩ := mem_map.mp ha
      rw [changes_cell hl hb, changes_cell hl hb, h b hb]
    · rw [changes_other ha, changes_other ha]

end Cells

end WWindowSystem
