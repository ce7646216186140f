import Mathlib.Data.List.Perm.Basic
import Mathlib.Data.Int.Basic
import Mathlib.Tactic.Ring

namespace WWindowSystem

open List

variable {α : Type}

def sums : Int → List (Int × α) → List (Int × α)
  | _, [] => []
  | t, (d, a) :: l => (t + d, a) :: sums (t + d) l

def addFirst (d : Int) : List (Int × α) → List (Int × α)
  | [] => []
  | (d', a) :: l => (d' + d, a) :: l

def insertDelta (a : α) : Int → List (Int × α) → List (Int × α)
  | d, [] => [(d, a)]
  | d, (d', a') :: l =>
    if d' ≤ d then (d', a') :: insertDelta a (d - d') l else (d, a) :: (d' - d, a') :: l

def eraseDelta (p : α → Bool) : List (Int × α) → List (Int × α)
  | [] => []
  | (d, a) :: l => if p a then addFirst d l else (d, a) :: eraseDelta p l

def insertAfter (key : α → Int) (a : α) : List α → List α
  | [] => [a]
  | b :: l => if key b ≤ key a then b :: insertAfter key a l else a :: b :: l

theorem sums_addFirst (t d : Int) (l : List (Int × α)) : sums t (addFirst d l) = sums (t + d) l := by
  cases l with
  | nil => rfl
  | cons x l =>
    obtain ⟨d', a⟩ := x
    have hsum : t + (d' + d) = t + d + d' := by ring
    simp only [addFirst, sums, hsum]

theorem sums_eraseDelta (p : α → Bool) (t : Int) (l : List (Int × α)) :
    sums t (eraseDelta p l) = (sums t l).eraseP fun x => p x.2 := by
  induction l generalizing t with
  | nil => rfl
  | cons x l ih =>
    obtain ⟨d, a⟩ := x
    cases hp : p a with
    | true =>
      simp only [eraseDelta, sums, hp, if_true, eraseP_cons_of_pos]
      exact sums_addFirst t d l
    | false => simp [eraseDelta, sums, hp, ih]

theorem sums_insertDelta (a : α) (t d : Int) (l : List (Int × α)) :
    sums t (insertDelta a d l) = insertAfter Prod.fst (t + d, a) (sums t l) := by
  induction l generalizing t d with
  | nil => rfl
  | cons x l ih =>
    obtain ⟨d', a'⟩ := x
    by_cases h : d' ≤ d
    · have hsum : t + d' + (d - d') = t + d := by ring
      simp only [insertDelta, sums, insertAfter, if_pos h]
      rw [if_pos (by omega), ih, hsum]
    · have hsum : t + d + (d' - d) = t + d' := by ring
      simp only [insertDelta, sums, insertAfter, if_neg h, hsum]
      rw [if_neg (by omega)]

theorem items_addFirst (d : Int) (l : List (Int × α)) : (addFirst d l).map Prod.snd = l.map Prod.snd := by
  cases l with
  | nil => rfl
  | cons x l => rfl

theorem items_eraseDelta (p : α → Bool) (l : List (Int × α)) :
    (eraseDelta p l).map Prod.snd = (l.map Prod.snd).eraseP p := by
  induction l with
  | nil => rfl
  | cons x l ih =>
    obtain ⟨d, a⟩ := x
    rw [eraseDelta, map_cons, eraseP_cons]
    cases hp : p a with
    | true => exact items_addFirst d l
    | false => exact congrArg (a :: ·) ih

theorem items_insertDelta (a : α) (d : Int) (l : List (Int × α)) :
    ((insertDelta a d l).map Prod.snd).Perm (a :: l.map Prod.snd) := by
  induction l generalizing d with
  | nil => exact List.Perm.refl _
  | cons x l ih =>
    obtain ⟨d', a'⟩ := x
    unfold insertDelta
    split_ifs
    · exact ((ih (d - d')).cons a').trans (List.Perm.swap a a' _)
    · exact List.Perm.refl _

theorem fits_of_sums {max t : Int} {l : List (Int × α)} (ht : 0 ≤ t ∧ t ≤ max)
    (h : ∀ x ∈ sums t l, 0 ≤ x.1 ∧ x.1 ≤ max) : ∀ x ∈ l, -max ≤ x.1 ∧ x.1 ≤ max := by
  induction l generalizing t with
  | nil =>
    intro x hx
    cases hx
  | cons y l ih =>
    obtain ⟨d, a⟩ := y
    have hd : 0 ≤ t + d ∧ t + d ≤ max := h (t + d, a) mem_cons_self
    intro x hx
    rcases mem_cons.mp hx with rfl | hx
    · dsimp only
      omega
    · exact ih hd (fun y hy => h y (mem_cons_of_mem _ hy)) x hx

theorem map_insertAfter {β : Type} (f : α → β) (key : β → Int) (a : α) (l : List α) :
    (insertAfter (fun x => key (f x)) a l).map f = insertAfter key (f a) (l.map f) := by
  induction l with
  | nil => rfl
  | cons b l ih =>
    simp only [insertAfter, map_cons]
    split_ifs
    · rw [map_cons, ih]
    · rfl

theorem insertAfter_perm (key : α → Int) (a : α) (l : List α) : (insertAfter key a l).Perm (a :: l) := by
  induction l with
  | nil => exact List.Perm.refl _
  | cons b l ih =>
    unfold insertAfter
    split_ifs
    · exact (ih.cons b).trans (List.Perm.swap a b l)
    · exact List.Perm.refl _

theorem insertAfter_pairwise {key : α → Int} {younger : α → α → Prop} {a : α} {l : List α}
    (h : l.Pairwise fun x y => key x < key y ∨ key x = key y ∧ younger x y) (ha : ∀ x ∈ l, younger x a) :
    (insertAfter key a l).Pairwise fun x y => key x < key y ∨ key x = key y ∧ younger x y := by
  induction l with
  | nil => exact pairwise_singleton _ a
  | cons b l ih =>
    obtain ⟨hb, hl⟩ := pairwise_cons.mp h
    unfold insertAfter
    split_ifs with hle
    · refine pairwise_cons.mpr ⟨fun y hy => ?_, ih hl fun x hx => ha x (mem_cons_of_mem b hx)⟩
      rcases mem_cons.mp ((insertAfter_perm key a l).mem_iff.mp hy) with rfl | hy
      · rcases hle.lt_or_eq with hlt | heq
        · exact Or.inl hlt
        · exact Or.inr ⟨heq, ha b mem_cons_self⟩
      · exact hb y hy
    · refine pairwise_cons.mpr ⟨fun y hy => Or.inl ?_, h⟩
      rcases mem_cons.mp hy with rfl | hy
      · omega
      · have := hb y hy
        omega

end WWindowSystem
