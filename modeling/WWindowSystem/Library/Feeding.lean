import Mathlib.Data.List.Basic

namespace WWindowSystem

open List

variable {σ β : Type} {step : σ → List β → Option (σ × List β)} {s s' t t' : σ} {r r' q q' : List β}

inductive Feeds (step : σ → List β → Option (σ × List β)) : σ → List β → σ → List β → Prop
  | refl (s : σ) (r : List β) : Feeds step s r s r
  | head {s s' t : σ} {r r' q : List β} (h : step s r = some (s', r')) (hrest : Feeds step s' r' t q) : Feeds step s r t q

def feed (step : σ → List β → Option (σ × List β)) : Nat → σ → List β → Option (σ × List β)
  | 0, s, r => some (s, r)
  | n + 1, s, r => (step s r).bind fun p => feed step n p.1 p.2

theorem Feeds.of_feed {n : Nat} {s t : σ} {r q : List β} (h : feed step n s r = some (t, q)) : Feeds step s r t q := by
  induction n generalizing s r with
  | zero =>
    cases h
    exact .refl _ _
  | succ n ih =>
    unfold feed at h
    rw [Option.bind_eq_some_iff] at h
    obtain ⟨p, hstep, hrest⟩ := h
    exact .head hstep (ih hrest)

def Stable (step : σ → List β → Option (σ × List β)) : Prop :=
  ∀ s r s' r' x, step s r = some (s', r') → step s (r ++ x) = some (s', r' ++ x)

theorem Feeds.trans (h : Feeds step s r t q) {u : σ} {p : List β} (h' : Feeds step t q u p) : Feeds step s r u p := by
  induction h with
  | refl s r => exact h'
  | head hstep _ ih => exact .head hstep (ih h')

theorem Feeds.extend (hstable : Stable step) (h : Feeds step s r t q) (x : List β) : Feeds step s (r ++ x) t (q ++ x) := by
  induction h with
  | refl s r => exact .refl s (r ++ x)
  | head hstep _ ih => exact .head (hstable _ _ _ _ x hstep) ih

theorem Feeds.unique (h : Feeds step s r t q) (hend : step t q = none) (h' : Feeds step s r t' q') (hend' : step t' q' = none) :
    t = t' ∧ q = q' := by
  induction h with
  | refl s r =>
    cases h' with
    | refl => exact ⟨rfl, rfl⟩
    | head hstep _ =>
      rw [hend] at hstep
      cases hstep
  | head hstep _ ih =>
    cases h' with
    | refl =>
      rw [hend'] at hstep
      cases hstep
    | head hstep' hrest' =>
      rw [hstep] at hstep'
      cases hstep'
      exact ih hend hrest'

theorem Feeds.invariant (inv : σ → List β → Prop) (hinv : ∀ s r s' r', inv s r → step s r = some (s', r') → inv s' r')
    (h : Feeds step s r t q) (hs : inv s r) : inv t q := by
  induction h with
  | refl => exact hs
  | head hstep _ ih => exact ih (hinv _ _ _ _ hs hstep)

section Parts

variable {α : Type} {items parts : List (List α)} {last : List α}

def Whole (items parts : List (List α)) : Prop :=
  ∃ groups : List (List (List α)), groups.flatten = items ∧ groups.map List.flatten = parts

theorem Whole.start : Whole [] [([] : List α)] := ⟨[[]], rfl, rfl⟩

theorem Whole.flatten (h : Whole items parts) : parts.flatten = items.flatten := by
  obtain ⟨groups, rfl, rfl⟩ := h
  exact flatten_flatten.symm

theorem Whole.grow (h : Whole items (parts ++ [last])) (more : List (List α)) :
    Whole (items ++ more) (parts ++ [last ++ more.flatten]) := by
  obtain ⟨groups, rfl, hparts⟩ := h
  obtain ⟨front, back, rfl, rfl, hback⟩ := map_eq_append_iff.mp hparts
  obtain ⟨g, rfl, rfl⟩ := map_eq_singleton_iff.mp hback
  refine ⟨front ++ [g ++ more], ?_, ?_⟩
  · simp
  · simp

theorem Whole.cut (h : Whole items parts) : Whole items (parts ++ [[]]) := by
  obtain ⟨groups, rfl, rfl⟩ := h
  refine ⟨groups ++ [[]], ?_, ?_⟩
  · simp
  · simp

theorem Whole.close (h : Whole items (parts ++ [[]])) (hne : ∀ i ∈ items, i ≠ []) : Whole items parts := by
  obtain ⟨groups, rfl, hparts⟩ := h
  obtain ⟨front, back, rfl, rfl, hback⟩ := map_eq_append_iff.mp hparts
  obtain ⟨g, rfl, hg⟩ := map_eq_singleton_iff.mp hback
  have hempty : g = [] := by
    cases g with
    | nil => rfl
    | cons i g =>
      have hi : i ≠ [] := hne i (by simp)
      simp_all
  refine ⟨front, ?_, rfl⟩
  simp [hempty]

theorem Whole.boundary (h : Whole items parts) (k : Nat) : ∃ j, (parts.take k).flatten = (items.take j).flatten := by
  obtain ⟨groups, rfl, rfl⟩ := h
  refine ⟨(groups.take k).flatten.length, ?_⟩
  have hsplit : groups.flatten = (groups.take k).flatten ++ (groups.drop k).flatten := by
    rw [← flatten_append, take_append_drop]
  rw [hsplit, take_left, flatten_flatten, map_take]

end Parts

end WWindowSystem
