import Mathlib.Data.List.Defs

namespace WWindowSystem

variable {σ τ ε ρ : Type}

def AllSafe (step : σ → ε → σ) (safe : σ → ε → Prop) : σ → List ε → Prop
  | _, [] => True
  | s, e :: l => safe s e ∧ AllSafe step safe (step s e) l

def AllSafe.decide (step : σ → ε → σ) (safe : σ → ε → Prop) [∀ s e, Decidable (safe s e)] :
    (s : σ) → (l : List ε) → Decidable (AllSafe step safe s l)
  | _, [] => .isTrue trivial
  | s, e :: l => have := AllSafe.decide step safe (step s e) l; instDecidableAnd

instance (step : σ → ε → σ) (safe : σ → ε → Prop) [∀ s e, Decidable (safe s e)] (s : σ) (l : List ε) :
    Decidable (AllSafe step safe s l) := AllSafe.decide step safe s l

variable {s : σ} {safe : σ → ε → Prop} {step : σ → ε → σ} {l : List ε}

theorem AllSafe.of_forall (h : ∀ s e, safe s e) :
    AllSafe step safe s l := by
  induction l generalizing s with
  | nil => exact trivial
  | cons e l ih => exact ⟨h s e, ih⟩

variable (inv : σ → Prop)

theorem AllSafe.invariant
    (hstep : ∀ s e, inv s → safe s e → inv (step s e))
    (hl : AllSafe step safe s l) (hs : inv s) : inv (l.foldl step s) := by
  induction l generalizing s with
  | nil => exact hs
  | cons e l ih => exact ih hl.2 (hstep s e hs hl.1)

theorem AllSafe.imp {safe good : σ → ε → Prop}
    (hstep : ∀ s e, inv s → safe s e → inv (step s e) ∧ good s e)
    (hl : AllSafe step safe s l) (hs : inv s) : AllSafe step good s l := by
  induction l generalizing s with
  | nil => exact trivial
  | cons e l ih =>
    obtain ⟨hi, hg⟩ := hstep s e hs hl.1
    exact ⟨hg, ih hl.2 hi⟩

theorem AllSafe.start {l l' : List ε}
    (hl : AllSafe step safe s l) (h : l' <+: l) : AllSafe step safe s l' := by
  induction l' generalizing s l with
  | nil => exact trivial
  | cons e l' ih =>
    obtain ⟨r, rfl⟩ := h
    exact ⟨hl.1, ih hl.2 (List.prefix_append l' r)⟩

def replies (run : σ → ε → ρ × σ) : σ → List ε → List ρ
  | _, [] => []
  | s, e :: l => (run s e).1 :: replies run (run s e).2 l

theorem AllSafe.replies_eq {run : σ → ε → ρ × σ} {run' : τ → ε → ρ × τ} (rel : σ → τ → Prop)
    (hstep : ∀ s t e, rel s t → safe s e → (run s e).1 = (run' t e).1 ∧ rel (run s e).2 (run' t e).2)
    {t : τ} (hl : AllSafe (fun s e => (run s e).2) safe s l) (hs : rel s t) :
    replies run s l = replies run' t l := by
  induction l generalizing s t with
  | nil => rfl
  | cons e l ih =>
    obtain ⟨he, hr⟩ := hstep s t e hs hl.1
    rw [replies, replies, he, ih hl.2 hr]

theorem safe_of_all {α : Type} {o : Option α} {P : α → Prop} [∀ a, Decidable (P a)]
    (h : o.all (fun a => decide (P a)) = true) : ∀ a, o = some a → P a := by
  rintro a rfl
  simpa using h

end WWindowSystem
