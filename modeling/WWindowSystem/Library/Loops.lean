import Mathlib.Logic.Function.Iterate
import Mathlib.Order.WellFounded

namespace WWindowSystem

variable {σ ρ : Type}

def runLoop (body : σ → σ ⊕ ρ) : Nat → σ → Option ρ
  | 0, _ => none
  | n + 1, s =>
    match body s with
    | .inl s' => runLoop body n s'
    | .inr r => some r

variable {n : Nat} {body : σ → σ ⊕ ρ}

theorem runLoop_spec (inv : σ → Prop) (measure : σ → Nat) (post : ρ → Prop)
    (hnext : ∀ s s', inv s → body s = .inl s' → inv s' ∧ measure s' < measure s)
    (hend : ∀ s r, inv s → body s = .inr r → post r) {s : σ} (hs : inv s) (hn : measure s < n) :
    ∃ r, runLoop body n s = some r ∧ post r := by
  induction n generalizing s with
  | zero => omega
  | succ n ih =>
    unfold runLoop
    cases hb : body s with
    | inl s' =>
      obtain ⟨hi, hm⟩ := hnext s s' hs hb
      exact ih hi (by omega)
    | inr r => exact ⟨r, rfl, hend s r hs hb⟩

variable {r : ρ}

theorem runLoop_more {n m : Nat} {s : σ} (h : runLoop body n s = some r) (hm : n ≤ m) :
    runLoop body m s = some r := by
  induction n generalizing m s with
  | zero => cases h
  | succ n ih =>
    obtain ⟨m, rfl⟩ : ∃ k, m = k + 1 := ⟨m - 1, by omega⟩
    unfold runLoop at h ⊢
    cases hb : body s with
    | inl s' =>
      rw [hb] at h
      exact ih h (by omega)
    | inr r' =>
      rw [hb] at h
      exact h

theorem runLoop_map {σ' ρ' : Type} {body' : σ' → σ' ⊕ ρ'} (f : σ → σ') (g : ρ → ρ') (keep : ρ → Prop)
    (hnext : ∀ s s', body s = .inl s' → body' (f s) = .inl (f s')) (hend : ∀ s r, body s = .inr r → keep r → body' (f s) = .inr (g r))
    {s : σ} (h : runLoop body n s = some r) (hr : keep r) : runLoop body' n (f s) = some (g r) := by
  induction n generalizing s with
  | zero => cases h
  | succ n ih =>
    unfold runLoop at h ⊢
    cases hb : body s with
    | inl s' =>
      rw [hb] at h
      rw [hnext s s' hb]
      exact ih h
    | inr r' =>
      rw [hb] at h
      cases h
      rw [hend s r hb hr]

theorem runLoop_keeps (inv : σ → Prop) (post : ρ → Prop)
    (hnext : ∀ s s', inv s → body s = .inl s' → inv s') (hend : ∀ s r, inv s → body s = .inr r → post r) {s : σ}
    (h : runLoop body n s = some r) (hs : inv s) : post r := by
  induction n generalizing s with
  | zero => cases h
  | succ n ih =>
    unfold runLoop at h
    cases hb : body s with
    | inl s' =>
      rw [hb] at h
      exact ih h (hnext s s' hs hb)
    | inr r' =>
      rw [hb] at h
      cases h
      exact hend s r hs hb

theorem runLoop_result {post : ρ → Prop} (hend : ∀ s r, body s = .inr r → post r) {s : σ}
    (h : runLoop body n s = some r) : post r :=
  runLoop_keeps (fun _ => True) post (fun _ _ _ _ => trivial) (fun s r _ hb => hend s r hb) h trivial

variable {step : σ → σ} {ok inv done : σ → Prop} {s : σ}

theorem iterate_keeps (hstep : ∀ s, inv s → ok s → inv (step s)) (hok : ∀ n, ok (step^[n] s)) (hs : inv s) (n : Nat) :
    inv (step^[n] s) := by
  induction n with
  | zero => exact hs
  | succ n ih =>
    rw [Function.iterate_succ_apply']
    exact hstep _ ih (hok n)

theorem iterate_ends {α : Type} {lt : α → α → Prop} (hwf : WellFounded lt) (measure : σ → α)
    (hstep : ∀ s, inv s → ok s → inv (step s)) (hdown : ∀ s, inv s → ok s → ¬ done s → lt (measure (step s)) (measure s))
    (hok : ∀ n, ok (step^[n] s)) (hs : inv s) : ∃ n, done (step^[n] s) := by
  have hinv := iterate_keeps hstep hok hs
  by_contra hnone
  rw [not_exists] at hnone
  have hdesc : ∀ a, ∀ n, measure (step^[n] s) = a → False := by
    intro a
    induction a using hwf.induction with
    | _ a ih =>
      intro n hn
      have hlt := hdown _ (hinv n) (hok n) (hnone n)
      rw [← Function.iterate_succ_apply' step n s, hn] at hlt
      exact ih _ hlt (n + 1) rfl
  exact hdesc _ 0 rfl

theorem iterate_fixed {N : Nat} (hfix : step (step^[N] s) = step^[N] s) (hn : N ≤ n) :
    step^[n] s = step^[N] s := by
  induction n, hn using Nat.le_induction with
  | base => rfl
  | succ n _ ih => rw [Function.iterate_succ_apply', ih, hfix]

theorem iterate_all {N : Nat} (hfix : step (step^[N] s) = step^[N] s) (hok : ∀ n ≤ N, ok (step^[n] s)) (n : Nat) :
    ok (step^[n] s) := by
  rcases Nat.le_total n N with hle | hle
  · exact hok n hle
  · rw [iterate_fixed hfix hle]
    exact hok N (le_refl N)

end WWindowSystem
