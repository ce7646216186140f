import WWindowSystem.Wt.Timeouts

namespace WWindowSystem

variable {H : Type}

structure Timeouts.Refines (S : Timeouts H) (A : Agenda H) : Prop where
  pending : sums S.last S.glob_timeouts = A.pending.map fun e => (e.due, e.tp)
  theid : S.theid = A.theid
  depth : S.running.length = A.depth
  init : S.init = true → S.glob_timeouts = []

def TimeoutCall.curr : TimeoutCall H → Option Int
  | .wt_addtimeout curr _ _ _ | .wt_can_sleep curr | .wt_do_timeouts curr | .handler_returns curr => some curr
  | .wt_deltimeout _ => none

def Timeouts.Forward (S : Timeouts H) (c : TimeoutCall H) : Prop :=
  ∀ curr, c.curr = some curr → S.init = false → S.last ≤ curr

instance (S : Timeouts H) (c : TimeoutCall H) : Decidable (S.Forward c) :=
  decidable_of_iff (c.curr.all fun curr => S.init || decide (S.last ≤ curr) : Bool) (by
    unfold Timeouts.Forward
    cases c.curr <;> cases S.init <;> simp)

theorem refines_start : (Timeouts.start : Timeouts H).Refines Agenda.start := ⟨rfl, rfl, rfl, fun _ => rfl⟩

variable {curr : Int} {A : Agenda H} {S : Timeouts H}

theorem Timeouts.Refines.update (h : S.Refines A)
    (hc : S.init = false → S.last ≤ curr) :
    (S.wt_update_timeouts curr).Refines A ∧ (S.wt_update_timeouts curr).last = curr := by
  unfold Timeouts.wt_update_timeouts
  split_ifs with hreset
  · refine ⟨⟨?_, h.theid, h.depth, fun hi => ?_⟩, rfl⟩
    · have hnil : S.glob_timeouts = [] := by
        rcases hreset with hi | hnil | hback
        · exact h.init hi
        · exact hnil
        · cases hi : S.init with
          | true => exact h.init hi
          | false =>
            have := hc hi
            omega
      have hp := h.pending
      rw [hnil] at hp ⊢
      exact hp
    · cases hi
  · refine ⟨⟨?_, h.theid, h.depth, fun hi => ?_⟩, rfl⟩
    · dsimp only
      rw [sums_addFirst, ← h.pending]
      congr 1
      ring
    · exact absurd (Or.inl hi) hreset

theorem Timeouts.Refines.check (h : S.Refines A) :
    S.check.1 = (A.check S.last).1 ∧ S.check.2.Refines (A.check S.last).2 := by
  have hp := h.pending
  unfold Timeouts.check Agenda.check
  cases hS : S.glob_timeouts with
  | nil =>
    rw [hS] at hp
    have hA : A.pending = [] := List.map_eq_nil_iff.mp hp.symm
    rw [hA]
    exact ⟨rfl, h⟩
  | cons x next =>
    obtain ⟨delta, tp⟩ := x
    rw [hS] at hp
    cases hA : A.pending with
    | nil =>
      rw [hA] at hp
      cases hp
    | cons e l =>
      rw [hA] at hp
      obtain ⟨hfirst, hrest⟩ := List.cons.inj hp
      obtain ⟨hdue, rfl⟩ := Prod.mk.inj hfirst
      dsimp only
      by_cases hle : delta ≤ 0
      · rw [if_pos hle, if_pos (by omega)]
        refine ⟨rfl, ?_, h.theid, congrArg Nat.succ h.depth, fun hi => ?_⟩
        · dsimp only
          rw [sums_addFirst]
          exact hrest
        · rw [h.init hi] at hS
          cases hS
      · rw [if_neg hle, if_neg (by omega)]
        exact ⟨rfl, h⟩

variable (longMax : Int)

theorem Timeouts.Refines.add (h : S.Refines A)
    (hc : S.init = false → S.last ≤ curr) (delta : Int) (f : H) (arg : Int) :
    (S.wt_addtimeout longMax curr delta f arg).1 = (A.add longMax curr delta f arg).1 ∧
      (S.wt_addtimeout longMax curr delta f arg).2.Refines (A.add longMax curr delta f arg).2 := by
  unfold Timeouts.wt_addtimeout Agenda.add
  split_ifs
  · exact ⟨rfl, h⟩
  · have hid : Timeouts.Refines { S with theid := nextId longMax S.theid }
        { A with theid := nextId longMax A.theid } :=
      ⟨h.pending, congrArg (nextId longMax) h.theid, h.depth, h.init⟩
    obtain ⟨hu, hlast⟩ := hid.update hc
    refine ⟨h.theid, ?_, hu.theid, hu.depth, fun hi => ?_⟩
    · dsimp only
      rw [sums_insertDelta, hu.pending, hlast, h.theid]
      exact (map_insertAfter (fun e : Entry H => (e.due, e.tp)) Prod.fst
        { serial := A.count, time := curr, delta, tp := ⟨A.theid, f, arg⟩ } A.pending).symm
    · exfalso
      revert hi
      unfold Timeouts.wt_update_timeouts
      dsimp only
      split_ifs with hreset
      · exact fun hi => hi
      · exact fun hi => hreset (Or.inl hi)

theorem Timeouts.Refines.delete (h : S.Refines A) (handle : Int) :
    (S.wt_deltimeout handle).Refines (A.delete handle) := by
  refine ⟨?_, h.theid, h.depth, fun hi => ?_⟩
  · unfold Timeouts.wt_deltimeout Agenda.delete
    dsimp only
    rw [sums_eraseDelta, h.pending, List.eraseP_map]
    rfl
  · unfold Timeouts.wt_deltimeout
    dsimp only
    rw [h.init hi]
    rfl

theorem Timeouts.Refines.sleep (h : S.Refines A)
    (hc : S.init = false → S.last ≤ curr) :
    (S.wt_can_sleep curr).1 = A.sleep curr ∧ (S.wt_can_sleep curr).2.Refines A := by
  obtain ⟨hu, hlast⟩ := h.update hc
  have hp := hu.pending
  unfold Timeouts.wt_can_sleep Agenda.sleep
  dsimp only
  cases hS : (S.wt_update_timeouts curr).glob_timeouts with
  | nil =>
    rw [hS] at hp
    have hA : A.pending = [] := List.map_eq_nil_iff.mp hp.symm
    rw [hA]
    exact ⟨rfl, hu⟩
  | cons x next =>
    obtain ⟨delta, tp⟩ := x
    rw [hS, hlast] at hp
    cases hA : A.pending with
    | nil =>
      rw [hA] at hp
      cases hp
    | cons e l =>
      rw [hA] at hp
      obtain ⟨hdue, -⟩ := Prod.mk.inj (List.cons.inj hp).1
      refine ⟨?_, hu⟩
      dsimp only
      rw [← hdue]
      congr 1
      ring

theorem Timeouts.Refines.run (h : S.Refines A)
    {c : TimeoutCall H} (hc : S.Forward c) :
    (S.run longMax c).1 = (A.run longMax c).1 ∧ (S.run longMax c).2.Refines (A.run longMax c).2 := by
  cases c with
  | wt_addtimeout curr delta f arg =>
    obtain ⟨h1, h2⟩ := h.add longMax (hc curr rfl) delta f arg
    exact ⟨congrArg (fun r => (⟨some r, none⟩ : TimeoutAnswer H)) h1, h2⟩
  | wt_deltimeout handle => exact ⟨rfl, h.delete handle⟩
  | wt_can_sleep curr =>
    obtain ⟨h1, h2⟩ := h.sleep (hc curr rfl)
    exact ⟨congrArg (fun r => (⟨some r, none⟩ : TimeoutAnswer H)) h1, h2⟩
  | wt_do_timeouts curr =>
    obtain ⟨hu, hlast⟩ := h.update (hc curr rfl)
    obtain ⟨h1, h2⟩ := hu.check
    rw [hlast] at h1 h2
    exact ⟨congrArg (TimeoutAnswer.mk none) h1, h2⟩
  | handler_returns curr =>
    have hd := h.depth
    unfold Timeouts.run Agenda.run Timeouts.handler_returns
    cases hS : S.running with
    | nil =>
      rw [hS] at hd
      rw [← hd]
      exact ⟨rfl, h⟩
    | cons tp running =>
      rw [hS] at hd
      rw [← hd]
      have hpop : Timeouts.Refines { S with running } { A with depth := running.length } :=
        ⟨h.pending, h.theid, rfl, h.init⟩
      obtain ⟨hu, hlast⟩ := hpop.update (hc curr rfl)
      obtain ⟨h1, h2⟩ := hu.check
      rw [hlast] at h1 h2
      exact ⟨congrArg (TimeoutAnswer.mk none) h1, h2⟩

theorem Timeouts.Refines.fits {longMax : Int} (h : S.Refines A)
    (hlast : 0 ≤ S.last ∧ S.last ≤ longMax) (hdue : ∀ e ∈ A.pending, 0 ≤ e.due ∧ e.due ≤ longMax) :
    ∀ x ∈ S.glob_timeouts, -longMax ≤ x.1 ∧ x.1 ≤ longMax := by
  apply fits_of_sums hlast
  rw [h.pending]
  intro x hx
  obtain ⟨e, he, rfl⟩ := List.mem_map.mp hx
  exact hdue e he

/-- The differences refine the due times: in every run the calls answer as those of the agenda, and
what each of them does there is right. -/
theorem timeouts_refine (longMax : Int) {l : List (TimeoutCall H)}
    (hl : AllSafe (fun S c => (S.run longMax c).2) Timeouts.Forward Timeouts.start l) :
    replies (Timeouts.run longMax) Timeouts.start l = replies (Agenda.run longMax) Agenda.start l ∧
      AllSafe (fun A c => (A.run longMax c).2) (Agenda.Kept longMax) Agenda.start l ∧
      (l.foldl (fun A c => (A.run longMax c).2) Agenda.start).Sound := by
  refine ⟨?_, ?_, ?_⟩
  · have hstep (S : Timeouts H) (A : Agenda H) (c : TimeoutCall H) (h : S.Refines A) (hc : S.Forward c) :
        (S.run longMax c).1 = (A.run longMax c).1 ∧ (S.run longMax c).2.Refines (A.run longMax c).2 :=
      h.run longMax hc
    exact AllSafe.replies_eq Timeouts.Refines hstep hl refines_start
  · exact (AllSafe.of_forall (fun _ _ => trivial)).imp Agenda.Sound (fun A c h _ => h.run longMax c) Agenda.sound_start
  · exact (AllSafe.of_forall (fun _ _ => trivial)).invariant Agenda.Sound
      (fun A c h (_ : True) => (h.run longMax c).1) Agenda.sound_start

def lateTimeouts : List (TimeoutCall Nat) :=
  [.wt_addtimeout 5 10 1 0, .wt_addtimeout 6 4 2 0, .wt_can_sleep 7, .wt_do_timeouts 12, .wt_addtimeout 13 1 3 0,
    .handler_returns 14, .handler_returns 14, .wt_deltimeout 0, .wt_do_timeouts 20]

theorem lateTimeouts_refine :
    (replies (Timeouts.run 100) Timeouts.start lateTimeouts).map (fun a => (a.ret, a.ran.map timeout_t.handler)) =
        [(some 0, none), (some 1, none), (some 3, none), (none, some 2), (some 2, none), (none, some 3), (none, none),
          (none, none), (none, none)] ∧ (lateTimeouts.foldl (fun A c => (A.run 100 c).2) Agenda.start).Sound :=
  ⟨by decide, (timeouts_refine 100 (l := lateTimeouts) (by decide)).2.2⟩

end WWindowSystem
