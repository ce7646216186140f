import Mathlib.Data.List.Range
import WWindowSystem.Library.DeltaList
import WWindowSystem.Library.Run

namespace WWindowSystem

variable {H : Type}

structure timeout_t (H : Type) where
  id : Int
  handler : H
  arg : Int

/-- The timeouts of the toolkit, each with its `delta`. `last` and `init` are those of
`wt_update_timeouts`, `theid` is that of `wt_addtimeout`, and `running` are the timeouts whose
handlers have not returned, the innermost first. -/
structure Timeouts (H : Type) where
  glob_timeouts : List (Int × timeout_t H)
  last : Int
  init : Bool
  theid : Int
  running : List (timeout_t H)

def Timeouts.start : Timeouts H := { glob_timeouts := [], last := 0, init := true, theid := 0, running := [] }

def Timeouts.wt_update_timeouts (S : Timeouts H) (curr : Int) : Timeouts H :=
  if S.init ∨ S.glob_timeouts = [] ∨ curr - S.last < 0 then { S with last := curr, init := false }
  else { S with glob_timeouts := addFirst (-(curr - S.last)) S.glob_timeouts, last := curr }

def Timeouts.wt_can_sleep (S : Timeouts H) (curr : Int) : Int × Timeouts H :=
  let S := S.wt_update_timeouts curr
  match S.glob_timeouts with
  | [] => (10000, S)
  | (delta, _) :: _ => (max delta 1, S)

/-- The condition of the loop of `wt_do_timeouts`, and its body up to the call of the handler. -/
def Timeouts.check (S : Timeouts H) : Option (timeout_t H) × Timeouts H :=
  match S.glob_timeouts with
  | [] => (none, S)
  | (delta, tp) :: next =>
    if delta ≤ 0 then
      (some tp, { S with glob_timeouts := addFirst delta next, running := tp :: S.running })
    else (none, S)

def Timeouts.wt_do_timeouts (S : Timeouts H) (curr : Int) : Option (timeout_t H) × Timeouts H :=
  (S.wt_update_timeouts curr).check

def Timeouts.handler_returns (S : Timeouts H) (curr : Int) : Option (timeout_t H) × Timeouts H :=
  match S.running with
  | [] => (none, S)
  | _ :: running => (Timeouts.wt_update_timeouts { S with running } curr).check

def nextId (longMax theid : Int) : Int := if theid = longMax then 0 else theid + 1

def Timeouts.wt_addtimeout (longMax : Int) (S : Timeouts H) (curr delta : Int) (f : H) (arg : Int) :
    Int × Timeouts H :=
  if delta ≤ 0 then (-1, S)
  else
    let tp : timeout_t H := { id := S.theid, handler := f, arg }
    let S := Timeouts.wt_update_timeouts { S with theid := nextId longMax S.theid } curr
    (tp.id, { S with glob_timeouts := insertDelta tp delta S.glob_timeouts })

def Timeouts.wt_deltimeout (S : Timeouts H) (handle : Int) : Timeouts H :=
  { S with glob_timeouts := eraseDelta (fun tp => tp.id == handle) S.glob_timeouts }

inductive TimeoutCall (H : Type) where
  | wt_addtimeout (curr delta : Int) (f : H) (arg : Int)
  | wt_deltimeout (handle : Int)
  | wt_can_sleep (curr : Int)
  | wt_do_timeouts (curr : Int)
  | handler_returns (curr : Int)

structure TimeoutAnswer (H : Type) where
  ret : Option Int
  ran : Option (timeout_t H)

def Timeouts.run (longMax : Int) (S : Timeouts H) : TimeoutCall H → TimeoutAnswer H × Timeouts H
  | .wt_addtimeout curr delta f arg =>
    let r := S.wt_addtimeout longMax curr delta f arg
    (⟨some r.1, none⟩, r.2)
  | .wt_deltimeout handle => (⟨none, none⟩, S.wt_deltimeout handle)
  | .wt_can_sleep curr =>
    let r := S.wt_can_sleep curr
    (⟨some r.1, none⟩, r.2)
  | .wt_do_timeouts curr =>
    let r := S.wt_do_timeouts curr
    (⟨none, r.1⟩, r.2)
  | .handler_returns curr =>
    let r := S.handler_returns curr
    (⟨none, r.1⟩, r.2)

end WWindowSystem

namespace WWindowSystem

inductive TimerFn where
  | move_timer
  | timer_callback
  | other (f : Int)
  deriving DecidableEq

/-- The timeouts of the toolkit with the time and the range of a `long`. `erased` are those that a widget
has deleted, each with the widget. -/
structure Ticker where
  timeouts : Timeouts TimerFn
  longMax : Int
  curr : Int
  erased : List (Int × timeout_t TimerFn)

def Ticker.start (longMax : Int) : Ticker := { timeouts := Timeouts.start, longMax, curr := 0, erased := [] }

def Ticker.wt_addtimeout (T : Ticker) (delta : Int) (f : TimerFn) (arg : Int) : Int × Ticker :=
  let r := T.timeouts.wt_addtimeout T.longMax T.curr delta f arg
  (r.1, { T with timeouts := r.2 })

def Ticker.wt_deltimeout (T : Ticker) (self handle : Int) : Ticker :=
  let found := T.timeouts.glob_timeouts.find? fun e => e.2.id == handle
  { T with
    timeouts := T.timeouts.wt_deltimeout handle
    erased := found.toList.map (fun e => (self, e.2)) ++ T.erased }

end WWindowSystem

namespace WWindowSystem

variable {H : Type}

structure Entry (H : Type) where
  serial : Nat
  time : Int
  delta : Int
  tp : timeout_t H

def Entry.due (e : Entry H) : Int := e.time + e.delta

def Entry.Before (e e' : Entry H) : Prop := e.due < e'.due ∨ e.due = e'.due ∧ e.serial < e'.serial

/-- What the timeouts are for: the pending ones, the ones that have run with the time then, and the
ones that were deleted. -/
structure Agenda (H : Type) where
  pending : List (Entry H)
  ran : List (Entry H × Int)
  deleted : List (Entry H)
  count : Nat
  theid : Int
  depth : Nat

def Agenda.start : Agenda H := { pending := [], ran := [], deleted := [], count := 0, theid := 0, depth := 0 }

def Agenda.add (longMax : Int) (A : Agenda H) (curr delta : Int) (f : H) (arg : Int) : Int × Agenda H :=
  if delta ≤ 0 then (-1, A)
  else
    let e : Entry H := { serial := A.count, time := curr, delta, tp := { id := A.theid, handler := f, arg } }
    (A.theid, { A with
      pending := insertAfter Entry.due e A.pending, count := A.count + 1, theid := nextId longMax A.theid })

def Agenda.delete (A : Agenda H) (handle : Int) : Agenda H :=
  { A with
    pending := A.pending.eraseP fun e => e.tp.id == handle
    deleted := (A.pending.find? fun e => e.tp.id == handle).toList ++ A.deleted }

def Agenda.sleep (A : Agenda H) (curr : Int) : Int :=
  match A.pending with
  | [] => 10000
  | e :: _ => max (e.due - curr) 1

def Agenda.check (A : Agenda H) (curr : Int) : Option (timeout_t H) × Agenda H :=
  match A.pending with
  | [] => (none, A)
  | e :: l =>
    if e.due ≤ curr then
      (some e.tp, { A with pending := l, ran := (e, curr) :: A.ran, depth := A.depth + 1 })
    else (none, A)

def Agenda.run (longMax : Int) (A : Agenda H) : TimeoutCall H → TimeoutAnswer H × Agenda H
  | .wt_addtimeout curr delta f arg =>
    let r := A.add longMax curr delta f arg
    (⟨some r.1, none⟩, r.2)
  | .wt_deltimeout handle => (⟨none, none⟩, A.delete handle)
  | .wt_can_sleep curr => (⟨some (A.sleep curr), none⟩, A)
  | .wt_do_timeouts curr =>
    let r := A.check curr
    (⟨none, r.1⟩, r.2)
  | .handler_returns curr =>
    match A.depth with
    | 0 => (⟨none, none⟩, A)
    | depth + 1 =>
      let r := Agenda.check { A with depth } curr
      (⟨none, r.1⟩, r.2)

structure Agenda.Sound (A : Agenda H) : Prop where
  order : A.pending.Pairwise Entry.Before
  once : ((A.pending ++ A.ran.map Prod.fst ++ A.deleted).map Entry.serial).Perm (List.range A.count)
  late : ∀ e curr, (e, curr) ∈ A.ran → e.due ≤ curr

def Agenda.Prompt (A A' : Agenda H) (curr : Int) : Prop :=
  (∃ e l, A.pending = e :: l ∧ A'.pending = l ∧ A'.ran = (e, curr) :: A.ran ∧ e.due ≤ curr ∧
    ∀ e' ∈ l, e.Before e') ∨
  (A'.pending = A.pending ∧ A'.ran = A.ran ∧ ∀ e ∈ A.pending, curr < e.due)

variable {A : Agenda H}

theorem Agenda.Sound.serial_lt (h : A.Sound) {e : Entry H} (he : e ∈ A.pending) :
    e.serial < A.count := by
  apply List.mem_range.mp
  apply h.once.subset
  simp only [List.map_append, List.mem_append, List.mem_map]
  exact Or.inl (Or.inl ⟨e, he, rfl⟩)

theorem Agenda.sound_start : (Agenda.start : Agenda H).Sound :=
  ⟨List.Pairwise.nil, List.Perm.refl _, fun _ _ h => by cases h⟩

theorem Agenda.Sound.add (h : A.Sound) (longMax curr delta : Int) (f : H) (arg : Int) :
    (A.add longMax curr delta f arg).2.Sound := by
  unfold Agenda.add
  split_ifs
  · exact h
  · dsimp only
    refine ⟨?_, ?_, h.late⟩
    · apply insertAfter_pairwise h.order
      intro x hx
      exact h.serial_lt hx
    · rw [List.range_succ]
      have hins := insertAfter_perm Entry.due
        { serial := A.count, time := curr, delta := delta, tp := { id := A.theid, handler := f, arg := arg } } A.pending
      have hall := ((hins.append_right (A.ran.map Prod.fst)).append_right A.deleted).map Entry.serial
      refine hall.trans ?_
      simp only [List.cons_append, List.map_cons]
      exact (h.once.cons A.count).trans (List.perm_append_singleton A.count _).symm

theorem eraseP_perm_find {α : Type} (p : α → Bool) (l : List α) : (l.eraseP p ++ (l.find? p).toList).Perm l := by
  induction l with
  | nil => exact List.Perm.refl _
  | cons a l ih =>
    cases hp : p a with
    | true =>
      rw [List.eraseP_cons_of_pos hp, List.find?_cons_of_pos hp]
      exact List.perm_append_singleton a l
    | false =>
      rw [List.eraseP_cons_of_neg (by simp [hp]), List.find?_cons_of_neg (by simp [hp])]
      exact ih.cons a

theorem Agenda.Sound.delete (h : A.Sound) (handle : Int) : (A.delete handle).Sound := by
  refine ⟨h.order.sublist List.eraseP_sublist, ?_, h.late⟩
  refine List.Perm.trans (List.Perm.map Entry.serial ?_) h.once
  unfold Agenda.delete
  dsimp only
  have hp := eraseP_perm_find (fun e : Entry H => e.tp.id == handle) A.pending
  generalize A.pending.eraseP _ = l at hp
  generalize (A.pending.find? _).toList = l' at hp
  have hswap : (l ++ A.ran.map Prod.fst ++ (l' ++ A.deleted)).Perm (l ++ l' ++ A.ran.map Prod.fst ++ A.deleted) := by
    simp only [List.append_assoc]
    apply List.Perm.append_left
    rw [← List.append_assoc, ← List.append_assoc l']
    exact List.perm_append_comm.append_right A.deleted
  exact hswap.trans ((hp.append_right _).append_right _)

theorem Agenda.Sound.check (h : A.Sound) (curr : Int) :
    (A.check curr).2.Sound ∧ A.Prompt (A.check curr).2 curr := by
  unfold Agenda.check Agenda.Prompt
  cases hp : A.pending with
  | nil =>
    refine ⟨h, Or.inr ⟨hp, rfl, fun e he => ?_⟩⟩
    cases he
  | cons e l =>
    have horder := hp ▸ h.order
    obtain ⟨hfirst, hl⟩ := List.pairwise_cons.mp horder
    dsimp only
    split_ifs with hdue
    · refine ⟨⟨hl, ?_, ?_⟩, Or.inl ⟨e, l, rfl, rfl, rfl, hdue, hfirst⟩⟩
      · refine List.Perm.trans (List.Perm.map Entry.serial ?_) h.once
        rw [hp]
        simp only [List.map_cons]
        exact List.perm_middle.append_right A.deleted
      · intro e' curr' he'
        rcases List.mem_cons.mp he' with heq | he'
        · obtain ⟨rfl, rfl⟩ := Prod.mk.inj heq
          exact hdue
        · exact h.late e' curr' he'
    · refine ⟨h, Or.inr ⟨hp, rfl, fun e' he' => ?_⟩⟩
      rcases List.mem_cons.mp he' with rfl | he'
      · omega
      · have := hfirst e' he'
        unfold Entry.Before at this
        omega

def Agenda.Kept (longMax : Int) (A : Agenda H) : TimeoutCall H → Prop
  | .wt_addtimeout curr delta f arg =>
    0 < delta → ∃ e : Entry H, e.due = curr + delta ∧ e.tp = ⟨A.theid, f, arg⟩ ∧ e.serial = A.count ∧
      (A.add longMax curr delta f arg).2.pending.Perm (e :: A.pending)
  | .wt_deltimeout handle => (A.delete handle).pending = A.pending.eraseP fun e => e.tp.id == handle
  | .wt_can_sleep curr => ∀ e ∈ A.pending, A.sleep curr ≤ max (e.due - curr) 1
  | .wt_do_timeouts curr => A.Prompt (A.check curr).2 curr
  | .handler_returns curr => A.depth ≠ 0 → A.Prompt (Agenda.run longMax A (.handler_returns curr)).2 curr

theorem Agenda.Sound.sleep_le (h : A.Sound) (curr : Int) {e : Entry H} (he : e ∈ A.pending) :
    A.sleep curr ≤ max (e.due - curr) 1 := by
  unfold Agenda.sleep
  have horder := h.order
  cases hp : A.pending with
  | nil =>
    rw [hp] at he
    cases he
  | cons e' l =>
    rw [hp] at he horder
    rcases List.mem_cons.mp he with rfl | he
    · exact le_refl _
    · have hle : e'.due ≤ e.due := by
        have := (List.pairwise_cons.mp horder).1 e he
        unfold Entry.Before at this
        omega
      dsimp only
      omega

theorem Agenda.Sound.run (longMax : Int) (h : A.Sound) (c : TimeoutCall H) :
    (A.run longMax c).2.Sound ∧ A.Kept longMax c := by
  cases c with
  | wt_addtimeout curr delta f arg =>
    refine ⟨h.add longMax curr delta f arg, fun hpos => ?_⟩
    refine ⟨{ serial := A.count, time := curr, delta, tp := ⟨A.theid, f, arg⟩ }, rfl, rfl, rfl, ?_⟩
    unfold Agenda.add
    rw [if_neg (by omega)]
    exact insertAfter_perm _ _ _
  | wt_deltimeout handle => exact ⟨h.delete handle, rfl⟩
  | wt_can_sleep curr => exact ⟨h, fun e he => h.sleep_le curr he⟩
  | wt_do_timeouts curr => exact h.check curr
  | handler_returns curr =>
    unfold Agenda.Kept Agenda.run
    cases hd : A.depth with
    | zero => exact ⟨h, fun hne => absurd rfl hne⟩
    | succ depth =>
      have h' : Agenda.Sound { A with depth } := ⟨h.order, h.once, h.late⟩
      exact ⟨(h'.check curr).1, fun _ => (h'.check curr).2⟩

end WWindowSystem
