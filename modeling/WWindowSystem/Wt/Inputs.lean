import Mathlib.Data.Finset.Basic
import Mathlib.Data.Finset.Lattice.Lemmas
import Mathlib.Data.Finset.SDiff
import Mathlib.Data.Int.Basic
import Mathlib.Data.List.Nodup
import WWindowSystem.Library.Run

namespace WWindowSystem

variable {H : Type}

inductive FdKind where
  | rd
  | wr
  | ex
  deriving DecidableEq

abbrev Fds := FdKind → Finset Nat

def FD_ZERO : Fds := fun _ => ∅
def wt_fdset_set (s1 s2 : Fds) : Fds := fun k => s1 k ∪ s2 k
def wt_fdset_clr (s1 s2 : Fds) : Fds := fun k => s1 k \ s2 k

def wt_fdset_isset (s1 s2 : Fds) : Bool :=
  !decide (Disjoint (s1 .rd) (s2 .rd)) || !decide (Disjoint (s1 .wr) (s2 .wr)) ||
    !decide (Disjoint (s1 .ex) (s2 .ex))

structure input_t (H : Type) where
  id : Int
  sets : Fds
  handler : H
  arg : Int
  refcnt : Int

/-- The inputs of the toolkit; the ids do not run out. `running` is the input whose handler
`wt_do_input` has called, and `wild` says that a pointer to a freed input was used. The last three
fields only record what happened: the handles that were deleted, the inputs that were there when
`wt_do_input` started, and those whose handlers it has called. -/
structure Inputs (H : Type) where
  glob_inputs : List (input_t H)
  glob_fdset : Fds
  theid : Int
  running : Option Int
  wild : Bool
  deleted : List Int
  present : List Int
  called : List Int

def Inputs.start : Inputs H where
  glob_inputs := []
  glob_fdset := FD_ZERO
  theid := 0
  running := none
  wild := false
  deleted := []
  present := []
  called := []

def onInput (handle : Int) (f : input_t H → Option (input_t H)) : List (input_t H) → List (input_t H)
  | [] => []
  | this :: next =>
    if this.id = handle then
      match f this with
      | none => next
      | some this => this :: next
    else this :: onInput handle f next

def Inputs.wt_addinput (S : Inputs H) (sets : Fds) (h : H) (arg : Int) : Int × Inputs H :=
  (S.theid, { S with
    glob_fdset := wt_fdset_set S.glob_fdset sets
    glob_inputs := { id := S.theid, sets, handler := h, arg, refcnt := 1 } :: S.glob_inputs
    theid := S.theid + 1 })

def input_t.release (this : input_t H) : Option (input_t H) :=
  if this.refcnt - 1 ≤ 0 then none else some { this with refcnt := this.refcnt - 1 }

def Inputs.wt_delinput (S : Inputs H) (handle : Int) : Inputs H :=
  match S.glob_inputs.find? fun this => this.id = handle with
  | none => S
  | some this =>
    { S with
      glob_inputs := onInput handle input_t.release S.glob_inputs
      glob_fdset := if this.refcnt - 1 ≤ 0 then wt_fdset_clr S.glob_fdset this.sets else S.glob_fdset }

def Inputs.wt_chginput (S : Inputs H) (handle : Int) (sets : Fds) : Inputs H :=
  match S.glob_inputs.find? fun this => this.id = handle with
  | none => S
  | some this =>
    { S with
      glob_inputs := onInput handle (fun this => some { this with sets }) S.glob_inputs
      glob_fdset := wt_fdset_set (wt_fdset_clr S.glob_fdset this.sets) sets }

def Inputs.dispatch (S : Inputs H) (ready : Fds) (inputs : List (input_t H)) : Option (input_t H) × Inputs H :=
  match inputs.find? fun ip => wt_fdset_isset ip.sets ready with
  | none => (none, { S with running := none })
  | some ip =>
    (some ip, { S with
      glob_inputs := onInput ip.id (fun ip => some { ip with refcnt := ip.refcnt + 1 }) S.glob_inputs
      running := some ip.id, called := ip.id :: S.called })

def Inputs.wt_do_input (S : Inputs H) (ready : Fds) : Option (input_t H) × Inputs H :=
  Inputs.dispatch { S with present := S.glob_inputs.map input_t.id, called := [] } ready S.glob_inputs

def Inputs.link (S : Inputs H) (id : Int) : List (input_t H) :=
  S.glob_inputs.dropWhile fun ip => ip.id ≠ id

def Inputs.proceed (S : Inputs H) (ready : Fds) (next : Option Int) : Option (input_t H) × Inputs H :=
  match next with
  | none => S.dispatch ready []
  | some id =>
    match S.link id with
    | [] => (none, { S with wild := true, running := none })
    | ip :: l => S.dispatch ready (ip :: l)

def Inputs.handler_returns (S : Inputs H) (ready : Fds) : Option (input_t H) × Inputs H :=
  match S.running with
  | none => (none, S)
  | some id =>
    match S.link id with
    | [] => (none, { S with wild := true, running := none })
    | ip :: next =>
      let S' : Inputs H := { S with
        glob_inputs := onInput id (fun ip => some { ip with refcnt := ip.refcnt - 1 }) S.glob_inputs }
      let S'' := if ip.refcnt - 1 ≤ 0 then S'.wt_delinput id else S'
      S''.proceed ready (next.head?.map input_t.id)

inductive InputCall (H : Type) where
  | wt_addinput (sets : Fds) (h : H) (arg : Int)
  | wt_delinput (handle : Int)
  | wt_chginput (handle : Int) (sets : Fds)
  | wt_do_input (ready : Fds)
  | handler_returns (ready : Fds)

def Inputs.run (S : Inputs H) : InputCall H → Option (input_t H) × Inputs H
  | .wt_addinput sets h arg => (none, (S.wt_addinput sets h arg).2)
  | .wt_delinput handle =>
    let S' := S.wt_delinput handle
    (none, { S' with
      deleted := if handle ∈ S.glob_inputs.map input_t.id then handle :: S.deleted else S.deleted })
  | .wt_chginput handle sets => (none, S.wt_chginput handle sets)
  | .wt_do_input ready => S.wt_do_input ready
  | .handler_returns ready => S.handler_returns ready

def Inputs.Used (S : Inputs H) : InputCall H → Prop
  | .wt_delinput handle => handle ∉ S.deleted
  | .wt_do_input _ => S.running = none
  | _ => True

instance (S : Inputs H) (c : InputCall H) : Decidable (S.Used c) := by
  cases c <;> dsimp only [Inputs.Used] <;> infer_instance

def Inputs.Exact (S : Inputs H) : Prop :=
  ∀ k x, x ∈ S.glob_fdset k ↔ ∃ i ∈ S.glob_inputs, x ∈ i.sets k

def Inputs.Alone (S : Inputs H) (id : Int) (sets : Fds) : Prop :=
  ∀ j ∈ S.glob_inputs, j.id ≠ id → ∀ k, Disjoint (sets k) (j.sets k)

def Inputs.Unshared (S : Inputs H) : InputCall H → Prop
  | .wt_delinput handle => ∀ i ∈ S.glob_inputs, i.id = handle → i.refcnt ≤ 1 → S.Alone handle i.sets
  | .wt_chginput handle sets =>
    ∀ i ∈ S.glob_inputs, i.id = handle → S.Alone handle (wt_fdset_clr i.sets sets)
  | .handler_returns _ =>
    ∀ i ∈ S.glob_inputs, S.running = some i.id → i.refcnt ≤ 1 → S.Alone i.id i.sets
  | _ => True

end WWindowSystem

namespace WWindowSystem

variable {H : Type} {S : Inputs H} {f : input_t H → Option (input_t H)} {l : List (input_t H)} {handle : Int}

def ids (l : List (input_t H)) : List Int := l.map input_t.id

theorem mem_ids {i : input_t H} (h : i ∈ l) : i.id ∈ ids l := List.mem_map_of_mem h

def Newest (l : List (input_t H)) : Prop := (ids l).Pairwise fun i j => j < i

theorem Newest.eq_of_id (h : Newest l) {i j : input_t H} (hi : i ∈ l) (hj : j ∈ l) (hid : i.id = j.id) : i = j := by
  have hnodup : (l.map input_t.id).Nodup := h.imp fun hlt => Int.ne_of_gt hlt
  exact List.inj_on_of_nodup_map hnodup hi hj hid

def KeepsId (f : input_t H → Option (input_t H)) : Prop := ∀ i j, f i = some j → j.id = i.id

theorem ids_onInput (hf : KeepsId f) : (ids (onInput handle f l)).Sublist (ids l) := by
  induction l with
  | nil => exact List.Sublist.refl _
  | cons i l ih =>
    unfold onInput
    split_ifs
    · cases hi : f i with
      | none => exact List.sublist_cons_self _ _
      | some j =>
        change (j.id :: ids l).Sublist (i.id :: ids l)
        rw [hf i j hi]
    · exact ih.cons_cons i.id

theorem map_onInput {β : Type} (φ : input_t H → β) (g : input_t H → input_t H) (hg : ∀ i, φ (g i) = φ i) :
    (onInput handle (fun i => some (g i)) l).map φ = l.map φ := by
  induction l with
  | nil => rfl
  | cons i l ih =>
    unfold onInput
    split_ifs
    · simp only [List.map_cons, hg]
    · rw [List.map_cons, List.map_cons, ih]

theorem Newest.sub (h : Newest l) (hf : KeepsId f) : Newest (onInput handle f l) :=
  h.sublist (ids_onInput hf)

theorem mem_onInput (h : Newest l) (j : input_t H) :
    j ∈ onInput handle f l ↔ (j ∈ l ∧ j.id ≠ handle) ∨ ∃ i ∈ l, i.id = handle ∧ f i = some j := by
  induction l with
  | nil => simp [onInput]
  | cons i l ih =>
    obtain ⟨hlt, hl⟩ := List.pairwise_cons.mp h
    have hother : ∀ j ∈ l, j.id ≠ i.id := fun j hj => Int.ne_of_lt (hlt j.id (mem_ids hj))
    unfold onInput
    split_ifs with hi
    · subst hi
      cases hf : f i with
      | none =>
        constructor
        · exact fun hj => Or.inl ⟨List.mem_cons_of_mem i hj, hother j hj⟩
        · rintro (⟨hj, hne⟩ | ⟨i', hi', hid, hs⟩)
          · rcases List.mem_cons.mp hj with rfl | hj
            · exact absurd rfl hne
            · exact hj
          · rcases List.mem_cons.mp hi' with rfl | hi'
            · rw [hf] at hs
              cases hs
            · exact absurd hid (hother i' hi')
      | some i' =>
        constructor
        · intro hj
          rcases List.mem_cons.mp hj with rfl | hj
          · exact Or.inr ⟨i, List.mem_cons_self, rfl, hf⟩
          · exact Or.inl ⟨List.mem_cons_of_mem i hj, hother j hj⟩
        · rintro (⟨hj, hne⟩ | ⟨i'', hi'', hid, hs⟩)
          · rcases List.mem_cons.mp hj with rfl | hj
            · exact absurd rfl hne
            · exact List.mem_cons_of_mem i' hj
          · rcases List.mem_cons.mp hi'' with rfl | hi''
            · rw [hf] at hs
              cases hs
              exact List.mem_cons_self
            · exact absurd hid (hother i'' hi'')
    · rw [List.mem_cons, ih hl]
      constructor
      · rintro (rfl | ⟨hj, hne⟩ | ⟨i', hi', hid, hs⟩)
        · exact Or.inl ⟨List.mem_cons_self, hi⟩
        · exact Or.inl ⟨List.mem_cons_of_mem i hj, hne⟩
        · exact Or.inr ⟨i', List.mem_cons_of_mem i hi', hid, hs⟩
      · rintro (⟨hj, hne⟩ | ⟨i', hi', hid, hs⟩)
        · rcases List.mem_cons.mp hj with rfl | hj
          · exact Or.inl rfl
          · exact Or.inr (Or.inl ⟨hj, hne⟩)
        · rcases List.mem_cons.mp hi' with rfl | hi'
          · exact absurd hid hi
          · exact Or.inr (Or.inr ⟨i', hi', hid, hs⟩)

theorem find_id_some {this : input_t H} (h : l.find? (fun this => this.id = handle) = some this) :
    this ∈ l ∧ this.id = handle :=
  ⟨List.mem_of_find?_eq_some h, by simpa using List.find?_some h⟩

theorem find_id_none (h : l.find? (fun this => this.id = handle) = none) : ∀ i ∈ l, i.id ≠ handle := by
  simpa using h

theorem exact_change {glob sets : Fds} {this : input_t H} (hthis : this ∈ l) (hid : this.id = handle)
    (huniq : ∀ i ∈ l, i.id = handle → i = this) (he : ∀ k x, x ∈ glob k ↔ ∃ i ∈ l, x ∈ i.sets k) :
    (∀ k x, x ∈ wt_fdset_set (wt_fdset_clr glob this.sets) sets k ↔
        (∃ i ∈ l, i.id ≠ handle ∧ x ∈ i.sets k) ∨ x ∈ sets k) ↔
      ∀ j ∈ l, j.id ≠ handle → ∀ k, Disjoint (wt_fdset_clr this.sets sets k) (j.sets k) := by
  simp only [wt_fdset_set, wt_fdset_clr, Finset.mem_union, Finset.mem_sdiff, he]
  constructor
  · intro h j hj hne k
    rw [Finset.disjoint_left]
    intro x hx hxj
    obtain ⟨hx1, hx2⟩ := Finset.mem_sdiff.mp hx
    rcases (h k x).mpr (Or.inl ⟨j, hj, hne, hxj⟩) with ⟨-, hno⟩ | hs
    · exact hno hx1
    · exact hx2 hs
  · intro h k x
    constructor
    · rintro (⟨⟨i, hi, hxi⟩, hno⟩ | hs)
      · refine Or.inl ⟨i, hi, fun hi' => hno ?_, hxi⟩
        rw [← huniq i hi hi']
        exact hxi
      · exact Or.inr hs
    · rintro (⟨i, hi, hne, hxi⟩ | hs)
      · by_cases hs : x ∈ sets k
        · exact Or.inr hs
        · refine Or.inl ⟨⟨i, hi, hxi⟩, fun hthis' => ?_⟩
          exact Finset.disjoint_left.mp (h i hi hne k) (Finset.mem_sdiff.mpr ⟨hthis', hs⟩) hxi
      · exact Or.inr hs

end WWindowSystem
