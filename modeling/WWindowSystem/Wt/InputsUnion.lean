import WWindowSystem.Wt.InputsExact

namespace WWindowSystem

variable {H : Type} {S S' : Inputs H} {l : List (input_t H)} {handle : Int} {ready : Fds}

theorem exact_of_sets (hglob : S'.glob_fdset = S.glob_fdset)
    (hsets : S'.glob_inputs.map input_t.sets = S.glob_inputs.map input_t.sets) : S'.Exact ↔ S.Exact := by
  have hex (T : Inputs H) (k : FdKind) (x : Nat) :
      (∃ i ∈ T.glob_inputs, x ∈ i.sets k) ↔ ∃ s ∈ T.glob_inputs.map input_t.sets, x ∈ s k := by
    simp
  unfold Inputs.Exact
  simp only [hex, hglob, hsets]

theorem dispatch_exact : (S.dispatch ready l).2.Exact ↔ S.Exact := by
  unfold Inputs.dispatch
  cases l.find? (fun ip => wt_fdset_isset ip.sets ready) with
  | none => exact exact_of_sets rfl rfl
  | some ip => exact exact_of_sets rfl (map_onInput input_t.sets _ fun _ => rfl)

theorem proceed_exact {next : Option Int} : (S.proceed ready next).2.Exact ↔ S.Exact := by
  unfold Inputs.proceed
  cases next with
  | none => exact dispatch_exact
  | some id =>
    dsimp only
    cases S.link id with
    | nil => exact exact_of_sets rfl rfl
    | cons ip l => exact dispatch_exact

theorem Inputs.Exact.add (he : S.Exact) (sets : Fds) (f : H) (arg : Int) : (S.wt_addinput sets f arg).2.Exact := by
  intro k x
  simp only [Inputs.wt_addinput, wt_fdset_set, Finset.mem_union, List.mem_cons, exists_eq_or_imp]
  rw [he k x]
  exact or_comm

theorem Inputs.Exact.change_iff (he : S.Exact) (hnew : Newest S.glob_inputs) {this : input_t H}
    (hthis : this ∈ S.glob_inputs) (sets : Fds)
    (hglob : S'.glob_fdset = wt_fdset_set (wt_fdset_clr S.glob_fdset this.sets) sets)
    (hl : ∀ k x, (∃ i ∈ S'.glob_inputs, x ∈ i.sets k) ↔
      (∃ i ∈ S.glob_inputs, i.id ≠ this.id ∧ x ∈ i.sets k) ∨ x ∈ sets k) :
    S'.Exact ↔ S.Alone this.id (wt_fdset_clr this.sets sets) := by
  unfold Inputs.Exact
  simp only [hglob, hl]
  exact exact_change hthis rfl (fun i hi hid => hnew.eq_of_id hi hthis hid) he

theorem wt_fdset_set_zero (s : Fds) : wt_fdset_set s FD_ZERO = s := by
  funext k
  exact Finset.union_empty (s k)

theorem wt_fdset_clr_zero (s : Fds) : wt_fdset_clr s FD_ZERO = s := by
  funext k
  exact Finset.sdiff_empty

theorem Inputs.Exact.remove_iff (he : S.Exact) (hnew : Newest S.glob_inputs) {this : input_t H}
    (hthis : this ∈ S.glob_inputs) (hglob : S'.glob_fdset = wt_fdset_clr S.glob_fdset this.sets)
    (hl : ∀ i, i ∈ S'.glob_inputs ↔ i ∈ S.glob_inputs ∧ i.id ≠ this.id) : S'.Exact ↔ S.Alone this.id this.sets := by
  have hiff : S'.Exact ↔ S.Alone this.id (wt_fdset_clr this.sets FD_ZERO) := by
    apply he.change_iff hnew hthis FD_ZERO
    · rw [wt_fdset_set_zero, hglob]
    · intro k x
      simp only [hl, FD_ZERO, Finset.notMem_empty, or_false, and_assoc]
  rwa [wt_fdset_clr_zero] at hiff

theorem Inputs.Exact.delete_iff (he : S.Exact) (hnew : Newest S.glob_inputs) :
    (S.wt_delinput handle).Exact ↔ S.Unshared (.wt_delinput handle) := by
  unfold Inputs.wt_delinput Inputs.Unshared
  cases hf : S.glob_inputs.find? (fun this => this.id = handle) with
  | none => exact iff_of_true he fun i hi hid => absurd hid (find_id_none hf i hi)
  | some this =>
    obtain ⟨hthis, rfl⟩ := find_id_some hf
    have hmem := hnew.mem_release hthis
    have hall : (∀ i ∈ S.glob_inputs, i.id = this.id → i.refcnt ≤ 1 → S.Alone this.id i.sets) ↔
        (this.refcnt ≤ 1 → S.Alone this.id this.sets) := by
      constructor
      · exact fun h => h this hthis rfl
      · intro h i hi hid
        rwa [hnew.eq_of_id hi hthis hid]
    dsimp only
    rw [hall]
    by_cases hle : this.refcnt ≤ 1
    · rw [imp_iff_right hle]
      apply he.remove_iff hnew hthis
      · dsimp only
        rw [if_pos (by omega)]
      · intro i
        dsimp only
        rw [hmem]
        exact or_iff_left fun h => by omega
    · refine iff_of_true ?_ fun h => absurd h hle
      intro k x
      dsimp only
      rw [if_neg (by omega), he k x]
      constructor
      · rintro ⟨i, hi, hx⟩
        by_cases hid : i.id = this.id
        · obtain rfl := hnew.eq_of_id hi hthis hid
          exact ⟨_, (hmem _).mpr (Or.inr ⟨by omega, rfl⟩), hx⟩
        · exact ⟨i, (hmem i).mpr (Or.inl ⟨hi, hid⟩), hx⟩
      · rintro ⟨i, hi, hx⟩
        rcases (hmem i).mp hi with ⟨hi, -⟩ | ⟨-, rfl⟩
        · exact ⟨i, hi, hx⟩
        · exact ⟨this, hthis, hx⟩

theorem Inputs.Exact.chg_iff (he : S.Exact) (hnew : Newest S.glob_inputs) (sets : Fds) :
    (S.wt_chginput handle sets).Exact ↔ S.Unshared (.wt_chginput handle sets) := by
  unfold Inputs.wt_chginput Inputs.Unshared
  cases hf : S.glob_inputs.find? (fun this => this.id = handle) with
  | none => exact iff_of_true he fun i hi hid => absurd hid (find_id_none hf i hi)
  | some this =>
    obtain ⟨hthis, rfl⟩ := find_id_some hf
    have hall : (∀ i ∈ S.glob_inputs, i.id = this.id → S.Alone this.id (wt_fdset_clr i.sets sets)) ↔
        S.Alone this.id (wt_fdset_clr this.sets sets) := by
      constructor
      · exact fun h => h this hthis rfl
      · intro h i hi hid
        rwa [hnew.eq_of_id hi hthis hid]
    dsimp only
    rw [hall]
    apply he.change_iff hnew hthis sets rfl
    intro k x
    dsimp only
    constructor
    · rintro ⟨i, hi, hx⟩
      rcases (mem_onInput hnew i).mp hi with ⟨hi, hne⟩ | ⟨j, -, -, hs⟩
      · exact Or.inl ⟨i, hi, hne, hx⟩
      · cases hs
        exact Or.inr hx
    · rintro (⟨i, hi, hne, hx⟩ | hx)
      · exact ⟨i, (mem_onInput hnew i).mpr (Or.inl ⟨hi, hne⟩), hx⟩
      · exact ⟨{ this with sets }, (mem_onInput hnew _).mpr (Or.inr ⟨this, hthis, rfl, rfl⟩), hx⟩

theorem Inputs.Exact.returns_iff (he : S.Exact) (h : S.Counted) :
    (S.handler_returns ready).2.Exact ↔ S.Unshared (.handler_returns ready) := by
  unfold Inputs.Unshared
  cases hr : S.running with
  | none =>
    unfold Inputs.handler_returns
    rw [hr]
    refine iff_of_true he fun i _ hi => by cases hi
  | some id =>
    obtain ⟨ip, hip, rfl, hcount⟩ := h.busy id hr
    obtain ⟨next, hlink, -⟩ := h.newest.link hip
    obtain ⟨-, hmem, heq⟩ := h.mem_finish hip hcount
    rw [handler_returns_eq hr hlink rfl, proceed_exact]
    have hall : (∀ i ∈ S.glob_inputs, some ip.id = some i.id → i.refcnt ≤ 1 → S.Alone i.id i.sets) ↔
        (ip.refcnt ≤ 1 → S.Alone ip.id ip.sets) := by
      constructor
      · exact fun halone => halone ip hip rfl
      · intro halone i hi hid
        rwa [h.newest.eq_of_id hi hip (Option.some.inj hid).symm]
    dsimp only
    rw [hall]
    have hglob : (S.finish ip).glob_fdset =
        if ip.refcnt ≤ 1 then wt_fdset_clr S.glob_fdset ip.sets else S.glob_fdset := by
      rw [heq]
    rcases hcount with ⟨h2, hno⟩ | ⟨h1, hdel⟩
    · rw [if_neg (by omega)] at hglob
      refine iff_of_true ?_ fun h => by omega
      intro k x
      rw [hglob, he k x]
      constructor
      · rintro ⟨i, hi, hx⟩
        by_cases hid : i.id = ip.id
        · obtain rfl := h.newest.eq_of_id hi hip hid
          exact ⟨_, (hmem _).mpr (Or.inr ⟨hno, rfl⟩), hx⟩
        · exact ⟨i, (hmem i).mpr (Or.inl ⟨hi, hid⟩), hx⟩
      · rintro ⟨i, hi, hx⟩
        rcases (hmem i).mp hi with ⟨hi, -⟩ | ⟨-, rfl⟩
        · exact ⟨i, hi, hx⟩
        · exact ⟨ip, hip, hx⟩
    · rw [if_pos (by omega)] at hglob
      rw [imp_iff_right (by omega)]
      apply he.remove_iff h.newest hip hglob
      intro i
      rw [hmem]
      exact or_iff_left fun hno => hno.1 hdel

theorem Inputs.Exact.run_iff (he : S.Exact) (h : S.Counted) (c : InputCall H) : (S.run c).2.Exact ↔ S.Unshared c := by
  cases c with
  | wt_addinput sets f arg => exact iff_of_true (he.add sets f arg) trivial
  | wt_delinput handle => exact he.delete_iff h.newest
  | wt_chginput handle sets => exact he.chg_iff h.newest sets
  | wt_do_input ready => exact iff_of_true (dispatch_exact.mpr he) trivial
  | handler_returns ready => exact he.returns_iff h

def Inputs.after (S : Inputs H) (l : List (InputCall H)) : Inputs H := l.foldl (fun S c => (S.run c).2) S

theorem exact_run_iff {l : List (InputCall H)} (hl : AllSafe (fun S c => (S.run c).2) Inputs.Used S l)
    (h : S.Counted) (he : S.Exact) :
    (∀ l', l' <+: l → (S.after l').Exact) ↔ AllSafe (fun S c => (S.run c).2) Inputs.Unshared S l := by
  induction l generalizing S with
  | nil =>
    refine iff_of_true (fun l' hl' => ?_) trivial
    rw [List.prefix_nil.mp hl']
    exact he
  | cons c l ih =>
    have hstep := he.run_iff h c
    constructor
    · intro hall
      have hfirst : (S.run c).2.Exact := hall [c] ⟨l, rfl⟩
      refine ⟨hstep.mp hfirst, (ih hl.2 (h.run hl.1).1 hfirst).mp fun l' hl' => ?_⟩
      exact hall (c :: l') (List.cons_prefix_cons.mpr ⟨rfl, hl'⟩)
    · rintro ⟨hc, hrest⟩ l' hl'
      have hfirst := hstep.mpr hc
      cases l' with
      | nil => exact he
      | cons c' l' =>
        obtain ⟨rfl, hrun⟩ := List.cons_prefix_cons.mp hl'
        exact (ih hl.2 (h.run hl.1).1 hfirst).mpr hrest l' hrun

structure Inputs.Registered (S : Inputs H) : Prop where
  tame : S.wild = false
  live : S.running = none → ∀ i ∈ S.glob_inputs, i.id ∉ S.deleted

theorem Inputs.Counted.registered (h : S.Counted) : S.Registered :=
  ⟨h.wild, fun hr i hi => (h.idle i hi (by rw [hr]; exact fun hno => by cases hno)).2⟩

/-- The dispatch is always right, and the unions are exact along a run exactly when no call takes a
descriptor out of them that another input has. -/
theorem inputs_kept {l : List (InputCall H)} (hl : AllSafe (fun S c => (S.run c).2) Inputs.Used Inputs.start l) :
    ((∀ l', l' <+: l → (Inputs.start.after l').Exact) ↔
        AllSafe (fun S c => (S.run c).2) Inputs.Unshared Inputs.start l) ∧
      AllSafe (fun S c => (S.run c).2) Inputs.Dispatched Inputs.start l ∧
      ∀ l', l' <+: l → (Inputs.start.after l').Registered := by
  refine ⟨?_, ?_, fun l' hl' => ?_⟩
  · apply exact_run_iff hl counted_start
    intro k x
    simp [Inputs.start, FD_ZERO]
  · exact hl.imp Inputs.Counted (fun S c h hc => h.run hc) counted_start
  · exact ((hl.start hl').invariant Inputs.Counted (fun S c h hc => (h.run hc).1) counted_start).registered

def twoInputs : List (InputCall Nat) :=
  [.wt_addinput (fun _ => {3}) 1 0, .wt_addinput (fun k => if k = .rd then {3} else ∅) 2 0]

def oneReader : Fds := fun k => if k = .rd then {3} else ∅

def twoReaders : List (InputCall Nat) :=
  [.wt_addinput (fun k => if k = .rd then {4} else ∅) 1 0, .wt_addinput oneReader 2 0,
    .wt_do_input (fun _ => {3, 4}), .wt_delinput 1, .handler_returns (fun _ => {3, 4}),
    .wt_addinput oneReader 3 0, .handler_returns (fun _ => {3, 4})]

theorem twoReaders_kept : (replies Inputs.run Inputs.start twoReaders).map (Option.map input_t.handler) =
        [none, none, some 2, none, some 1, none, none] ∧
      AllSafe (fun S c => (S.run c).2) Inputs.Dispatched Inputs.start twoReaders :=
  ⟨by decide, (inputs_kept (l := twoReaders) (by decide)).2.1⟩

/-- The first input still waits for descriptor 3, but the union has it no more. -/
theorem twoInputs_lost : ¬ (Inputs.start.after (twoInputs ++ [.wt_delinput 1])).Exact := by
  intro h
  have h3 := (h .rd 3).mpr
  revert h3
  decide

end WWindowSystem
