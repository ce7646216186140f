import WWindowSystem.Wt.Inputs

namespace WWindowSystem

open List

variable {H : Type} {S : Inputs H} {l : List (input_t H)} {handle : Int} {ready : Fds}

structure Inputs.Counted (S : Inputs H) : Prop where
  newest : Newest S.glob_inputs
  bound : ∀ i ∈ S.glob_inputs, i.id < S.theid
  gone : ∀ h ∈ S.deleted, h < S.theid
  wild : S.wild = false
  idle : ∀ i ∈ S.glob_inputs, S.running ≠ some i.id → i.refcnt = 1 ∧ i.id ∉ S.deleted
  busy : ∀ id, S.running = some id → ∃ i ∈ S.glob_inputs, i.id = id ∧
    (i.refcnt = 2 ∧ id ∉ S.deleted ∨ i.refcnt = 1 ∧ id ∈ S.deleted)
  turn : ∀ id, S.running = some id → id ∈ S.present ∧ ∀ c ∈ S.called, id ≤ c
  once : S.called.Nodup
  old : ∀ i ∈ S.glob_inputs, i.id ∈ S.present ∨ ∀ p ∈ S.present, p < i.id
  before : ∀ p ∈ S.present, p < S.theid

theorem counted_start : (Inputs.start : Inputs H).Counted where
  newest := List.Pairwise.nil
  bound := fun i hi => by cases hi
  gone := fun h hh => by cases hh
  wild := rfl
  idle := fun i hi => by cases hi
  busy := fun id hid => by cases hid
  turn := fun id hid => by cases hid
  once := nodup_nil
  old := fun i hi => by cases hi
  before := fun p hp => by cases hp

theorem Inputs.Counted.add (h : S.Counted) (sets : Fds) (f : H) (arg : Int) : (S.wt_addinput sets f arg).2.Counted := by
  have hrun : S.running ≠ some S.theid := by
    intro hr
    obtain ⟨i, hi, hid, -⟩ := h.busy S.theid hr
    have := h.bound i hi
    omega
  refine ⟨?_, ?_, ?_, h.wild, ?_, ?_, h.turn, h.once, ?_, ?_⟩
  · apply pairwise_cons.mpr
    refine ⟨fun id hid => ?_, h.newest⟩
    obtain ⟨i, hi, rfl⟩ := mem_map.mp hid
    exact h.bound i hi
  · intro i hi
    change i.id < S.theid + 1
    rcases mem_cons.mp hi with rfl | hi
    · exact Int.lt_succ _
    · have := h.bound i hi
      omega
  · intro d hd
    have := h.gone d hd
    change d < S.theid + 1
    omega
  · intro i hi hr
    rcases mem_cons.mp hi with rfl | hi
    · refine ⟨rfl, fun hd => ?_⟩
      have := h.gone S.theid hd
      omega
    · exact h.idle i hi hr
  · intro id hid
    obtain ⟨i, hi, hi'⟩ := h.busy id hid
    exact ⟨i, mem_cons_of_mem _ hi, hi'⟩
  · intro i hi
    rcases mem_cons.mp hi with rfl | hi
    · exact Or.inr h.before
    · exact h.old i hi
  · intro p hp
    have := h.before p hp
    change p < S.theid + 1
    omega

theorem keepsId_release : KeepsId (H := H) input_t.release := by
  intro i j hj
  unfold input_t.release at hj
  split_ifs at hj
  cases hj
  rfl

theorem Newest.find_id (h : Newest l) {i : input_t H} (hi : i ∈ l) : l.find? (fun this => this.id = i.id) = some i := by
  cases hf : l.find? (fun this => this.id = i.id) with
  | none => exact absurd rfl (find_id_none hf i hi)
  | some this =>
    obtain ⟨hthis, hid⟩ := find_id_some hf
    rw [h.eq_of_id hthis hi hid]

theorem Newest.mem_release (h : Newest l) {this : input_t H} (hthis : this ∈ l) (j : input_t H) :
    j ∈ onInput this.id input_t.release l ↔
      (j ∈ l ∧ j.id ≠ this.id) ∨ (1 < this.refcnt ∧ j = { this with refcnt := this.refcnt - 1 }) := by
  rw [mem_onInput h]
  apply or_congr_right
  constructor
  · rintro ⟨i, hi, hid, hr⟩
    obtain rfl := h.eq_of_id hi hthis hid
    unfold input_t.release at hr
    split_ifs at hr with hle
    cases hr
    exact ⟨by omega, rfl⟩
  · rintro ⟨hlt, rfl⟩
    refine ⟨this, hthis, rfl, ?_⟩
    unfold input_t.release
    rw [if_neg (by omega)]

theorem Inputs.Counted.delete (h : S.Counted) (hd : handle ∉ S.deleted) : (S.run (.wt_delinput handle)).2.Counted := by
  unfold Inputs.run Inputs.wt_delinput
  dsimp only
  cases hf : S.glob_inputs.find? (fun this => this.id = handle) with
  | none =>
    have hno : handle ∉ S.glob_inputs.map input_t.id := by
      intro hmem
      obtain ⟨i, hi, hid⟩ := mem_map.mp hmem
      exact find_id_none hf i hi hid
    rw [if_neg hno]
    exact h
  | some this =>
    obtain ⟨hthis, rfl⟩ := find_id_some hf
    have hmem := h.newest.mem_release hthis
    have hsub : ∀ i ∈ onInput this.id input_t.release S.glob_inputs, ∃ j ∈ S.glob_inputs, j.id = i.id := by
      intro i hi
      rcases (hmem i).mp hi with ⟨hi, -⟩ | ⟨-, rfl⟩
      · exact ⟨i, hi, rfl⟩
      · exact ⟨this, hthis, rfl⟩
    rw [if_pos (mem_map_of_mem hthis)]
    refine ⟨h.newest.sub keepsId_release, ?_, ?_, h.wild, ?_, ?_, h.turn, h.once, ?_, h.before⟩
    · intro i hi
      obtain ⟨j, hj, hid⟩ := hsub i hi
      have := h.bound j hj
      dsimp only
      omega
    · intro d hd'
      rcases mem_cons.mp hd' with rfl | hd'
      · exact h.bound this hthis
      · exact h.gone d hd'
    · intro i hi hr
      rcases (hmem i).mp hi with ⟨hi, hne⟩ | ⟨hlt, rfl⟩
      · obtain ⟨h1, h2⟩ := h.idle i hi hr
        exact ⟨h1, fun hd' => (mem_cons.mp hd').elim hne h2⟩
      · have := h.idle this hthis hr
        omega
    · intro id hid
      obtain ⟨i, hi, rfl, hcount⟩ := h.busy id hid
      by_cases hne : i.id = this.id
      · obtain rfl := h.newest.eq_of_id hi hthis hne
        rcases hcount with ⟨h2, -⟩ | ⟨-, hdel⟩
        · exact ⟨_, (hmem _).mpr (Or.inr ⟨by omega, rfl⟩), rfl, Or.inr ⟨by dsimp only; omega, mem_cons_self⟩⟩
        · exact absurd hdel hd
      · refine ⟨i, (hmem i).mpr (Or.inl ⟨hi, hne⟩), rfl, ?_⟩
        rcases hcount with ⟨h2, hno⟩ | ⟨h1, hdel⟩
        · exact Or.inl ⟨h2, fun hd' => (mem_cons.mp hd').elim hne hno⟩
        · exact Or.inr ⟨h1, mem_cons_of_mem _ hdel⟩
    · intro i hi
      obtain ⟨j, hj, hid⟩ := hsub i hi
      rw [← hid]
      exact h.old j hj

theorem Inputs.Counted.change (h : S.Counted) (handle : Int) (sets : Fds) : (S.wt_chginput handle sets).Counted := by
  unfold Inputs.wt_chginput
  cases hf : S.glob_inputs.find? (fun this => this.id = handle) with
  | none => exact h
  | some this =>
    have hkeep : KeepsId (H := H) fun this => some { this with sets } := by
      intro i j hj
      cases hj
      rfl
    have hsub : ∀ i ∈ onInput handle (fun this => some { this with sets }) S.glob_inputs,
        ∃ j ∈ S.glob_inputs, j.id = i.id ∧ j.refcnt = i.refcnt := by
      intro i hi
      rcases (mem_onInput h.newest i).mp hi with ⟨hi, -⟩ | ⟨j, hj, -, hs⟩
      · exact ⟨i, hi, rfl, rfl⟩
      · cases hs
        exact ⟨j, hj, rfl, rfl⟩
    refine ⟨h.newest.sub hkeep, ?_, h.gone, h.wild, ?_, ?_, h.turn, h.once, ?_, h.before⟩
    · intro i hi
      obtain ⟨j, hj, hid, -⟩ := hsub i hi
      rw [← hid]
      exact h.bound j hj
    · intro i hi hr
      obtain ⟨j, hj, hid, hcnt⟩ := hsub i hi
      rw [← hid, ← hcnt]
      exact h.idle j hj (hid ▸ hr)
    · intro id hid
      obtain ⟨i, hi, rfl, hcount⟩ := h.busy id hid
      by_cases hne : i.id = handle
      · exact ⟨{ i with sets }, (mem_onInput h.newest _).mpr (Or.inr ⟨i, hi, hne, rfl⟩), rfl, hcount⟩
      · exact ⟨i, (mem_onInput h.newest i).mpr (Or.inl ⟨hi, hne⟩), rfl, hcount⟩
    · intro i hi
      obtain ⟨j, hj, hid, -⟩ := hsub i hi
      rw [← hid]
      exact h.old j hj

/-- What the call of a handler promises: the input is alive, it was there when `wt_do_input` started,
it is ready, and `wt_do_input` has not called its handler before. -/
structure Inputs.Called (S : Inputs H) (ready : Fds) (ip : input_t H) : Prop where
  alive : ip.id ∈ S.glob_inputs.map input_t.id
  live : ip.id ∉ S.deleted
  present : ip.id ∈ S.present
  ready : wt_fdset_isset ip.sets ready = true
  once : ∃ before, S.called = ip.id :: before ∧ ip.id ∉ before

theorem Inputs.Counted.dispatch (h : Inputs.Counted { S with running := none })
    (hl : ∀ i ∈ l, i ∈ S.glob_inputs ∧ i.id ∈ S.present ∧ ∀ c ∈ S.called, i.id < c) :
    (S.dispatch ready l).2.Counted ∧
      ∀ ip, (S.dispatch ready l).1 = some ip → (S.dispatch ready l).2.Called ready ip := by
  unfold Inputs.dispatch
  cases hf : l.find? (fun ip => wt_fdset_isset ip.sets ready) with
  | none => exact ⟨h, fun ip hip => by cases hip⟩
  | some ip =>
    obtain ⟨hip, hpresent, hturn⟩ := hl ip (mem_of_find?_eq_some hf)
    have hready : wt_fdset_isset ip.sets ready = true := by
      simpa using find?_some hf
    have hnot : ip.id ∉ S.called := fun hc => Int.lt_irrefl _ (hturn ip.id hc)
    have hids : ids (onInput ip.id (fun ip => some { ip with refcnt := ip.refcnt + 1 }) S.glob_inputs) =
        ids S.glob_inputs := map_onInput input_t.id _ fun _ => rfl
    have hcount := h.idle ip hip (fun hno => by cases hno)
    have hsub : ∀ i ∈ onInput ip.id (fun ip => some { ip with refcnt := ip.refcnt + 1 }) S.glob_inputs,
        (i ∈ S.glob_inputs ∧ i.id ≠ ip.id) ∨ i = { ip with refcnt := ip.refcnt + 1 } := by
      intro i hi
      rcases (mem_onInput h.newest i).mp hi with hi | ⟨j, hj, hid, hs⟩
      · exact Or.inl hi
      · obtain rfl := h.newest.eq_of_id hj hip hid
        cases hs
        exact Or.inr rfl
    constructor
    · refine ⟨?_, ?_, h.gone, h.wild, ?_, ?_, ?_, nodup_cons.mpr ⟨hnot, h.once⟩, ?_, h.before⟩
      · unfold Newest
        rw [hids]
        exact h.newest
      · intro i hi
        rcases hsub i hi with ⟨hi, -⟩ | rfl
        · exact h.bound i hi
        · exact h.bound ip hip
      · intro i hi hr
        rcases hsub i hi with ⟨hi, -⟩ | rfl
        · exact h.idle i hi (fun hno => by cases hno)
        · exact absurd rfl hr
      · intro id hid
        cases hid
        refine ⟨{ ip with refcnt := ip.refcnt + 1 }, (mem_onInput h.newest _).mpr (Or.inr ⟨ip, hip, rfl, rfl⟩), rfl,
          Or.inl ⟨?_, hcount.2⟩⟩
        dsimp only
        omega
      · intro id hid
        cases hid
        refine ⟨hpresent, fun c hc => ?_⟩
        rcases mem_cons.mp hc with rfl | hc
        · exact le_refl _
        · exact (hturn c hc).le
      · intro i hi
        rcases hsub i hi with ⟨hi, -⟩ | rfl
        · exact h.old i hi
        · exact Or.inl hpresent
    · intro ip' hip'
      cases hip'
      refine ⟨?_, hcount.2, hpresent, hready, S.called, rfl, hnot⟩
      change ip.id ∈ ids _
      rw [hids]
      exact mem_ids hip

theorem Inputs.Counted.do_input (h : S.Counted) (hr : S.running = none) (ready : Fds) :
    (S.wt_do_input ready).2.Counted ∧
      ∀ ip, (S.wt_do_input ready).1 = some ip → (S.wt_do_input ready).2.Called ready ip := by
  apply Inputs.Counted.dispatch
  · refine ⟨h.newest, h.bound, h.gone, h.wild, ?_, ?_, ?_, nodup_nil, ?_, ?_⟩
    · intro i hi _
      apply h.idle i hi
      rw [hr]
      exact fun hno => by cases hno
    · intro id hid
      cases hid
    · intro id hid
      cases hid
    · exact fun i hi => Or.inl (mem_map_of_mem hi)
    · intro p hp
      obtain ⟨i, hi, rfl⟩ := mem_map.mp hp
      exact h.bound i hi
  · intro i hi
    exact ⟨hi, mem_map_of_mem hi, fun c hc => by cases hc⟩

theorem Newest.link (h : Newest S.glob_inputs) {i : input_t H} (hi : i ∈ S.glob_inputs) :
    ∃ next, S.link i.id = i :: next ∧ ∀ j ∈ next, j ∈ S.glob_inputs ∧ j.id < i.id := by
  unfold Inputs.link
  obtain ⟨pre, post, hs⟩ := append_of_mem hi
  rw [hs] at h ⊢
  have hids := h
  unfold Newest ids at hids
  rw [map_append, map_cons, pairwise_append] at hids
  obtain ⟨-, hpost, hpre⟩ := hids
  refine ⟨post, ?_, fun j hj => ⟨mem_append_right pre (mem_cons_of_mem i hj), ?_⟩⟩
  · rw [dropWhile_append_of_pos]
    · rw [dropWhile_cons_of_neg]
      simp
    · intro j hj
      have hlt := hpre j.id (mem_map_of_mem hj) i.id mem_cons_self
      simpa using Int.ne_of_gt hlt
  · exact (pairwise_cons.mp hpost).1 j.id (mem_map_of_mem hj)

def Inputs.finish (S : Inputs H) (ip : input_t H) : Inputs H :=
  let S' : Inputs H := { S with
    glob_inputs := onInput ip.id (fun ip => some { ip with refcnt := ip.refcnt - 1 }) S.glob_inputs }
  if ip.refcnt - 1 ≤ 0 then S'.wt_delinput ip.id else S'

theorem Inputs.Counted.mem_finish (h : S.Counted) {ip : input_t H} (hip : ip ∈ S.glob_inputs)
    (hcount : ip.refcnt = 2 ∧ ip.id ∉ S.deleted ∨ ip.refcnt = 1 ∧ ip.id ∈ S.deleted) :
    Newest (S.finish ip).glob_inputs ∧ (∀ j, j ∈ (S.finish ip).glob_inputs ↔ (j ∈ S.glob_inputs ∧ j.id ≠ ip.id) ∨
      (ip.id ∉ S.deleted ∧ j = { ip with refcnt := 1 })) ∧
    S.finish ip = { S with
      glob_inputs := (S.finish ip).glob_inputs
      glob_fdset := if ip.refcnt ≤ 1 then wt_fdset_clr S.glob_fdset ip.sets else S.glob_fdset } := by
  have hnew : Newest (onInput ip.id (fun ip => some { ip with refcnt := ip.refcnt - 1 }) S.glob_inputs) := by
    have hids : ids (onInput ip.id (fun ip => some { ip with refcnt := ip.refcnt - 1 }) S.glob_inputs) =
        ids S.glob_inputs := map_onInput input_t.id _ fun _ => rfl
    unfold Newest
    rw [hids]
    exact h.newest
  have hmem (j : input_t H) : j ∈ onInput ip.id (fun ip => some { ip with refcnt := ip.refcnt - 1 }) S.glob_inputs ↔
      (j ∈ S.glob_inputs ∧ j.id ≠ ip.id) ∨ j = { ip with refcnt := ip.refcnt - 1 } := by
    rw [mem_onInput h.newest]
    apply or_congr_right
    constructor
    · rintro ⟨i, hi, hid, hs⟩
      obtain rfl := h.newest.eq_of_id hi hip hid
      cases hs
      rfl
    · rintro rfl
      exact ⟨ip, hip, rfl, rfl⟩
  unfold Inputs.finish
  dsimp only
  rcases hcount with ⟨h2, hno⟩ | ⟨h1, hdel⟩
  · rw [if_neg (by omega), if_neg (by omega)]
    refine ⟨hnew, fun j => ?_, rfl⟩
    rw [hmem, h2]
    simp [hno]
  · have hthis := (hmem _).mpr (Or.inr rfl)
    have hfind := hnew.find_id hthis
    rw [if_pos (by omega), if_pos (by omega)]
    unfold Inputs.wt_delinput
    dsimp only at hfind ⊢
    rw [hfind]
    dsimp only
    refine ⟨hnew.sub keepsId_release, fun j => ?_, ?_⟩
    · have hrel := hnew.mem_release hthis j
      dsimp only at hrel
      rw [hrel, hmem, h1]
      constructor
      · rintro (⟨hj | rfl, hne⟩ | ⟨hlt, -⟩)
        · exact Or.inl hj
        · exact absurd rfl hne
        · omega
      · rintro (hj | ⟨hno, -⟩)
        · exact Or.inl ⟨Or.inl hj, hj.2⟩
        · exact absurd hdel hno
    · rw [if_pos (by omega)]

theorem handler_returns_eq {id : Int} (hr : S.running = some id) {ip : input_t H} {next : List (input_t H)}
    (hlink : S.link id = ip :: next) (hid : ip.id = id) :
    S.handler_returns ready = (S.finish ip).proceed ready (next.head?.map input_t.id) := by
  subst hid
  unfold Inputs.handler_returns Inputs.finish
  dsimp only
  rw [hr]
  dsimp only
  rw [hlink]

theorem Inputs.Counted.returns (h : S.Counted) (ready : Fds) : (S.handler_returns ready).2.Counted ∧
      ∀ ip, (S.handler_returns ready).1 = some ip → (S.handler_returns ready).2.Called ready ip := by
  cases hr : S.running with
  | none =>
    unfold Inputs.handler_returns
    rw [hr]
    exact ⟨h, fun ip hip => by cases hip⟩
  | some id =>
    obtain ⟨ip, hip, rfl, hcount⟩ := h.busy id hr
    obtain ⟨next, hlink, hnext⟩ := h.newest.link hip
    obtain ⟨hturn, hcalled⟩ := h.turn ip.id hr
    rw [handler_returns_eq hr hlink rfl]
    obtain ⟨hnew, hmem, heq⟩ := h.mem_finish hip hcount
    have hS : Inputs.Counted { S.finish ip with running := none } := by
      have hsub : ∀ i ∈ (S.finish ip).glob_inputs, ∃ j ∈ S.glob_inputs, j.id = i.id := by
        intro i hi
        rcases (hmem i).mp hi with ⟨hi, -⟩ | ⟨-, rfl⟩
        · exact ⟨i, hi, rfl⟩
        · exact ⟨ip, hip, rfl⟩
      have hidle : ∀ i ∈ (S.finish ip).glob_inputs, i.refcnt = 1 ∧ i.id ∉ S.deleted := by
        intro i hi
        rcases (hmem i).mp hi with ⟨hi, hne⟩ | ⟨hno, rfl⟩
        · apply h.idle i hi
          rw [hr]
          exact fun hs => hne (Option.some.inj hs).symm
        · exact ⟨rfl, hno⟩
      rw [heq]
      refine ⟨hnew, ?_, h.gone, h.wild, fun i hi _ => hidle i hi, ?_, ?_, h.once, ?_, h.before⟩
      · intro i hi
        obtain ⟨j, hj, hid⟩ := hsub i hi
        rw [← hid]
        exact h.bound j hj
      · intro id hid
        cases hid
      · intro id hid
        cases hid
      · intro i hi
        obtain ⟨j, hj, hid⟩ := hsub i hi
        rw [← hid]
        exact h.old j hj
    have hpresent : (S.finish ip).present = S.present := by rw [heq]
    have hcalled' : (S.finish ip).called = S.called := by rw [heq]
    have hready : ∀ i ∈ S.glob_inputs, i.id < ip.id → i.id ∈ (S.finish ip).present ∧
        ∀ c ∈ (S.finish ip).called, i.id < c := by
      intro i hi hlt
      rw [hpresent, hcalled']
      refine ⟨?_, fun c hc => lt_of_lt_of_le hlt (hcalled c hc)⟩
      rcases h.old i hi with hold | hyoung
      · exact hold
      · have := hyoung ip.id hturn
        omega
    unfold Inputs.proceed
    cases next with
    | nil => exact hS.dispatch fun i hi => by cases hi
    | cons n next =>
      obtain ⟨hn, hlt⟩ := hnext n mem_cons_self
      have hn' : n ∈ (S.finish ip).glob_inputs := (hmem n).mpr (Or.inl ⟨hn, Int.ne_of_lt hlt⟩)
      obtain ⟨rest, hlink', hrest⟩ := Newest.link hnew hn'
      dsimp only [head?_cons, Option.map_some]
      rw [hlink']
      apply hS.dispatch
      intro i hi
      have hi' : i ∈ (S.finish ip).glob_inputs ∧ i.id ≤ n.id := by
        rcases mem_cons.mp hi with rfl | hi
        · exact ⟨hn', le_refl _⟩
        · obtain ⟨h1, h2⟩ := hrest i hi
          exact ⟨h1, h2.le⟩
      refine ⟨hi'.1, ?_⟩
      rcases (hmem i).mp hi'.1 with ⟨hi'', -⟩ | ⟨-, rfl⟩
      · exact hready i hi'' (lt_of_le_of_lt hi'.2 hlt)
      · have := hi'.2
        dsimp only at this
        omega

def Inputs.Dispatched (S : Inputs H) : InputCall H → Prop
  | .wt_do_input ready => ∀ ip, (S.wt_do_input ready).1 = some ip → (S.wt_do_input ready).2.Called ready ip
  | .handler_returns ready =>
    ∀ ip, (S.handler_returns ready).1 = some ip → (S.handler_returns ready).2.Called ready ip
  | _ => True

theorem Inputs.Counted.run (h : S.Counted) {c : InputCall H} (hc : S.Used c) :
    (S.run c).2.Counted ∧ S.Dispatched c := by
  cases c with
  | wt_addinput sets f arg => exact ⟨h.add sets f arg, trivial⟩
  | wt_delinput handle => exact ⟨h.delete hc, trivial⟩
  | wt_chginput handle sets => exact ⟨h.change handle sets, trivial⟩
  | wt_do_input ready => exact h.do_input hc ready
  | handler_returns ready => exact h.returns ready

end WWindowSystem
