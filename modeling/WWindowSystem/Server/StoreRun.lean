import WWindowSystem.Server.Traverse

namespace WWindowSystem

open Forest

namespace Store

/-- What the server does to the windows. The address `w` of a new window comes from `malloc`. -/
inductive Step : Store → Store → Prop
  | create {s s' : Store} {handle : Nat} {parent w : Addr} {cptr : Nat} {flags : Flags}
      {win : Option Addr} (hp : s.windowLookup handle = some parent) (hw : s.mem w = none)
      (hc : s.createWindow cptr w parent flags = some (win, s')) : Step s s'
  | delete {s s' : Store} {handle : Nat} {r : Int}
      (hd : s.client_delete handle = some (r, s')) : Step s s'
  | to_top {s s' : Store} {handle : Nat} {w : Addr} {r : Int}
      (hw : s.windowLookup handle = some w) (ht : s.window_to_top w = some (r, s')) : Step s s'
  | to_bottom {s s' : Store} {handle : Nat} {w : Addr} {r : Int}
      (hw : s.windowLookup handle = some w) (hb : s.window_to_bottom w = some (r, s')) : Step s s'
  | kill {s s' : Store} {cptr : Nat} (hk : s.windowKillClient cptr = some s') : Step s s'

def Based (val : Addr → Owner) (s : Store) (t : Forest Addr) : Prop :=
  (val s.glob_rootwindow).id = 1 ∧ ∃ b, (b, [s.glob_rootwindow]) ∈ paths [] t ∧ (val b).id = 0

variable {root back : Addr}

theorem window_init_rep {s : Store} (hne : root ≠ back) (h : window_init root back = some s) :
    ∃ val, Rep val s (.node root (.node back .nil .nil) .nil) ∧
      Based val s (.node root (.node back .nil .nil) .nil) := by
  rw [window_init] at h
  obtain ⟨tab, htab, rfl⟩ := Option.map_eq_some_iff.mp h
  obtain ⟨hsound, hnone⟩ := lookup_create htab
  refine ⟨fun a => if a = root then ⟨1, none, 0⟩ else ⟨0, none, 0⟩, ?_, ?_, back, ?_, ?_⟩
  · have h1 : hash_lookup (hash_insert tab 1 root) 0 = none := by
      rw [lookup_insert, if_neg (by decide), hnone]
    constructor
    · exact ⟨_, rfl⟩
    · simp [Linked, first, hne.symm]
    · simp [toList, hne]
    · intro a ha
      simp only [toList, List.append_nil, List.mem_cons, List.not_mem_nil, or_false, not_or] at ha
      simp [ha.1, ha.2]
    · exact sound_insert (sound_insert hsound (hnone 1)) h1
    · intro i a
      simp only [windowLookup, lookup_insert, hnone, toList, List.append_nil, List.mem_cons,
        List.not_mem_nil, or_false]
      by_cases hr : a = root
      · rw [if_pos hr, hr]
        split_ifs with h0 h1
        · simp [h0, hne.symm]
        · simp [h1]
        · simp [Ne.symm h1]
      · rw [if_neg hr]
        split_ifs with h0 h1
        · simp [h0, hr, eq_comm]
        · simp [h1, Ne.symm hr]
        · simp [Ne.symm h0]
    · intro a ha
      split_ifs <;> decide
    · intro a ha hc
      split_ifs at hc <;> exact absurd rfl hc
    · exact (by decide : 0 < 65536)
  · simp
  · simp [paths]
  · simp [hne.symm]

variable {val : Addr → Owner} {s s' : Store} {t : Forest Addr}

theorem Rep.root_mem (h : Rep val s t) : s.glob_rootwindow ∈ t.toList := by
  obtain ⟨cs, rfl⟩ := h.tree
  exact List.mem_cons_self

variable {u : Forest Addr}

theorem Rep.root_eq {val' : Addr → Owner} (h : Rep val s t) (h' : Rep val' s' u)
    (he : first u = first t) : s'.glob_rootwindow = s.glob_rootwindow := by
  obtain ⟨cs, rfl⟩ := h.tree
  obtain ⟨ds, rfl⟩ := h'.tree
  exact Option.some.inj he

variable {a : Addr}

theorem Rep.below (h : Rep val s t) {k : Context Addr} {cs ns : Forest Addr}
    (ht : t = zip k (.node a cs ns)) (ha : a ≠ s.glob_rootwindow) : ∃ p, parentOf k = some p := by
  obtain ⟨ds, hds⟩ := h.tree
  rcases below_root (ht.symm.trans hds) with ⟨-, rfl, -⟩ | ⟨j, rfl⟩
  · exact absurd rfl ha
  · exact parentOf_concat j _ _

theorem Rep.position (h : Rep val s t) (hm : a ∈ t.toList) (ha : a ≠ s.glob_rootwindow) :
    ∃ k p ps cs ns, ∃ l : Forest Addr, t = zip (.parent p ps :: k) (l.append (.node a cs ns)) := by
  obtain ⟨k, cs, ns, ht⟩ := exists_zip hm
  obtain ⟨p, hp⟩ := h.below ht ha
  obtain ⟨j, ps, l, rfl⟩ := exists_past hp
  rw [zip_past] at ht
  exact ⟨j, p, ps, cs, ns, l, ht⟩

theorem Rep.root_cell (h : Rep val s t) : ∃ c, s.mem s.glob_rootwindow = some c ∧ c.parent = none ∧ c.next = none := by
  obtain ⟨cs, rfl⟩ := h.tree
  exact ⟨_, h.linked.1, rfl, rfl⟩

variable {w : Addr}

theorem window_to_top_keep (h : Rep val s t) (hw : w ∈ t.toList) :
    ∃ r s' u, s.window_to_top w = some (r, s') ∧ Rep val s' u ∧
      s'.glob_rootwindow = s.glob_rootwindow ∧ (paths [] u).Perm (paths [] t) := by
  by_cases hr : w = s.glob_rootwindow
  · obtain ⟨c, hc, hp, -⟩ := h.root_cell
    refine ⟨-1, s, t, ?_, h, rfl, .refl _⟩
    simp only [window_to_top, hr, hc, hp, Option.bind_eq_bind, Option.bind_some]
  · obtain ⟨k, p, ps, cs, ns, l, rfl⟩ := h.position hw hr
    obtain ⟨s', hs', hroot, hrep⟩ := window_to_top_rep h
    exact ⟨0, s', _, hs', hrep, hroot, paths_restack _ _ _ _ _⟩

theorem window_to_bottom_keep (h : Rep val s t) (hw : w ∈ t.toList) :
    ∃ r s' u, s.window_to_bottom w = some (r, s') ∧ Rep val s' u ∧
      s'.glob_rootwindow = s.glob_rootwindow ∧ (paths [] u).Perm (paths [] t) := by
  by_cases hr : w = s.glob_rootwindow
  · obtain ⟨c, hc, -, hn⟩ := h.root_cell
    refine ⟨0, s, t, ?_, h, rfl, .refl _⟩
    simp only [window_to_bottom, hr, hc, hn, Option.bind_eq_bind, Option.bind_some,
      Option.isNone_none, if_true]
  · obtain ⟨k, p, ps, cs, ns, l, rfl⟩ := h.position hw hr
    obtain ⟨s', hs', hroot, hrep⟩ := window_to_bottom_rep h
    refine ⟨0, s', _, hs', hrep, hroot, ?_⟩
    have h1 := paths_restack (past (.parent p ps :: k) l) w cs ns .nil
    rw [append_nil, zip_past, zip_past] at h1
    exact h1.symm

theorem window_delete_keep (h : Rep val s t) (hw : w ∈ t.toList) (hr : w ≠ s.glob_rootwindow) :
    ∃ s', s.window_delete w = some (0, s') ∧ s'.glob_rootwindow = s.glob_rootwindow ∧
      Rep val s' (t.prune fun a => a = w) := by
  obtain ⟨k, cs, ns, rfl⟩ := exists_zip hw
  obtain ⟨p, hp⟩ := h.below rfl hr
  obtain ⟨s', hs', hrep⟩ := window_delete_rep h hp
  rw [prune_cut h.nodup]
  exact ⟨s', hs', h.root_eq hrep (first_zip_below hp _ _), hrep⟩

theorem Based.perm (hb : Based val s t)
    (hr : s'.glob_rootwindow = s.glob_rootwindow) (hp : (paths [] u).Perm (paths [] t)) : Based val s' u := by
  obtain ⟨h1, b, hb, h0⟩ := hb
  rw [Based, hr]
  exact ⟨h1, b, hp.mem_iff.mpr hb, h0⟩

theorem Based.prune (hb : Based val s t) {del : Addr → Bool} (hr : s'.glob_rootwindow = s.glob_rootwindow)
    (hd : ∀ a ∈ t.toList, del a = true → 2 ≤ (val a).id) : Based val s' (t.prune del) := by
  obtain ⟨h1, b, hb, h0⟩ := hb
  have hm := mem_of_paths hb
  have hdel : ∀ a ∈ t.toList, (val a).id < 2 → del a = false := by
    intro a hat ha
    cases hda : del a with
    | false => rfl
    | true => exact absurd (hd a hat hda) (by omega)
  have hbt := (hm b List.mem_cons_self).resolve_right List.not_mem_nil
  have hrt := (hm s.glob_rootwindow (List.mem_cons_of_mem _ List.mem_cons_self)).resolve_right
    List.not_mem_nil
  rw [Based, hr]
  refine ⟨h1, b, ?_, h0⟩
  rw [paths_prune t (fun _ h => by cases h), List.mem_filter]
  refine ⟨hb, ?_⟩
  simp [hdel b hbt (by omega), hdel s.glob_rootwindow hrt (by omega)]

theorem Rep.not_owned (h : Rep val s t) (ha : a ∈ t.toList) {cptr : Nat}
    (ho : ownedBy val cptr a = true) : 2 ≤ (val a).id := by
  apply h.clients a ha
  rw [of_decide_eq_true ho]
  exact fun hc => by cases hc

theorem windowKillClient_keep (h : Rep val s t) (hb : Based val s t) (cptr : Nat) :
    ∃ s', s.windowKillClient cptr = some s' ∧ s'.glob_rootwindow = s.glob_rootwindow ∧
      Rep val s' (t.prune (ownedBy val cptr)) := by
  obtain ⟨cs, rfl⟩ := h.tree
  obtain ⟨s', hs', hrep⟩ := windowKillClient_rep cptr h
  have hroot : ownedBy val cptr s.glob_rootwindow = false := by
    cases ho : ownedBy val cptr s.glob_rootwindow with
    | false => rfl
    | true => exact absurd (h.not_owned h.root_mem ho) (by rw [hb.1]; decide)
  have ht : (Forest.node s.glob_rootwindow cs .nil).prune (ownedBy val cptr) =
      .node s.glob_rootwindow (cs.prune (ownedBy val cptr)) .nil := by
    rw [prune, hroot, if_neg Bool.false_ne_true, prune]
  rw [ht]
  exact ⟨s', hs', h.root_eq hrep rfl, hrep⟩

theorem client_delete_keep (h : Rep val s t) (hb : Based val s t) {handle : Nat} {r : Int}
    (hd : s.client_delete handle = some (r, s')) : ∃ u, Rep val s' u ∧ Based val s' u := by
  rw [client_delete] at hd
  split_ifs at hd with hlt
  · cases hd
    exact ⟨t, h, hb⟩
  · cases hl : s.windowLookup handle with
    | none =>
      rw [hl] at hd
      cases hd
      exact ⟨t, h, hb⟩
    | some w =>
      obtain ⟨hw, hid⟩ := (h.table _ _).mp hl
      have hr : w ≠ s.glob_rootwindow := by
        rintro rfl
        rw [hb.1] at hid
        omega
      obtain ⟨c, hc, hcv⟩ := h.linked.mem hw
      obtain ⟨s1, hs1, hroot, hrep⟩ := window_delete_keep h hw hr
      rw [hl] at hd
      simp only [hc, hs1, Option.bind_eq_bind, Option.bind_some] at hd
      split_ifs at hd
      · cases hd
        exact ⟨t, h, hb⟩
      · cases hd
        refine ⟨_, hrep, hb.prune hroot fun a _ ha => ?_⟩
        rw [of_decide_eq_true ha]
        omega

theorem newid_lt {ids : List Nat} {fuel winid id : Nat} (hw : winid < 65536)
    (h : WWindowSystem.newid ids fuel winid = some id) : id < 65536 := by
  induction fuel generalizing winid with
  | zero => cases h
  | succ fuel ih =>
    rw [WWindowSystem.newid] at h
    split_ifs at h
    · exact ih (Nat.mod_lt _ (by decide)) h
    · cases h
      exact hw

theorem Rep.room (h : Rep val s t) {id : Nat} (hid : newid s.wintab 65536 s.winid = some id) :
    t.toList.length < 65536 := by
  rw [newid_eq h] at hid
  have hn : (id :: t.toList.map fun a => (val a).id).Nodup := by
    apply List.nodup_cons.mpr ⟨newid_fresh hid, ?_⟩
    exact h.nodup.map_on fun a ha b hb he => h.inj ha hb he
  have hs : (id :: t.toList.map fun a => (val a).id) ⊆ List.range 65536 := by
    intro i hi
    rcases List.mem_cons.mp hi with rfl | hi
    · exact List.mem_range.mpr (newid_lt h.winid hid)
    · obtain ⟨a, ha, rfl⟩ := List.mem_map.mp hi
      exact List.mem_range.mpr (h.ids a ha)
  have hl := (List.subperm_of_subset hn hs).length_le
  rw [List.length_cons, List.length_map, List.length_range] at hl
  exact hl

theorem createWindow_keep (h : Rep val s t) (hb : Based val s t) {p w : Addr} (cptr : Nat)
    (flags : Flags) (hp : p ∈ t.toList) (hw : s.mem w = none) (hl : t.toList.length < 65536)
    (ht : ¬(flags.has W_TOP && s.topWindow.isSome)) :
    ∃ id s' u, s.createWindow cptr w p flags = some (some w, s') ∧ s.windowLookup id = none ∧
      Rep (Function.update val w ⟨id, some cptr, flags⟩) s' u ∧
      Based (Function.update val w ⟨id, some cptr, flags⟩) s' u ∧
      ∃ l, (paths [] u).Perm ((w, p :: l) :: paths [] t) ∧ (p, l) ∈ paths [] t := by
  obtain ⟨h1, b, hbm, h0⟩ := id hb
  have hwt := h.fresh hw
  have hbt := (mem_of_paths hbm b List.mem_cons_self).resolve_right List.not_mem_nil
  have hbw : b ≠ w := fun he => hwt (he ▸ hbt)
  have hrw : s.glob_rootwindow ≠ w := fun he => hwt (he ▸ h.root_mem)
  obtain ⟨k, cs, ns, rfl⟩ := exists_zip hp
  have hl0 : s.windowLookup 0 ≠ none := by
    rw [(h.table 0 b).mpr ⟨hbt, h0⟩]
    exact fun hc => by cases hc
  have hl1 : s.windowLookup 1 ≠ none := by
    rw [(h.table 1 _).mpr ⟨h.root_mem, h1⟩]
    exact fun hc => by cases hc
  obtain ⟨id, s', hs', hnone, hroot, hrep⟩ := createWindow_rep cptr h hw hl ht hl0 hl1
  have hperm := paths_push k p w ns cs
  refine ⟨id, s', _, hs', hnone, hrep, ?_, ancestors k, hperm, mem_paths_of_zip rfl⟩
  rw [Based, hroot, Function.update_of_ne hrw]
  refine ⟨h1, b, hperm.mem_iff.mpr (List.mem_cons_of_mem _ hbm), ?_⟩
  rw [Function.update_of_ne hbw]
  exact h0

theorem step_rep (h : Rep val s t) (hb : Based val s t) (hs : Step s s') :
    ∃ val' u, Rep val' s' u ∧ Based val' s' u := by
  cases hs with
  | @create handle parent w cptr flags win hp hw hc =>
    by_cases ht : flags.has W_TOP && s.topWindow.isSome
    · rw [createWindow, window_create, if_pos ht] at hc
      cases hc
      exact ⟨val, t, h, hb⟩
    · cases hid : newid s.wintab 65536 s.winid with
      | none =>
        rw [createWindow, window_create, if_neg ht] at hc
        simp only [window_newid, hid, Option.map_none, Option.bind_eq_bind, Option.bind_none] at hc
        cases hc
      | some id =>
        obtain ⟨_, s1, u, hs1, -, hrep, hbased, -⟩ :=
          createWindow_keep h hb cptr flags ((h.table _ _).mp hp).1 hw (h.room hid) ht
        rw [hs1] at hc
        cases hc
        exact ⟨_, u, hrep, hbased⟩
  | delete hd =>
    obtain ⟨u, hrep, hbased⟩ := client_delete_keep h hb hd
    exact ⟨val, u, hrep, hbased⟩
  | to_top hw ht =>
    obtain ⟨r, s1, u, hs1, hrep, hroot, hp⟩ := window_to_top_keep h ((h.table _ _).mp hw).1
    rw [hs1] at ht
    cases ht
    exact ⟨val, u, hrep, hb.perm hroot hp⟩
  | to_bottom hw ht =>
    obtain ⟨r, s1, u, hs1, hrep, hroot, hp⟩ := window_to_bottom_keep h ((h.table _ _).mp hw).1
    rw [hs1] at ht
    cases ht
    exact ⟨val, u, hrep, hb.perm hroot hp⟩
  | @kill cptr hk =>
    obtain ⟨s1, hs1, hroot, hrep⟩ := windowKillClient_keep h hb cptr
    rw [hs1] at hk
    cases hk
    exact ⟨val, _, hrep, hb.prune hroot fun a ha ho => h.not_owned ha ho⟩

theorem run_rep {s0 : Store} (hne : root ≠ back)
    (hi : window_init root back = some s0) (hr : Relation.ReflTransGen Step s0 s) :
    ∃ val t, Rep val s t ∧ Based val s t := by
  induction hr with
  | refl =>
    obtain ⟨val, h, hb⟩ := window_init_rep hne hi
    exact ⟨val, _, h, hb⟩
  | tail _ hs ih =>
    obtain ⟨val, t, h, hb⟩ := ih
    exact step_rep h hb hs

/-- What the operations of `window.c` do to a tree of windows that agrees with the table. -/
structure Kept (val : Addr → Owner) (s : Store) (t : Forest Addr) : Prop where
  create : ∀ w parent flags, parent ∈ t.toList → s.mem w = none → t.toList.length < 65536 →
    ∃ win s' val' u, s.window_create w parent flags = some (win, s') ∧ Rep val' s' u ∧
      (∀ a ∈ t.toList, val' a = val a) ∧
      (win = none ∧ u = t ∨ win = some w ∧ ∃ l,
        (paths [] u).Perm ((w, parent :: l) :: paths [] t) ∧ (parent, l) ∈ paths [] t)
  delete : ∀ w ∈ t.toList, w ≠ s.glob_rootwindow →
    ∃ s' u, s.window_delete w = some (0, s') ∧ Rep val s' u ∧
      paths [] u = (paths [] t).filter fun p => (p.1 :: p.2).all fun a => a ≠ w
  to_top : ∀ w ∈ t.toList, ∃ r s' u, s.window_to_top w = some (r, s') ∧ Rep val s' u ∧
    (paths [] u).Perm (paths [] t)
  to_bottom : ∀ w ∈ t.toList, ∃ r s' u, s.window_to_bottom w = some (r, s') ∧ Rep val s' u ∧
    (paths [] u).Perm (paths [] t)
  kill : ∀ cptr, ∃ s' u, s.windowKillClient cptr = some s' ∧ Rep val s' u ∧
    paths [] u = (paths [] t).filter fun p => (p.1 :: p.2).all fun a => (val a).cptr ≠ some cptr
  newid : t.toList.length < 65536 → ∃ id, s.windowLookup id = none ∧
    s.window_newid = some (id, { s with winid := (id + 1) % 65536 })

theorem Rep.kept (h : Rep val s t) (hb : Based val s t) : Kept val s t := by
  constructor
  · intro w p flags hp hw hl
    by_cases ht : flags.has W_TOP && s.topWindow.isSome
    · exact ⟨none, s, val, t, by rw [window_create, if_pos ht], h, fun _ _ => rfl, .inl ⟨rfl, rfl⟩⟩
    · obtain ⟨k, cs, ns, rfl⟩ := exists_zip hp
      obtain ⟨id, s', hs', -, -, hrep⟩ := window_create_rep h hw hl ht
      exact ⟨some w, s', _, _, hs', hrep,
        fun a ha => Function.update_of_ne (fun he : a = w => h.fresh hw (he ▸ ha)) _ _,
        .inr ⟨rfl, ancestors k, paths_push k p w ns cs, mem_paths_of_zip rfl⟩⟩
  · intro w hw hr
    obtain ⟨s', hs', -, hrep⟩ := window_delete_keep h hw hr
    refine ⟨s', _, hs', hrep, ?_⟩
    rw [paths_prune t fun _ h => by cases h]
    simp only [decide_not]
  · intro w hw
    obtain ⟨r, s', u, hs', hrep, -, hp⟩ := window_to_top_keep h hw
    exact ⟨r, s', u, hs', hrep, hp⟩
  · intro w hw
    obtain ⟨r, s', u, hs', hrep, -, hp⟩ := window_to_bottom_keep h hw
    exact ⟨r, s', u, hs', hrep, hp⟩
  · intro cptr
    obtain ⟨s', hs', -, hrep⟩ := windowKillClient_keep h hb cptr
    refine ⟨s', _, hs', hrep, ?_⟩
    rw [paths_prune t fun _ h => by cases h]
    simp only [decide_not, ownedBy]
  · intro hl
    obtain ⟨id, -, hid, hnone⟩ := window_newid_rep h hl
    refine ⟨id, hnone, ?_⟩
    rw [window_newid, hid, Option.map_some]

theorem wintab_agrees {root back : Addr} {s0 : Store} (hne : root ≠ back)
    (hi : window_init root back = some s0) (hr : Relation.ReflTransGen Step s0 s) :
    ∃ val t, (∃ cs, t = .node s.glob_rootwindow cs .nil) ∧ Linked s.mem val none none t ∧
      t.toList.Nodup ∧ (∀ a, s.mem a ≠ none ↔ a ∈ t.toList) ∧
      (∀ id a, s.windowLookup id = some a ↔ a ∈ t.toList ∧ (val a).id = id) ∧
      (t.toList.map fun a => (val a).id).Nodup ∧ Kept val s t := by
  obtain ⟨val, t, h, hb⟩ := run_rep hne hi hr
  refine ⟨val, t, h.tree, h.linked, h.nodup, fun a => ⟨fun ha => ?_, fun ha hn => ?_⟩, h.table,
    h.nodup.map_on fun a ha b hb he => h.inj ha hb he, h.kept hb⟩
  · by_contra hm
    exact ha (h.dead a hm)
  · obtain ⟨c, hc, -⟩ := h.linked.mem ha
    rw [hn] at hc
    cases hc

theorem wintab_agrees_created : ∃ s0 s, window_init 0 1 = some s0 ∧ Step s0 s ∧
    ∃ val t, Linked s.mem val none none t ∧ 2 ∈ t.toList ∧ (val 2).cptr = some 5 ∧ Kept val s t := by
  obtain ⟨s0, hi⟩ : ∃ s0, window_init 0 1 = some s0 := ⟨_, rfl⟩
  obtain ⟨val, h, hb⟩ := window_init_rep (by decide) hi
  have hmem : s0.mem 2 = none := by
    cases hi
    rfl
  have htop : s0.topWindow = none := by
    cases hi
    rfl
  obtain ⟨id, s, u, hs, -, hrep, -, l, hp, -⟩ := createWindow_keep h hb 5 0 (p := 1) (w := 2)
    (by decide) hmem (by decide) (by rw [htop]; decide)
  have hlook : s0.windowLookup (val 1).id = some 1 := (h.table _ _).mpr ⟨by decide, rfl⟩
  have hstep : Step s0 s := .create hlook hmem hs
  obtain ⟨val', t, htree, hl, hn, hlive, htab, hids, hk⟩ :=
    wintab_agrees (by decide) hi (.single hstep)
  have hm : 2 ∈ u.toList :=
    (mem_of_paths (hp.mem_iff.mpr List.mem_cons_self) 2 List.mem_cons_self).resolve_right
      List.not_mem_nil
  obtain ⟨c, hc, hcv⟩ := hrep.linked.mem hm
  have hmt : 2 ∈ t.toList := (hlive 2).mp (by rw [hc]; exact fun h => by cases h)
  obtain ⟨c', hc', hcv'⟩ := hl.mem hmt
  rw [hc] at hc'
  cases hc'
  refine ⟨s0, s, hi, hstep, val', t, hl, hmt, ?_, hk⟩
  rw [← hcv', hcv, Function.update_self]

end Store

end WWindowSystem
