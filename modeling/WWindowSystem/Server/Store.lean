import Mathlib.Data.List.Perm.Subperm
import WWindowSystem.Library.Paths
import WWindowSystem.Server.Wtree

namespace WWindowSystem

structure Hashtab (β : Type) where
  size : Nat
  size_pos : 0 < size
  bucks : Fin size → List (Nat × β)

def hashtab_create (β : Type) (size : Nat) : Option (Hashtab β) :=
  if h : 0 < size then some ⟨size, h, fun _ => []⟩ else none

variable {β : Type}

def Hashtab.index (htab : Hashtab β) (key : Nat) : Fin htab.size :=
  ⟨key % htab.size, Nat.mod_lt _ htab.size_pos⟩

def hash_insert (htab : Hashtab β) (key : Nat) (val : β) : Hashtab β :=
  let i := htab.index key
  { htab with bucks := Function.update htab.bucks i ((key, val) :: htab.bucks i) }

def hash_delete (htab : Hashtab β) (key : Nat) : Hashtab β :=
  let i := htab.index key
  { htab with bucks := Function.update htab.bucks i ((htab.bucks i).eraseP fun n => n.1 = key) }

def hash_lookup (htab : Hashtab β) (key : Nat) : Option β :=
  ((htab.bucks (htab.index key)).find? fun n => n.1 = key).map Prod.snd

def Hashtab.Sound (htab : Hashtab β) : Prop := ∀ i, ((htab.bucks i).map Prod.fst).Nodup

variable {htab : Hashtab β}

theorem lookup_create {size : Nat} (h : hashtab_create β size = some htab) :
    htab.Sound ∧ ∀ key, hash_lookup htab key = none := by
  rw [hashtab_create] at h
  split_ifs at h
  cases h
  exact ⟨fun _ => List.nodup_nil, fun _ => rfl⟩

theorem lookup_insert (htab : Hashtab β) (key : Nat) (val : β) (k : Nat) :
    hash_lookup (hash_insert htab key val) k = if k = key then some val else hash_lookup htab k := by
  simp only [hash_lookup, hash_insert, Hashtab.index]
  by_cases hi : k % htab.size = key % htab.size
  · simp only [hi, Function.update_self, List.find?_cons]
    by_cases hk : k = key
    · rw [if_pos hk, hk, decide_eq_true rfl]
      rfl
    · rw [if_neg hk, decide_eq_false (Ne.symm hk)]
  · have hk : k ≠ key := fun h => hi (h ▸ rfl)
    have hne : (⟨k % htab.size, Nat.mod_lt _ htab.size_pos⟩ : Fin htab.size) ≠
        ⟨key % htab.size, Nat.mod_lt _ htab.size_pos⟩ := fun h => hi (congrArg Fin.val h)
    rw [if_neg hk, Function.update_of_ne hne]

theorem sound_insert (hs : htab.Sound) {key : Nat} {val : β}
    (hn : hash_lookup htab key = none) : (hash_insert htab key val).Sound := by
  intro i
  by_cases hi : i = htab.index key
  · rw [hi]
    simp only [hash_insert, Function.update_self, List.map_cons, List.nodup_cons]
    refine ⟨fun hm => ?_, hs _⟩
    obtain ⟨n, hn', rfl⟩ := List.mem_map.mp hm
    rw [hash_lookup, Option.map_eq_none_iff, List.find?_eq_none] at hn
    exact hn n hn' (decide_eq_true rfl)
  · have hb : (hash_insert htab key val).bucks i = htab.bucks i := Function.update_of_ne hi _ _
    rw [hb]
    exact hs i

theorem find_eraseP {l : List (Nat × β)} (hl : (l.map Prod.fst).Nodup) (key k : Nat) :
    (l.eraseP fun n => n.1 = key).find? (fun n => n.1 = k) = if k = key then none else l.find? fun n => n.1 = k := by
  induction l with
  | nil => simp
  | cons n l ih =>
    rw [List.map_cons, List.nodup_cons] at hl
    by_cases hn : n.1 = key
    · rw [List.eraseP_cons_of_pos (by simpa using hn)]
      split_ifs with hk
      · apply List.find?_eq_none.mpr
        intro m hm hmk
        apply hl.1
        rw [hn, ← hk, ← of_decide_eq_true hmk]
        exact List.mem_map_of_mem hm
      · rw [List.find?_cons, decide_eq_false fun h => hk (h.symm.trans hn)]
    · rw [List.eraseP_cons_of_neg (by simpa using hn), List.find?_cons, List.find?_cons, ih hl.2]
      split_ifs with hk
      · rw [hk, decide_eq_false hn]
      · rfl

theorem lookup_delete (hs : htab.Sound) (key k : Nat) :
    hash_lookup (hash_delete htab key) k = if k = key then none else hash_lookup htab k := by
  simp only [hash_lookup, hash_delete, Hashtab.index]
  by_cases hi : k % htab.size = key % htab.size
  · simp only [hi, Function.update_self, find_eraseP (hs _)]
    split_ifs <;> rfl
  · have hk : k ≠ key := fun h => hi (h ▸ rfl)
    have hne : (⟨k % htab.size, Nat.mod_lt _ htab.size_pos⟩ : Fin htab.size) ≠
        ⟨key % htab.size, Nat.mod_lt _ htab.size_pos⟩ := fun h => hi (congrArg Fin.val h)
    rw [if_neg hk, Function.update_of_ne hne]

theorem sound_delete (hs : htab.Sound) (key : Nat) : (hash_delete htab key).Sound := by
  intro i
  by_cases hi : i = htab.index key
  · rw [hi]
    simp only [hash_delete, Function.update_self]
    exact (hs _).sublist ((List.eraseP_sublist).map _)
  · have hb : (hash_delete htab key).bucks i = htab.bucks i := Function.update_of_ne hi _ _
    rw [hb]
    exact hs i

end WWindowSystem

namespace WWindowSystem

open Forest

structure Store where
  mem : Memory
  wintab : Hashtab Addr
  glob_rootwindow : Addr
  winid : Nat := 0
  topWindow : Option Addr := none
  window_find_cache : Option Addr := none

namespace Store

/-- The root window at `root` and the background window at `back`. The client of both is the
`dummyClient`, which no request comes from. -/
def window_init (root back : Addr) : Option Store :=
  (hashtab_create Addr 211).map fun wintab =>
    { glob_rootwindow := root
      wintab := hash_insert (hash_insert wintab 1 root) 0 back
      mem := fun a =>
        if a = root then some ⟨⟨1, none, 0⟩, none, none, none, some back⟩
        else if a = back then some ⟨⟨0, none, 0⟩, some root, none, none, none⟩
        else none }

def windowLookup (s : Store) (id : Nat) : Option Addr := hash_lookup s.wintab id

def newid (wintab : Hashtab Addr) : Nat → Nat → Option Nat
  | 0, _ => none
  | fuel + 1, winid =>
    if (hash_lookup wintab winid).isSome then newid wintab fuel ((winid + 1) % 65536)
    else some winid

def window_newid (s : Store) : Option (Nat × Store) :=
  (newid s.wintab 65536 s.winid).map fun id => (id, { s with winid := (id + 1) % 65536 })

def window_create (s : Store) (w parent : Addr) (flags : Flags) : Option (Option Addr × Store) :=
  if flags.has W_TOP && s.topWindow.isSome then some (none, s)
  else do
    let s := { s with mem := Function.update s.mem w (some ⟨⟨0, none, 0⟩, none, none, none, none⟩) }
    let (id, s) ← s.window_newid
    let mem ← s.mem.modify w fun c => { c with val := { c.val with id } }
    let wintab := hash_insert s.wintab id w
    let p ← mem parent
    let mem ← wtree_add_before mem parent p.childs w
    let topWindow := if flags.has W_TOP then some w else s.topWindow
    let mem ← mem.modify w fun c => { c with val := { c.val with flags } }
    some (some w, { s with mem, wintab, topWindow })

def createWindow (s : Store) (cptr : Nat) (w parent : Addr) (flags : Flags) :
    Option (Option Addr × Store) := do
  let (win, s) ← s.window_create w parent flags
  match win with
  | none => some (none, s)
  | some win =>
    let mem ← s.mem.modify win fun c => { c with val := { c.val with cptr := some cptr } }
    some (some win, { s with mem })

def window_delete_one (s : Store) (w : Addr) : Option (Int × Store) := do
  let c ← s.mem w
  if c.childs.isSome then none
  else
    let wintab := hash_delete s.wintab c.val.id
    let mem ← wtree_remove s.mem w
    let window_find_cache := if s.window_find_cache = some w then none else s.window_find_cache
    let topWindow := if c.val.flags.has W_TOP && s.topWindow = some w then none else s.topWindow
    some (0, { s with mem := Function.update mem w none, wintab, window_find_cache, topWindow })

def window_restack (s : Store) (w w2 : Addr) (on_top : Bool) : Option (Int × Store) := do
  let c ← s.mem w
  let c2 ← s.mem w2
  match c.parent with
  | none => some (-1, s)
  | some parent =>
    if c.parent ≠ c2.parent ∨ w = w2 then some (-1, s)
    else if on_top then
      if c.next = some w2 then some (0, s)
      else do
        let mem ← wtree_remove s.mem w
        let mem ← wtree_add_before mem parent (some w2) w
        some (0, { s with mem })
    else if c.prev = some w2 then some (0, s)
    else do
      let mem ← wtree_remove s.mem w
      let mem ← wtree_add_after mem parent (some w2) w
      some (0, { s with mem })

def window_to_top (s : Store) (w : Addr) : Option (Int × Store) := do
  let c ← s.mem w
  match c.parent with
  | none => some (-1, s)
  | some parent =>
    if c.prev.isNone then some (0, s)
    else do
      let p ← s.mem parent
      let first ← p.childs
      s.window_restack w first true

def last (s : Store) : Nat → Addr → Option Addr
  | 0, _ => none
  | fuel + 1, wp => do
    let c ← s.mem wp
    match c.next with
    | some next => s.last fuel next
    | none => some wp

def window_to_bottom (s : Store) (w : Addr) : Option (Int × Store) := do
  let c ← s.mem w
  if c.next.isNone then some (0, s)
  else do
    let wp ← s.last 65536 w
    s.window_restack w wp false

structure Rep (val : Addr → Owner) (s : Store) (t : Forest Addr) : Prop where
  tree : ∃ cs, t = .node s.glob_rootwindow cs .nil
  linked : Linked s.mem val none none t
  nodup : t.toList.Nodup
  dead : ∀ a ∉ t.toList, s.mem a = none
  sound : s.wintab.Sound
  table : ∀ id a, s.windowLookup id = some a ↔ a ∈ t.toList ∧ (val a).id = id
  ids : ∀ a ∈ t.toList, (val a).id < 65536
  clients : ∀ a ∈ t.toList, (val a).cptr ≠ none → 2 ≤ (val a).id
  winid : s.winid < 65536

variable {val : Addr → Owner} {s : Store} {t : Forest Addr}

theorem Rep.inj (h : Rep val s t) {a b : Addr} (ha : a ∈ t.toList) (hb : b ∈ t.toList)
    (he : (val a).id = (val b).id) : a = b := by
  have h1 := (h.table _ a).mpr ⟨ha, he⟩
  have h2 := (h.table _ b).mpr ⟨hb, rfl⟩
  exact Option.some.inj (h1.symm.trans h2)

theorem Rep.few (h : Rep val s t) : t.toList.length ≤ 65536 := by
  have hm : (t.toList.map fun a => (val a).id).Nodup :=
    h.nodup.map_on fun a ha b hb he => h.inj ha hb he
  have hs : t.toList.map (fun a => (val a).id) ⊆ List.range 65536 := by
    intro i hi
    obtain ⟨a, ha, rfl⟩ := List.mem_map.mp hi
    exact List.mem_range.mpr (h.ids a ha)
  simpa using (List.subperm_of_subset hm hs).length_le

theorem newid_eq (h : Rep val s t) (fuel winid : Nat) :
    newid s.wintab fuel winid = WWindowSystem.newid (t.toList.map fun a => (val a).id) fuel winid := by
  induction fuel generalizing winid with
  | zero => rfl
  | succ fuel ih =>
    have hi : (hash_lookup s.wintab winid).isSome ↔ winid ∈ t.toList.map fun a => (val a).id := by
      change (s.windowLookup winid).isSome ↔ _
      simp only [Option.isSome_iff_exists, h.table, List.mem_map]
    rw [newid, WWindowSystem.newid, ih]
    exact if_congr hi rfl rfl

theorem window_newid_rep (h : Rep val s t) (hl : t.toList.length < 65536) :
    ∃ id < 65536, newid s.wintab 65536 s.winid = some id ∧ s.windowLookup id = none := by
  obtain ⟨id, hid, hlt⟩ : ∃ id, WWindowSystem.newid (t.toList.map fun a => (val a).id) 65536
      s.winid = some id ∧ id < 65536 := newid_exists h.winid (by rwa [List.length_map])
  refine ⟨id, hlt, ?_, ?_⟩
  · rw [newid_eq h, hid]
  · have hn := newid_fresh hid
    cases ha : s.windowLookup id with
    | none => rfl
    | some a =>
      obtain ⟨hat, rfl⟩ := (h.table _ _).mp ha
      exact absurd (List.mem_map_of_mem hat) hn

variable {w : Addr}

theorem Rep.fresh (h : Rep val s t) (hw : s.mem w = none) : w ∉ t.toList := by
  intro hm
  obtain ⟨c, hc, -⟩ := h.linked.mem hm
  rw [hw] at hc
  cases hc

theorem Rep.relabel (h : Rep val s t) {c : Cell Addr Owner} (hc : s.mem w = some c)
    {v : Owner} (hv : v.id = (val w).id) (hcl : v.cptr ≠ none → 2 ≤ v.id) : Rep (Function.update val w v)
      { s with mem := Function.update s.mem w (some { c with val := v }) } t := by
  have hid : ∀ a, (Function.update val w v a).id = (val a).id := by
    intro a
    by_cases ha : a = w
    · rw [ha, Function.update_self, hv]
    · rw [Function.update_of_ne ha]
  constructor
  · exact h.tree
  · apply h.linked.relabel
    intro a ha d hd he
    change Function.update s.mem w _ a = _
    by_cases hw : a = w
    · cases hw
      rw [hc] at hd
      cases hd
      rw [Function.update_self, Function.update_self]
    · rw [Function.update_of_ne hw, Function.update_of_ne hw, hd, ← he]
  · exact h.nodup
  · intro a ha
    have hw : a ≠ w := by
      rintro rfl
      rw [h.dead a ha] at hc
      cases hc
    exact (Function.update_of_ne hw _ _).trans (h.dead a ha)
  · exact h.sound
  · intro i a
    rw [hid]
    exact h.table i a
  · intro a ha
    rw [hid]
    exact h.ids a ha
  · intro a ha
    by_cases hw : a = w
    · rw [hw, Function.update_self]
      exact hcl
    · rw [Function.update_of_ne hw]
      exact h.clients a ha
  · exact h.winid

variable {k : Context Addr} {cs ns : Forest Addr} {flags : Flags}

theorem window_create_rep {p w : Addr}
    (h : Rep val s (zip k (.node p cs ns))) (hw : s.mem w = none) (hl : (zip k (.node p cs ns)).toList.length < 65536)
    (ht : ¬(flags.has W_TOP && s.topWindow.isSome)) :
    ∃ id s', s.window_create w p flags = some (some w, s') ∧ s.windowLookup id = none ∧
      s'.glob_rootwindow = s.glob_rootwindow ∧
      Rep (Function.update val w ⟨id, none, flags⟩) s' (zip (.parent p ns :: k) (.node w .nil cs)) := by
  have hwt := h.fresh hw
  obtain ⟨id, hid, hnew, hnone⟩ := window_newid_rep h hl
  generalize hv1 : Function.update val w ⟨id, none, 0⟩ = val1
  generalize hm1 : Function.update s.mem w
    (some ⟨⟨id, none, 0⟩, none, none, none, none⟩ : Option (Cell Addr Owner)) = mem1
  have hp1 : (zip (.parent p ns :: k) (.node w .nil cs)).toList.Perm
      (w :: (zip k (.node p cs ns)).toList) := by
    apply (toList_zip _ _).trans
    apply List.Perm.cons
    exact (toList_zip _ _).symm
  have hn1 : (zip (.parent p ns :: k) (.node w .nil cs)).toList.Nodup :=
    hp1.nodup_iff.mpr (List.nodup_cons.mpr ⟨hwt, h.nodup⟩)
  have hne : ∀ a ∈ (zip k (.node p cs ns)).toList, a ≠ w := fun a ha he => hwt (he ▸ ha)
  have hl1 : Linked mem1 val1 none none (zip (.parent p ns :: k) cs) := by
    rw [← hm1, ← hv1]
    exact h.linked.congr (fun a ha => Function.update_of_ne (hne a ha) _ _)
      fun a ha => Function.update_of_ne (hne a ha) _ _
  obtain ⟨mem2, hadd, hl2, hf2⟩ := wtree_add_before_linked hl1 hn1 rfl
    (c := ⟨⟨id, none, 0⟩, none, none, none, none⟩) (by rw [← hm1, Function.update_self])
    (by rw [← hv1, Function.update_self]) rfl trivial fun _ => rfl
  obtain ⟨c2, hc2, hcv⟩ := hl2.mem (hp1.mem_iff.mpr List.mem_cons_self)
  have hpw : s.mem p = some ⟨val p, parentOf k, prevOf k, first ns, first cs⟩ := by
    exact ((linked_zip k _).mp h.linked).1.1
  have hpne : p ≠ w := hne p ((toList_zip _ _).mem_iff.mpr (List.mem_append_left _ List.mem_cons_self))
  have hrep : Rep val1 { s with
      mem := mem2
      winid := (id + 1) % 65536
      wintab := hash_insert s.wintab id w
      topWindow := if flags.has W_TOP then some w else s.topWindow }
      (zip (.parent p ns :: k) (.node w .nil cs)) := by
    rw [← hv1] at hl2 ⊢
    constructor
    · obtain ⟨ds, hds⟩ := h.tree
      exact tree_below (k := .parent p ns :: k) List.mem_cons_self hds _
    · exact hl2
    · exact hn1
    · intro a ha
      have ha' := hp1.mem_iff.not.mp ha
      rw [List.mem_cons, not_or] at ha'
      change mem2 a = none
      rw [hf2 a ha, ← hm1, Function.update_of_ne ha'.1, h.dead a ha'.2]
    · exact sound_insert h.sound hnone
    · intro i a
      rw [windowLookup, lookup_insert, hp1.mem_iff, List.mem_cons]
      by_cases hw' : a = w
      · rw [hw', Function.update_self]
        split_ifs with hi
        · simp [hi]
        · constructor
          · intro hl
            exact absurd ((h.table i w).mp hl).1 hwt
          · intro he
            exact absurd he.2.symm hi
      · rw [Function.update_of_ne hw', or_iff_right hw', ← h.table]
        split_ifs with hi
        · rw [hi, hnone]
          simp [Ne.symm hw']
        · rfl
    · intro a ha
      rcases List.mem_cons.mp (hp1.mem_iff.mp ha) with rfl | ha
      · rw [Function.update_self]
        exact hid
      · rw [Function.update_of_ne (hne a ha)]
        exact h.ids a ha
    · intro a ha
      rcases List.mem_cons.mp (hp1.mem_iff.mp ha) with rfl | ha
      · rw [Function.update_self]
        exact fun hc => absurd rfl hc
      · rw [Function.update_of_ne (hne a ha)]
        exact h.clients a ha
    · exact Nat.mod_lt _ (by decide)
  have hfin := hrep.relabel hc2 (v := { c2.val with flags }) (by rw [hcv])
    (by rw [hcv, ← hv1, Function.update_self]; exact fun hc => absurd rfl hc)
  rw [hcv, ← hv1, Function.update_self, Function.update_idem] at hfin
  refine ⟨id, _, ?_, hnone, ?_, hfin⟩
  · rw [window_create, if_neg ht]
    simp only [window_newid, hnew, Option.map_some, Option.bind_eq_bind, Option.bind_some,
      Heap.modify_eq (Function.update_self _ _ _), Function.update_idem, hm1]
    rw [← hm1, Function.update_of_ne hpne, hpw, Option.bind_some, hm1]
    simp only [hadd, Option.bind_some, Heap.modify_eq hc2, hcv, ← hv1, Function.update_self]
  · rfl

theorem createWindow_rep {p w : Addr}
    (cptr : Nat) (h : Rep val s (zip k (.node p cs ns))) (hw : s.mem w = none)
    (hl : (zip k (.node p cs ns)).toList.length < 65536)
    (ht : ¬(flags.has W_TOP && s.topWindow.isSome)) (h0 : s.windowLookup 0 ≠ none) (h1 : s.windowLookup 1 ≠ none) :
    ∃ id s', s.createWindow cptr w p flags = some (some w, s') ∧ s.windowLookup id = none ∧
      s'.glob_rootwindow = s.glob_rootwindow ∧ Rep (Function.update val w ⟨id, some cptr, flags⟩) s'
        (zip (.parent p ns :: k) (.node w .nil cs)) := by
  obtain ⟨id, s1, hs1, hnone, hroot, hrep⟩ := window_create_rep h hw hl ht
  obtain ⟨c, hc, hcv⟩ := hrep.linked.mem (mem_zip.mpr (.inl List.mem_cons_self))
  have hid : 2 ≤ id := by
    have hid0 : id ≠ 0 := by
      rintro rfl
      exact h0 hnone
    have hid1 : id ≠ 1 := by
      rintro rfl
      exact h1 hnone
    omega
  have hfin := hrep.relabel hc (v := { c.val with cptr := some cptr }) (by rw [hcv])
    (by rw [hcv, Function.update_self]; exact fun _ => hid)
  rw [hcv, Function.update_self, Function.update_idem] at hfin
  refine ⟨id, _, ?_, hnone, ?_, hfin⟩
  · simp only [createWindow, hs1, Option.bind_eq_bind, Option.bind_some, Heap.modify_eq hc, hcv,
      Function.update_self]
  · exact hroot

theorem window_delete_one_rep {a p : Addr} {ns : Forest Addr}
    (h : Rep val s (zip k (.node a .nil ns))) (hp : parentOf k = some p) :
    ∃ s', s.window_delete_one a = some (0, s') ∧ s'.glob_rootwindow = s.glob_rootwindow ∧ Rep val s' (zip k ns) := by
  have hperm : (zip k (.node a .nil ns)).toList.Perm (a :: (zip k ns).toList) := by
    apply (toList_zip _ _).trans
    apply List.Perm.cons
    exact (toList_zip _ _).symm
  have hn := hperm.nodup_iff.mp h.nodup
  rw [List.nodup_cons] at hn
  obtain ⟨ha, -, -⟩ := ((linked_zip _ _).mp h.linked).1
  obtain ⟨mem, hrem, hl, hf⟩ := wtree_remove_linked h.linked h.nodup
  refine ⟨{ s with
    mem := Function.update mem a none
    wintab := hash_delete s.wintab (val a).id
    window_find_cache := if s.window_find_cache = some a then none else s.window_find_cache
    topWindow := if (val a).flags.has W_TOP && s.topWindow = some a then none else s.topWindow },
    ?_, rfl, ?_⟩
  · simp only [window_delete_one, ha, Option.bind_eq_bind, Option.bind_some, first,
      Option.isSome_none, Bool.false_eq_true, if_false, hrem]
  · constructor
    · obtain ⟨cs, hcs⟩ := h.tree
      exact tree_below (parentOf_mem hp) hcs _
    · exact hl.update hn.1 none
    · exact hn.2
    · intro b hb
      by_cases hba : b = a
      · exact hba ▸ Function.update_self _ _ _
      · refine (Function.update_of_ne hba _ _).trans ((hf b hb).trans (h.dead b ?_))
        rw [hperm.mem_iff, List.mem_cons, not_or]
        exact ⟨hba, hb⟩
    · exact sound_delete h.sound _
    · intro i b
      rw [windowLookup, lookup_delete h.sound]
      split_ifs with hi
      · constructor
        · intro he
          cases he
        · intro he
          have hab := h.inj (hperm.mem_iff.mpr (List.mem_cons_of_mem _ he.1))
            (hperm.mem_iff.mpr List.mem_cons_self) (he.2.trans hi)
          exact absurd (hab ▸ he.1) hn.1
      · rw [← windowLookup, h.table, hperm.mem_iff, List.mem_cons]
        constructor
        · rintro ⟨rfl | hb, he⟩
          · exact absurd he.symm hi
          · exact ⟨hb, he⟩
        · rintro ⟨hb, he⟩
          exact ⟨.inr hb, he⟩
    · intro b hb
      exact h.ids b (hperm.mem_iff.mpr (List.mem_cons_of_mem _ hb))
    · intro b hb
      exact h.clients b (hperm.mem_iff.mpr (List.mem_cons_of_mem _ hb))
    · exact h.winid

theorem Rep.relink (h : Rep val s t) {u : Forest Addr} {mem : Memory}
    (hu : ∃ cs, u = .node s.glob_rootwindow cs .nil) (hp : u.toList.Perm t.toList)
    (hl : Linked mem val none none u) (hf : ∀ a ∉ u.toList, mem a = s.mem a) : Rep val { s with mem } u := by
  constructor
  · exact hu
  · exact hl
  · exact hp.nodup_iff.mpr h.nodup
  · intro a ha
    exact (hf a ha).trans (h.dead a (hp.mem_iff.not.mp ha))
  · exact h.sound
  · intro i a
    rw [hp.mem_iff]
    exact h.table i a
  · intro a ha
    exact h.ids a (hp.mem_iff.mp ha)
  · intro a ha
    exact h.clients a (hp.mem_iff.mp ha)
  · exact h.winid

theorem Rep.unlink (h : Rep val s (zip k (.node w cs ns))) :
    ∃ mem c, wtree_remove s.mem w = some mem ∧ Linked mem val none none (zip k ns) ∧
      mem w = some c ∧ c.val = val w ∧ c.childs = first cs ∧ Linked mem val (some w) none cs ∧
      ∀ a ∉ (zip k ns).toList, mem a = s.mem a := by
  obtain ⟨hnt, -, hd⟩ := nodup_zip h.nodup
  rw [toList, List.nodup_cons, List.mem_append, not_or, List.nodup_append] at hnt
  obtain ⟨hw, hc, -⟩ := ((linked_zip _ _).mp h.linked).1
  obtain ⟨mem, hrem, hl, hf⟩ := wtree_remove_linked h.linked h.nodup
  have hwz : w ∉ (zip k ns).toList := by
    rw [mem_zip, not_or]
    exact ⟨hnt.1.2, hd w List.mem_cons_self⟩
  have hcz : ∀ a ∈ cs.toList, a ∉ (zip k ns).toList := by
    intro a ha
    rw [mem_zip, not_or]
    exact ⟨fun hn => hnt.2.2.2 a ha a hn rfl,
      hd a (List.mem_cons_of_mem _ (List.mem_append_left _ ha))⟩
  refine ⟨mem, _, hrem, hl, (hf w hwz).trans hw, rfl, rfl, ?_, hf⟩
  exact hc.congr (fun a ha => hf a (hcz a ha)) fun _ _ => rfl

theorem moved {k j : Context Addr} {cs ns u : Forest Addr} (he : zip j u = zip k ns) :
    (zip j (.node w cs u)).toList.Perm (zip k (.node w cs ns)).toList := by
  have hz := (toList_zip j u).symm.trans ((List.Perm.of_eq (congrArg toList he)).trans (toList_zip k ns))
  apply (toList_zip _ _).trans (List.Perm.trans _ (toList_zip _ _).symm)
  rw [toList, toList, List.cons_append, List.cons_append, List.append_assoc, List.append_assoc]
  exact (hz.append_left cs.toList).cons w

theorem Rep.rerooted (h : Rep val s t) {k j : Context Addr} {ns u v : Forest Addr} {p q : Addr}
    (ht : t = zip k v) (hk : parentOf k = some p) (he : zip j ns = zip k u)
    (hj : parentOf j = some q) (x : Forest Addr) : ∃ cs, zip j x = .node s.glob_rootwindow cs .nil := by
  obtain ⟨ds, hds⟩ := h.tree
  obtain ⟨es, hes⟩ := tree_below (parentOf_mem hk) (ht.symm.trans hds) u
  exact tree_below (parentOf_mem hj) (he.trans hes) x

theorem move_before {k j : Context Addr} {w p b : Addr} {cs ns u : Forest Addr}
    (h : Rep val s (zip k (.node w cs ns))) (hk : parentOf k = some p) (he : zip j u = zip k ns)
    (hj : parentOf j = some p) (hb : first u = some b) :
    ∃ mem mem', wtree_remove s.mem w = some mem ∧ wtree_add_before mem p (some b) w = some mem' ∧
      Rep val { s with mem := mem' } (zip j (.node w cs u)) := by
  obtain ⟨mem, c, hrem, hl, hw, hv, hc, hcs, hf⟩ := h.unlink
  have hperm : (zip j (.node w cs u)).toList.Perm (zip k (.node w cs ns)).toList := moved he
  have hn := hperm.nodup_iff.mpr h.nodup
  rw [← he] at hl
  obtain ⟨mem', hadd, hl', hf'⟩ := wtree_add_before_linked hl hn hj hw hv hc hcs
    (by rw [hb]; exact fun h => absurd h (by simp))
  rw [hb] at hadd
  refine ⟨mem, mem', hrem, hadd, h.relink (h.rerooted rfl hk he hj _) hperm hl' fun a ha => ?_⟩
  rw [hf' a ha, hf a]
  rw [← he, mem_zip]
  rw [mem_zip, toList, List.mem_cons, List.mem_append] at ha
  tauto

theorem move_after {k j : Context Addr} {w p b : Addr} {cs ns u : Forest Addr}
    (h : Rep val s (zip k (.node w cs ns))) (hk : parentOf k = some p) (he : zip j u = zip k ns)
    (hj : parentOf j = some p) (hb : prevOf j = some b) :
    ∃ mem mem', wtree_remove s.mem w = some mem ∧ wtree_add_after mem p (some b) w = some mem' ∧
      Rep val { s with mem := mem' } (zip j (.node w cs u)) := by
  obtain ⟨mem, c, hrem, hl, hw, hv, hc, hcs, hf⟩ := h.unlink
  have hperm : (zip j (.node w cs u)).toList.Perm (zip k (.node w cs ns)).toList := moved he
  have hn := hperm.nodup_iff.mpr h.nodup
  rw [← he] at hl
  obtain ⟨mem', hadd, hl', hf'⟩ := wtree_add_after_linked hl hn hj hb hw hv hc hcs
  refine ⟨mem, mem', hrem, hadd, h.relink (h.rerooted rfl hk he hj _) hperm hl' fun a ha => ?_⟩
  rw [hf' a ha, hf a]
  rw [← he, mem_zip]
  rw [mem_zip, toList, List.mem_cons, List.mem_append] at ha
  tauto

theorem roots_length (t : Forest Addr) : t.roots.length ≤ t.toList.length := by
  induction t with
  | nil => exact Nat.le_refl _
  | node a cs ns _ ihn =>
    simp only [roots, toList, List.length_cons, List.length_append]
    omega

theorem last_eq {p l : Option Addr} {fuel : Nat}
    (hl : Linked s.mem val p l (.node w cs ns)) (hf : ns.roots.length < fuel) :
    s.last fuel w = some (ns.roots.getLast?.getD w) := by
  induction ns generalizing l w cs fuel with
  | nil =>
    cases fuel with
    | zero => cases hf
    | succ fuel =>
      rw [last, hl.1]
      rfl
  | node v ds ms _ ih =>
    cases fuel with
    | zero => cases hf
    | succ fuel =>
      rw [roots, List.length_cons] at hf
      rw [last, hl.1]
      simp only [Option.bind_eq_bind, Option.bind_some, first]
      rw [ih hl.2.2 (by omega), roots, List.getLast?_cons]
      rfl

theorem window_to_top_rep {w p : Addr} {ps cs ns l : Forest Addr}
    (h : Rep val s (zip (.parent p ps :: k) (l.append (.node w cs ns)))) :
    ∃ s', s.window_to_top w = some (0, s') ∧ s'.glob_rootwindow = s.glob_rootwindow ∧
      Rep val s' (zip (.parent p ps :: k) (.node w cs (l.append ns))) := by
  have hz := h
  rw [← zip_past] at hz
  obtain ⟨hw, -⟩ := ((linked_zip _ _).mp hz.linked).1
  obtain ⟨hroot, hp, -⟩ := (linked_zip _ _).mp h.linked
  rw [parentOf_past, prevOf_past] at hw
  cases l with
  | nil =>
    refine ⟨s, ?_, rfl, h⟩
    rw [window_to_top, hw]
    rfl
  | node b bs ls =>
    have hb := hroot.1
    have hn := (nodup_zip h.nodup).1
    rw [append, toList, List.nodup_cons, List.mem_append, not_or] at hn
    have hbw : w ≠ b := by
      rintro rfl
      exact hn.1.2 (by simp [toList])
    have hbn : first ns ≠ some b := by
      intro hf
      apply hn.1.2
      cases ns with
      | nil => cases hf
      | node c _ _ =>
        obtain rfl := Option.some.inj hf
        simp [toList]
    obtain ⟨mem, mem', hrem, hadd, hrep⟩ := move_before hz (p := p) (b := b)
      (j := .parent p ps :: k) (u := (Forest.node b bs ls).append ns) (by rw [parentOf_past]; rfl)
      (by rw [zip_past]) rfl rfl
    refine ⟨_, ?_, ?_, hrep⟩
    · have hbp : (Forest.append (.node b bs ls) (.node w cs ns)).first = some b := rfl
      simp only [window_to_top, hw, Option.bind_eq_bind, Option.bind_some, parentOf, roots,
        List.getLast?_cons, hp, hbp, Option.some_or, Option.isNone_some, Bool.false_eq_true,
        if_false, window_restack, hb, ne_eq, not_true_eq_false, hbw, or_self, if_true, hbn, hrem,
        hadd]
    · rfl

theorem window_to_bottom_rep {w p : Addr} {ps cs ns l : Forest Addr}
    (h : Rep val s (zip (.parent p ps :: k) (l.append (.node w cs ns)))) :
    ∃ s', s.window_to_bottom w = some (0, s') ∧ s'.glob_rootwindow = s.glob_rootwindow ∧
      Rep val s' (zip (.parent p ps :: k) (l.append (ns.append (.node w cs .nil)))) := by
  have hz := h
  rw [← zip_past] at hz
  obtain ⟨hlw, hlk⟩ := (linked_zip _ _).mp hz.linked
  have hw := hlw.1
  rw [parentOf_past, prevOf_past] at hw
  cases ns with
  | nil =>
    refine ⟨s, ?_, rfl, h⟩
    rw [window_to_bottom, hw]
    rfl
  | node b bs ms =>
    generalize hq : ms.roots.getLast?.getD b = q
    have hlast : (Forest.node b bs ms).roots.getLast? = some q := by
      rw [roots, List.getLast?_cons, hq]
    have hqm : q ∈ (Forest.node b bs ms).roots := List.mem_of_getLast? hlast
    have hqt := roots_subset _ hqm
    obtain ⟨c, hc, hcp⟩ := hlw.2.2.parent_of_roots hqm
    rw [parentOf_past] at hcp
    obtain ⟨hn, -, hd⟩ := nodup_zip hz.nodup
    rw [toList, List.nodup_cons, List.mem_append, not_or] at hn
    have hwq : w ≠ q := by
      rintro rfl
      exact hn.1.2 hqt
    have hprev : (l.roots.getLast?.or (prevOf (.parent p ps :: k))) ≠ some q := by
      intro hp
      rw [← prevOf_past] at hp
      exact hd q (List.mem_cons_of_mem _ (List.mem_append_right _ hqt)) (hlk.prev hp).1
    have hfuel : (Forest.node b bs ms).roots.length < 65536 := by
      have h1 := roots_length (.node w cs (.node b bs ms))
      have h2 := h.few
      have h3 := (toList_zip (past (.parent p ps :: k) l) (.node w cs (.node b bs ms))).length_eq
      rw [zip_past] at h3
      rw [roots, List.length_cons] at h1
      rw [List.length_append] at h3
      omega
    obtain ⟨mem, mem', hrem, hadd, hrep⟩ := move_after hz (p := p) (b := q)
      (j := past (past (.parent p ps :: k) l) (.node b bs ms)) (u := .nil)
      (by rw [parentOf_past]; rfl) (by rw [zip_past, append_nil])
      (by rw [parentOf_past, parentOf_past]; rfl) (by rw [prevOf_past, hlast]; rfl)
    rw [zip_past, zip_past] at hrep
    refine ⟨_, ?_, ?_, hrep⟩
    · have hlw' := last_eq hlw hfuel
      rw [hlast, Option.getD_some] at hlw'
      simp only [window_to_bottom, hw, Option.bind_eq_bind, Option.bind_some, first,
        Option.isNone_some, Bool.false_eq_true, if_false, hlw', window_restack, hc, hcp, parentOf,
        ne_eq, not_true_eq_false, hwq, or_self, hprev, hrem, hadd]
    · rfl

end Store

end WWindowSystem
