import WWindowSystem.Server.Store

namespace WWindowSystem

open Forest List

namespace Store

def traverse (f : Store → Addr → Option (Int × Store)) (wtree : Addr) :
    Nat → Addr → Bool → Store → Option (Option Addr × Store)
  | 0, _, _, _ => none
  | fuel + 1, w, visited, s => do
    let c ← s.mem w
    let next : Option Addr × Bool :=
      if !visited && c.childs.isSome then (c.childs, false)
      else if w = wtree then (none, false)
      else if c.next.isSome then (c.next, false)
      else (c.parent, true)
    let r ← if visited || c.childs.isNone then f s w else some (0, s)
    if r.1 < 0 then some (some w, r.2)
    else
      match next.1 with
      | none => some (none, r.2)
      | some next_w => traverse f wtree fuel next_w next.2 r.2

def steps : Nat := 2 * 65536

def wtree_traverse_post (s : Store) (wtree : Addr) (f : Store → Addr → Option (Int × Store)) :
    Option (Option Addr × Store) :=
  traverse f wtree steps wtree false s

def wtree_list_traverse_post (f : Store → Addr → Option (Int × Store)) :
    Nat → Option Addr → Store → Option (Option Addr × Store)
  | _, none, s => some (none, s)
  | 0, some _, _ => none
  | fuel + 1, some wtree, s => do
    let c ← s.mem wtree
    let (badw, s) ← s.wtree_traverse_post wtree f
    match badw with
    | some badw => some (some badw, s)
    | none => wtree_list_traverse_post f fuel c.next s

def window_delete (s : Store) (w : Addr) : Option (Int × Store) := do
  let c ← s.mem w
  if c.parent.isNone then some (-1, s)
  else
    let (_, s) ← s.wtree_traverse_post w window_delete_one
    some (0, s)

def client_delete (s : Store) (handle : Nat) : Option (Int × Store) :=
  if handle < 2 then some (-1, s)
  else
    match s.windowLookup handle with
    | none => some (-9999, s)
    | some win => do
      let c ← s.mem win
      if c.val.cptr.isNone then some (-1, s)
      else
        let (_, s) ← s.window_delete win
        some (0, s)

def killClient (cptr : Nat) (s : Store) (win : Addr) : Option (Int × Store) := do
  let c ← s.mem win
  if c.val.cptr = some cptr then
    let (_, s) ← s.client_delete c.val.id
    some (0, s)
  else some (0, s)

def windowKillClient (s : Store) (cptr : Nat) : Option Store := do
  let c ← s.mem s.glob_rootwindow
  let (_, s) ← wtree_list_traverse_post (killClient cptr) 65536 c.childs s
  some s

/-- Called in postorder, `f` deletes the windows for which `del` holds and leaves the others. -/
def Sweeps (val : Addr → Owner) (f : Store → Addr → Option (Int × Store)) (del : Addr → Bool) : Prop :=
  ∀ (s : Store) (k : Context Addr) (a p : Addr) (cs ns : Forest Addr),
    Rep val s (zip k (.node a (cs.prune del) ns)) → parentOf k = some p →
    ∃ s', f s a = some (0, s') ∧
      Rep val s' (zip k (if del a then ns else .node a (cs.prune del) ns))

def cost : Forest Addr → Nat
  | .nil => 0
  | .node _ .nil ns => 1 + cost ns
  | .node _ (.node a cs ms) ns => 2 + cost (.node a cs ms) + cost ns

variable {val : Addr → Owner} {f : Store → Addr → Option (Int × Store)} {del : Addr → Bool}

theorem cost_le (t : Forest Addr) : cost t ≤ 2 * t.toList.length := by
  induction t with
  | nil => exact Nat.le_refl _
  | node a cs ns ihc ihn =>
    cases cs with
    | nil =>
      rw [cost, toList, toList, nil_append, length_cons]
      omega
    | node b ds ms =>
      rw [cost, toList, length_cons, length_append]
      omega

variable {s : Store} {w p : Addr} {cs ns : Forest Addr} {k : Context Addr}

theorem traverse_leave (hf : Sweeps val f del)
    {visited : Bool} (h : Rep val s (zip k (.node w (cs.prune del) ns)))
    (hp : parentOf k = some p) (hv : visited = true ∨ cs.prune del = .nil) (wtree : Addr)
    (fuel : Nat) :
    ∃ s', Rep val s' (zip k (if del w then ns else .node w (cs.prune del) ns)) ∧
      traverse f wtree (fuel + 1) w visited s =
        if w = wtree then some (none, s')
        else
          match first ns with
          | some next => traverse f wtree fuel next false s'
          | none => traverse f wtree fuel p true s' := by
  obtain ⟨hc, -⟩ := ((linked_zip _ _).mp h.linked).1
  obtain ⟨s', hs', hrep⟩ := hf s k w p cs ns h hp
  refine ⟨s', hrep, ?_⟩
  have hd : (!visited && (cs.prune del).first.isSome) = false := by
    rcases hv with rfl | hv
    · rfl
    · rw [hv]
      cases visited <;> rfl
  have hc' : (visited || (cs.prune del).first.isNone) = true := by
    rcases hv with rfl | hv
    · rfl
    · rw [hv]
      cases visited <;> rfl
  rw [traverse]
  simp only [hc, Option.bind_eq_bind, Option.bind_some, hd, hc', hs', Bool.false_eq_true,
    if_false, if_true, hp, Int.lt_irrefl]
  by_cases hw : w = wtree
  · simp only [hw, if_true]
  · simp only [hw, if_false]
    cases hn : first ns with
    | none => rfl
    | some next => rfl

theorem traverse_descend {wtree w a : Addr}
    (h : Rep val s (zip k (.node w cs ns))) (ha : first cs = some a) (fuel : Nat) :
    traverse f wtree (fuel + 1) w false s = traverse f wtree fuel a false s := by
  obtain ⟨hc, -⟩ := ((linked_zip _ _).mp h.linked).1
  rw [traverse]
  simp only [hc, Option.bind_eq_bind, Option.bind_some, ha, Option.isSome_some, Option.isNone_some,
    Bool.not_false, Bool.and_self, Bool.or_self, if_true, Bool.false_eq_true, if_false]
  rfl

theorem traverse_return {wtree w : Addr}
    (h : Rep val s (zip k (.node w cs ns))) (hs : ∀ (s : Store) (a : Addr) (fuel : Nat), first cs = some a →
      Rep val s (zip (.parent w ns :: k) cs) → ∃ s', Rep val s' (zip (.parent w ns :: k) (cs.prune del)) ∧
        traverse f wtree (fuel + cost cs) a false s = traverse f wtree fuel w true s') (fuel : Nat) :
    ∃ s' visited, Rep val s' (zip k (.node w (cs.prune del) ns)) ∧ (visited = true ∨ cs.prune del = .nil) ∧
      traverse f wtree (fuel + cost (.node w cs .nil)) w false s = traverse f wtree (fuel + 1) w visited s' := by
  cases cs with
  | nil => exact ⟨s, false, h, .inr rfl, rfl⟩
  | node a ds ms =>
    obtain ⟨s', hrep, ht⟩ := hs s a (fuel + 1) rfl h
    refine ⟨s', true, hrep, .inl rfl, ?_⟩
    have hcost : fuel + cost (.node w (.node a ds ms) .nil) =
        fuel + 1 + cost (.node a ds ms) + 1 := by
      simp only [cost]
      omega
    rw [hcost, traverse_descend h rfl, ht]

theorem cost_node (a : Addr) (cs ns : Forest Addr) : cost (.node a cs ns) = cost (.node a cs .nil) + cost ns := by
  cases cs with
  | nil => rfl
  | node b ds ms => rfl

variable {t : Forest Addr}

theorem traverse_siblings (hf : Sweeps val f del) {wtree : Addr}
    {a p : Addr} (ha : first t = some a) (h : Rep val s (zip k t))
    (hp : parentOf k = some p) (hw : wtree ∉ t.toList) (fuel : Nat) : ∃ s', Rep val s' (zip k (t.prune del)) ∧
      traverse f wtree (fuel + cost t) a false s = traverse f wtree fuel p true s' := by
  induction t generalizing s k a p fuel with
  | nil => cases ha
  | node b cs ns ihc ihn =>
    obtain rfl := Option.some.inj ha
    rw [toList, mem_cons, mem_append, not_or, not_or] at hw
    obtain ⟨hwb, hwc, hwn⟩ := hw
    obtain ⟨s1, visited, h1, hv, ht1⟩ := traverse_return h
      (fun s a fuel ha h => ihc ha h rfl hwc fuel) (fuel + cost ns)
    obtain ⟨s2, h2, ht2⟩ := traverse_leave hf h1 hp hv wtree (fuel + cost ns)
    rw [if_neg (Ne.symm hwb)] at ht2
    have hcost : fuel + cost (.node b cs ns) = fuel + cost ns + cost (.node b cs .nil) := by
      rw [cost_node]
      omega
    rw [hcost, ht1, ht2, prune]
    cases hn : first ns with
    | none =>
      have hnil : ns = .nil := by
        cases ns with
        | nil => rfl
        | node _ _ _ => cases hn
      subst hnil
      exact ⟨s2, h2, rfl⟩
    | some c =>
      cases hb : del b with
      | true =>
        rw [hb, if_pos rfl] at h2
        exact ihn hn h2 hp hwn fuel
      | false =>
        rw [hb, if_neg Bool.false_ne_true] at h2
        exact ihn (k := .prev b (cs.prune del) :: k) hn h2 hp hwn fuel

theorem wtree_traverse_post_rep (hf : Sweeps val f del)
    (h : Rep val s (zip k (.node w cs ns))) (hp : parentOf k = some p) :
    ∃ s', s.wtree_traverse_post w f = some (none, s') ∧
      Rep val s' (zip k (if del w then ns else .node w (cs.prune del) ns)) := by
  have hw : w ∉ cs.toList := by
    have hn := (nodup_zip h.nodup).1
    rw [toList, nodup_cons, mem_append, not_or] at hn
    exact hn.1.1
  have hlen : cost (.node w cs .nil) ≤ steps := by
    have h1 := cost_le (.node w cs .nil)
    have h2 := h.few
    have h3 := (toList_zip k (.node w cs ns)).length_eq
    rw [toList, length_cons, length_append, toList, length_nil] at h1
    rw [length_append, toList, length_cons, length_append] at h3
    rw [steps]
    omega
  obtain ⟨s1, visited, h1, hv, ht1⟩ := traverse_return h
    (fun s a fuel ha h => traverse_siblings hf ha h rfl hw fuel) (steps - cost (.node w cs .nil))
  obtain ⟨s', hrep, ht2⟩ := traverse_leave hf h1 hp hv w (steps - cost (.node w cs .nil))
  refine ⟨s', ?_, hrep⟩
  rw [Nat.sub_add_cancel hlen, ht2, if_pos rfl] at ht1
  exact ht1

theorem wtree_list_traverse_post_rep (hf : Sweeps val f del)
    {p : Addr} {fuel : Nat} (h : Rep val s (zip k t)) (hp : parentOf k = some p)
    (hl : t.roots.length ≤ fuel) : ∃ s', wtree_list_traverse_post f fuel (first t) s = some (none, s') ∧
      Rep val s' (zip k (t.prune del)) := by
  induction t generalizing s k fuel with
  | nil => exact ⟨s, by rw [first, wtree_list_traverse_post], h⟩
  | node a cs ns _ ihn =>
    rw [roots, length_cons] at hl
    cases fuel with
    | zero => omega
    | succ fuel =>
      obtain ⟨hc, -⟩ := ((linked_zip _ _).mp h.linked).1
      obtain ⟨s1, hs1, h1⟩ := wtree_traverse_post_rep hf h hp
      simp only [first, wtree_list_traverse_post, hc, Option.bind_eq_bind, Option.bind_some, hs1,
        prune]
      cases ha : del a with
      | true =>
        rw [ha, if_pos rfl] at h1
        exact ihn h1 hp (by omega)
      | false =>
        rw [ha, if_neg Bool.false_ne_true] at h1
        exact ihn (k := .prev a (cs.prune del) :: k) h1 hp (by omega)

theorem window_delete_rep
    (h : Rep val s (zip k (.node w cs ns))) (hp : parentOf k = some p) :
    ∃ s', s.window_delete w = some (0, s') ∧ Rep val s' (zip k ns) := by
  have hf : Sweeps val window_delete_one fun _ => true := by
    intro s k a p cs ns h hp
    rw [prune_all] at h
    obtain ⟨s', hs', -, hrep⟩ := window_delete_one_rep h hp
    exact ⟨s', hs', hrep⟩
  obtain ⟨hc, -⟩ := ((linked_zip _ _).mp h.linked).1
  obtain ⟨s', hs', hrep⟩ := wtree_traverse_post_rep hf h hp
  refine ⟨s', ?_, hrep⟩
  simp only [window_delete, hc, hp, Option.bind_eq_bind, Option.bind_some, Option.isNone_some,
    Bool.false_eq_true, if_false, hs']

theorem client_delete_rep
    (h : Rep val s (zip k (.node w cs ns))) (hp : parentOf k = some p) (hw : (val w).cptr ≠ none) :
    ∃ s', s.client_delete (val w).id = some (0, s') ∧ Rep val s' (zip k ns) := by
  have hm : w ∈ (zip k (.node w cs ns)).toList := mem_zip.mpr (.inl mem_cons_self)
  obtain ⟨hc, -⟩ := ((linked_zip _ _).mp h.linked).1
  obtain ⟨s', hs', hrep⟩ := window_delete_rep h hp
  refine ⟨s', ?_, hrep⟩
  have hid := h.clients w hm hw
  rw [client_delete, if_neg (by omega), (h.table _ w).mpr ⟨hm, rfl⟩]
  simp only [hc, Option.bind_eq_bind, Option.bind_some, Option.isNone_iff_eq_none, hw, if_false, hs']

def ownedBy (val : Addr → Owner) (cptr : Nat) (a : Addr) : Bool := (val a).cptr = some cptr

theorem killClient_sweeps (val : Addr → Owner) (cptr : Nat) : Sweeps val (killClient cptr) (ownedBy val cptr) := by
  intro s k a p cs ns h hp
  obtain ⟨hc, -⟩ := ((linked_zip _ _).mp h.linked).1
  cases ha : ownedBy val cptr a with
  | true =>
    have hcptr := of_decide_eq_true ha
    obtain ⟨s', hs', hrep⟩ := client_delete_rep h hp (by rw [hcptr]; exact fun h => by cases h)
    refine ⟨s', ?_, hrep⟩
    simp only [killClient, hc, Option.bind_eq_bind, Option.bind_some, hcptr, if_true, hs']
  | false =>
    have hcptr := of_decide_eq_false ha
    refine ⟨s, ?_, h⟩
    simp only [killClient, hc, Option.bind_eq_bind, Option.bind_some, hcptr, if_false]

theorem windowKillClient_rep {cs : Forest Addr} (cptr : Nat)
    (h : Rep val s (.node s.glob_rootwindow cs .nil)) : ∃ s', s.windowKillClient cptr = some s' ∧
      Rep val s' (.node s.glob_rootwindow (cs.prune (ownedBy val cptr)) .nil) := by
  obtain ⟨hc, -⟩ := h.linked
  have hlen : cs.roots.length ≤ 65536 := by
    have h1 := roots_length cs
    have h2 := h.few
    rw [toList, length_cons, length_append] at h2
    omega
  obtain ⟨s', hs', hrep⟩ := wtree_list_traverse_post_rep (killClient_sweeps val cptr)
    (k := [.parent s.glob_rootwindow .nil]) h rfl hlen
  refine ⟨s', ?_, hrep⟩
  simp only [windowKillClient, hc, Option.bind_eq_bind, Option.bind_some, hs']

end Store

end WWindowSystem
