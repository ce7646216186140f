import Mathlib.Algebra.BigOperators.Ring.Finset
import Mathlib.Data.List.Induction
import WWindowSystem.Server.Counters

namespace WWindowSystem

open Forest

theorem sum_map_eq_one {l : List Nat} {i : Nat} (hn : l.Nodup) (hi : i ∈ l) :
    (l.map fun j => if j = i then 1 else 0).sum = 1 := by
  induction l with
  | nil => cases hi
  | cons j l ih =>
    rw [List.nodup_cons] at hn
    rw [List.map_cons, List.sum_cons]
    rcases List.mem_cons.mp hi with rfl | hi
    · have h0 : (l.map fun j => if j = i then 1 else 0).sum = 0 := by
        apply List.sum_eq_zero
        intro x hx
        obtain ⟨k, hk, rfl⟩ := List.mem_map.mp hx
        rw [if_neg]
        rintro rfl
        exact hn.1 hk
      rw [if_pos rfl, h0]
    · have hne : j ≠ i := by
        rintro rfl
        exact hn.1 hi
      rw [if_neg hne, ih hn.2 hi]

theorem sum_countP {α : Type} {l : List Nat} (hn : l.Nodup) (owner : α → Option Nat) (Q : α → Bool)
    {t : List α} (ht : ∀ x ∈ t, ∀ c, owner x = some c → c ∈ l) :
    (l.map fun c => t.countP fun x => decide (owner x = some c) && Q x).sum =
      t.countP fun x => (owner x).isSome && Q x := by
  induction t with
  | nil => simp
  | cons x t ih =>
    simp only [List.countP_cons, List.sum_map_add]
    rw [ih fun y hy => ht y (List.mem_cons_of_mem _ hy)]
    congr 1
    cases ho : owner x with
    | none => simp
    | some i =>
      have h1 := sum_map_eq_one hn (ht x List.mem_cons_self i ho)
      cases Q x with
      | false => simp
      | true => simpa [eq_comm] using h1

structure CountersExact (s : Server) : Prop where
  opened : ∀ c ∈ s.clients, c.openWindows = openCount (Mark.of c.id) (markPaths s.tree)
  total : ∀ c ∈ s.clients, c.totalWindows = totalCount (Mark.of c.id) (markPaths s.tree)
  globOpen : s.globOpenWindows = (s.clients.map Client.openWindows).sum
  globTotal : s.globTotalWindows = (s.clients.map Client.totalWindows).sum
  mouse : s.mouse_disabled = openCount Mark.nomouse (markPaths s.tree)

def clientWindows (s : Server) : Nat := totalCount (fun m => m.cptr.isSome) (markPaths s.tree)

variable {s : Server}

theorem Server.Counted.sums (h : s.Counted) : (s.clients.map Client.openWindows).sum =
        openCount (fun m => m.cptr.isSome) (markPaths s.tree) ∧
      (s.clients.map Client.totalWindows).sum = clientWindows s := by
  have hc : ∀ p ∈ markPaths s.tree, ∀ c, p.1.cptr = some c → c ∈ s.clients.map Client.id := by
    intro p hp c hpc
    exact (mark_client h.toTidy (by rw [marks_toList]; exact List.mem_map_of_mem hp) hpc).1
  have ho := sum_countP h.distinct (fun p : Mark × List Mark => p.1.cptr) reallyOpen hc
  have ht := sum_countP h.distinct (fun p : Mark × List Mark => p.1.cptr) (fun _ => true) hc
  have hcast : ∀ (f : Nat → Nat), (s.clients.map fun c => (f c.id : Int)).sum =
      (((s.clients.map Client.id).map f).sum : Nat) := by
    intro f
    rw [Nat.cast_list_sum, List.map_map, List.map_map]
    rfl
  constructor
  · rw [List.map_congr_left h.tally.opened]
    exact (hcast fun c => openCount (Mark.of c) (markPaths s.tree)).trans (congrArg Nat.cast ho)
  · rw [List.map_congr_left h.tally.total]
    simp only [Bool.and_true] at ht
    exact (hcast fun c => totalCount (Mark.of c) (markPaths s.tree)).trans (congrArg Nat.cast ht)

theorem Server.Counted.bounds (h : s.Counted) :
    openCount (fun m => m.cptr.isSome) (markPaths s.tree) ≤ clientWindows s ∧
      openCount Mark.nomouse (markPaths s.tree) ≤ clientWindows s := by
  constructor
  · apply List.countP_mono_left
    intro p _ hp
    rw [Bool.and_eq_true] at hp
    exact hp.1
  · apply List.countP_mono_left
    intro p hp hpn
    rw [Bool.and_eq_true] at hpn
    rw [Option.isSome_iff_ne_none]
    intro hc
    have ho := h.owned (p.1.owner, p.2.map Mark.owner) (by
      rw [ownerPaths_eq]
      exact List.mem_map_of_mem hp)
    exact Bool.false_ne_true ((ho.server hc).2.1.symm.trans hpn.1)

theorem Server.Counted.exact_iff (h : s.Counted) : CountersExact s ↔ clientWindows s < 32768 := by
  obtain ⟨hso, hst⟩ := h.sums
  obtain ⟨hbo, hbm⟩ := h.bounds
  have hg : s.globTotalWindows = short (clientWindows s) := h.tally.globTotal
  constructor
  · intro he
    have := he.globTotal
    rw [hst, hg] at this
    unfold short at this
    omega
  · intro hl
    refine ⟨h.tally.opened, h.tally.total, ?_, ?_, ?_⟩
    · rw [hso, h.tally.globOpen]
      apply short_of_range
      · exact Int.le_trans (by decide) (Int.natCast_nonneg _)
      · change ((openCount (fun m => m.cptr.isSome) (markPaths s.tree) : Nat) : Int) < _
        omega
    · rw [hst, hg]
      apply short_of_range <;> omega
    · rw [h.tally.mouse]
      apply short_of_range
      · exact Int.le_trans (by decide) (Int.natCast_nonneg _)
      · change ((openCount Mark.nomouse (markPaths s.tree) : Nat) : Int) < _
        omega

variable (D : Driver)

theorem served_counted (d : Display) (screen : Pixmap) (colors : Colors)
    (l : List (Request × Point)) : (l.foldl (serve D) (window_init d screen colors)).Counted := by
  induction l using List.reverseRecOn with
  | nil => exact window_init_counted d screen colors
  | append_singleton l r ih =>
    rw [List.foldl_append]
    exact serve_counted D ih r

/-- After any requests the counters are exact if and only if less than 32768 windows belong to
clients: `globOpenWindows`, `globTotalWindows` and `disabled` are `short`. -/
theorem window_counters_exact (D : Driver) (d : Display) (screen : Pixmap) (colors : Colors)
    (l : List (Request × Point)) : CountersExact (l.foldl (serve D) (window_init d screen colors)) ↔
      clientWindows (l.foldl (serve D) (window_init d screen colors)) < 32768 :=
  (served_counted D d screen colors l).exact_iff

theorem createWindow_plain {id : Nat} (cptr : Client) (f : Focus)
    (hid : newid s.ids 65536 s.winid = some id) : ∃ s', createWindow D s cptr 1 1 0 f = some ((id : Int), s') := by
  unfold createWindow window_create window_newid
  have h1 : Flags.has 0 W_TOP = false := by decide
  have h2 : Flags.has (windowFlags 0) W_TOP = false := by decide
  rw [h1, h2, Bool.false_and, Bool.false_and, if_neg Bool.false_ne_true, if_neg Bool.false_ne_true]
  rw [Server.ids] at hid
  rw [hid]
  exact ⟨_, rfl⟩

structure Filled (s : Server) (n : Nat) : Prop extends s.Counted where
  fits : s.winid < 65536
  windows : s.ids.length = n + 2
  amount : clientWindows s = n
  client : ∃ c ∈ s.clients, c.id = 1

theorem Filled.create {D : Driver} {n : Nat} (h : Filled s n) (hn : n < 65534) :
    Filled (serve D s (.create 1 1 1 0, (0, 0))) (n + 1) := by
  have hcount := serve_counted D h.toCounted (.create 1 1 1 0, (0, 0))
  obtain ⟨id, hid, hlt⟩ := newid_exists h.fits (by rw [h.windows]; omega)
  obtain ⟨w, hw, hw0⟩ := List.mem_map.mp h.base.1
  obtain ⟨f, hf, -⟩ := lookup_of_mem h.nodup hw
  rw [hw0] at hf
  obtain ⟨c, hc, hc1⟩ : ∃ c, s.clients.find? (fun c => c.id = 1) = some c ∧ c.id = 1 := by
    obtain ⟨c, hc, hc1⟩ := h.client
    cases hfind : s.clients.find? (fun c => c.id = 1) with
    | none => exact absurd hc1 (by simpa using List.find?_eq_none.mp hfind c hc)
    | some c => exact ⟨c, rfl, by simpa using List.find?_some hfind⟩
  obtain ⟨s', hs'⟩ := createWindow_plain D c f hid
  have hserve : serve D s (.create 1 1 1 0, (0, 0)) = s' := by
    change (byClient s 1 fun cptr => client_create D s cptr 1 1 0).2 = s'
    unfold byClient
    rw [hc]
    change (createBelow D s c 1 1 0 (if Flags.has 0 W_TOP then 1 else 0)).2 = s'
    rw [if_neg (by decide), createBelow, hf]
    change ((createWindow D s c 1 1 0 f).getD (0, s)).2 = s'
    rw [hs', Option.getD_some]
  rw [hserve] at hcount ⊢
  have hid0 : id ∉ s.ids := newid_fresh hid
  rcases createWindow_cases hs' with ⟨h0, -⟩ | ⟨id', tab, -, he, hnew⟩
  · exact absurd h.base.1 (by
      rw [← Int.natCast_eq_zero.mp h0]
      exact hid0)
  · obtain rfl : id = id' := Int.natCast_inj.mp he
    have hs : s.tree.map Window.mark = zip (.parent f.win.mark (f.next.map Window.mark) ::
        mapCtx Window.mark f.ctx) (f.childs.map Window.mark) :=
      focus_mark (Server.windowLookup_zip hf).1
    have hm := congrArg (Forest.map Window.mark) hnew.tree
    rw [map_zip] at hm
    have hp := paths_push (mapCtx Window.mark f.ctx) f.win.mark
      (newWindow D c.id 1 1 0 id tab.2).mark (f.next.map Window.mark) (f.childs.map Window.mark)
    rw [← hs] at hp
    have hmk : markPaths s'.tree = paths [] (zip (.parent f.win.mark (f.next.map Window.mark) ::
        mapCtx Window.mark f.ctx) (.node (newWindow D c.id 1 1 0 id tab.2).mark
          .nil (f.childs.map Window.mark))) := congrArg (paths []) hm
    rw [← hmk] at hp
    refine ⟨hcount, ?_, ?_, ?_, ?_⟩
    · have hw : s'.winid = (id + 1) % 65536 := (congrArg Server.winid hnew.others :)
      rw [hw]
      exact Nat.mod_lt _ (by decide)
    · rw [ids_mark, marks_toList, List.length_map, List.length_map, hp.length_eq, List.length_cons]
      have := h.windows
      rw [ids_mark, marks_toList, List.length_map, List.length_map] at this
      rw [markPaths] at this
      omega
    · have := h.amount
      rw [clientWindows, totalCount] at this ⊢
      rw [hp.countP_eq, List.countP_cons]
      rw [markPaths] at this
      rw [this]
      rfl
    · obtain ⟨c', hc', hc1'⟩ := h.client
      rw [hnew.clients]
      refine ⟨_, List.mem_map_of_mem hc', ?_⟩
      split_ifs
      · exact hc1'
      · exact hc1'

theorem filled (d : Display) (screen : Pixmap) (colors : Colors) {n : Nat} (hn : n ≤ 65534) :
    Filled (((.connect 1 0 0, (0, 0)) :: List.replicate n (.create 1 1 1 0, (0, 0))).foldl (serve D)
      (window_init d screen colors)) n := by
  induction n with
  | zero =>
    refine ⟨served_counted D d screen colors _, ?_, rfl, rfl, ?_⟩
    · change 0 < 65536
      omega
    · exact ⟨_, List.mem_cons_self, rfl⟩
  | succ n ih =>
    rw [List.replicate_succ', ← List.cons_append, List.foldl_append]
    exact (ih (by omega)).create (by omega)

/-- With 32768 windows `globTotalWindows` is -32768. -/
theorem window_counters_overflow : ¬ CountersExact (((.connect 1 0 0, (0, 0)) ::
      List.replicate 32768 (.create 1 1 1 0, (0, 0))).foldl (serve plain)
        (window_init ⟨2, 2, by decide, by decide⟩ (fun _ => 0) twoColors)) := by
  have h := filled plain ⟨2, 2, by decide, by decide⟩ (fun _ => 0) twoColors (n := 32768) (by omega)
  rw [h.exact_iff, h.amount]
  omega

end WWindowSystem
