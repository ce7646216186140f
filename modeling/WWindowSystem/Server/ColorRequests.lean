import WWindowSystem.Server.ColorTables
import WWindowSystem.Server.Reachable

namespace WWindowSystem

open Forest

def Server.setColors (s : Server) (f : Focus) (r : Colors × Nat) : Server :=
  ({ s with colors := r.1 }.setFocus { f with win := { f.win with colTab := r.2 } }).1

def clientAllocColor (s : Server) (handle red green blue : Nat) : Int × Server :=
  match s.windowLookup handle with
  | none => (-1, s)
  | some f =>
    let r := colorAllocColor s.colors f.win.id f.win.colTab red green blue
    (r.1, s.setColors f r.2)

def clientFreeColor (s : Server) (handle : Nat) (color : Int) : Int × Server :=
  match s.windowLookup handle with
  | none => (-1, s)
  | some f =>
    let r := colorFreeColor s.colors f.win.id f.win.colTab color
    (r.1, s.setColors f r.2)

def clientGetColor (s : Server) (handle : Nat) (color : Int) : Option (Nat × Nat × Nat) :=
  match s.windowLookup handle with
  | none => none
  | some f => colorGetColor s.colors f.win.colTab color

def clientChangeColor (s : Server) (handle : Nat) (color : Int) (red green blue : Nat) : Int × Server :=
  match s.windowLookup handle with
  | none => (-1, s)
  | some f =>
    let r := colorChangeColor s.colors f.win.id f.win.colTab color red green blue
    (r.1, s.setColors f r.2)

inductive ColorEvent where
  | create (cptr : Client) (wwidth wheight : Int) (flags : Flags) (parent : Nat)
  | delete (handle : Nat)
  | alloc (handle red green blue : Nat)
  | free (handle : Nat) (color : Int)
  | change (handle : Nat) (color : Int) (red green blue : Nat)
  | get (handle : Nat) (color : Int)

inductive ColorReply where
  | code (c : Int)
  | color (c : Option (Nat × Nat × Nat))
  deriving DecidableEq

/-- `createWindow` below the window with the given handle; the handle 0 is returned as well when the
source would search for a free handle for ever. -/
def createBelow (D : Driver) (s : Server) (cptr : Client) (wwidth wheight : Int) (flags : Flags)
    (parent : Nat) : Int × Server :=
  match s.windowLookup parent with
  | none => (0, s)
  | some f => (createWindow D s cptr wwidth wheight flags f).getD (0, s)

def ColorEvent.run (D : Driver) (s : Server) : ColorEvent → ColorReply × Server
  | .create cptr wwidth wheight flags parent =>
    let r := createBelow D s cptr wwidth wheight flags parent
    (.code r.1, r.2)
  | .delete handle =>
    let r := client_delete D s handle (0, 0)
    (.code r.1, r.2)
  | .alloc handle red green blue =>
    let r := clientAllocColor s handle red green blue
    (.code r.1, r.2)
  | .free handle color =>
    let r := clientFreeColor s handle color
    (.code r.1, r.2)
  | .change handle color red green blue =>
    let r := clientChangeColor s handle color red green blue
    (.code r.1, r.2)
  | .get handle color => (.color (clientGetColor s handle color), s)

def Window.isClient (w : Window) : Bool := w.cptr.isSome

def ClientsBelow : Forest Window → Prop
  | .nil => True
  | .node w cs ns =>
    (w.isClient = true → ∀ v ∈ cs.toList, v.isClient = true) ∧ ClientsBelow cs ∧ ClientsBelow ns

variable {k : Context Window} {t u : Forest Window}

theorem clientsBelow_zip
    (hsub : ∀ v ∈ u.toList, v ∈ t.toList ∨ v.isClient = true) (htu : ClientsBelow t → ClientsBelow u)
    (h : ClientsBelow (zip k t)) : ClientsBelow (zip k u) := by
  induction k generalizing t u with
  | nil => exact htu h
  | cons c k ih =>
    cases c with
    | prev w cs =>
      apply ih _ _ h
      · intro v hv
        simp only [toList, List.mem_cons, List.mem_append] at hv ⊢
        have := hsub v
        tauto
      · rintro ⟨hw, hc, ht⟩
        exact ⟨hw, hc, htu ht⟩
    | parent w ns =>
      apply ih _ _ h
      · intro v hv
        simp only [toList, List.mem_cons, List.mem_append] at hv ⊢
        have := hsub v
        tauto
      · rintro ⟨hw, ht, hn⟩
        refine ⟨fun hc v hv => ?_, htu ht, hn⟩
        exact (hsub v hv).elim (hw hc v) id

theorem clientsBelow_focus {w : Window} {cs ns : Forest Window}
    (h : ClientsBelow (zip k (.node w cs ns))) : ClientsBelow (.node w cs ns) := by
  induction k generalizing w cs ns with
  | nil => exact h
  | cons c k ih =>
    cases c with
    | prev v ds => exact (ih h).2.2
    | parent v ms => exact (ih h).2.1

structure ColorInv (s : Server) : Prop where
  nodup : s.ids.Nodup
  bounded : ∀ a, (s.colors.tables a).Bounded s.colors.colorCount
  fresh : ∀ w ∈ s.tree.toList, w.colTab < s.colors.nextTable
  closed : ∀ w ∈ s.tree.toList, w.isClient = true → w.is_open = false
  below : ClientsBelow s.tree

def freeTables (C : Colors) (l : List Window) : Colors :=
  l.foldl (fun C w => colorFreeTable C w.colTab) C

theorem freeTables_eq (C : Colors) (l : List Window) : ∃ refs, freeTables C l = { C with colorRefs := refs } := by
  unfold freeTables
  induction l generalizing C with
  | nil => exact ⟨C.colorRefs, rfl⟩
  | cons w l ih => exact ih (colorFreeTable C w.colTab)

theorem window_delete_one_colors (s : Server) (w : Window) :
    (window_delete_one s w).colors = colorFreeTable s.colors w.colTab := by
  unfold window_delete_one client_do_delete Server.updateClient
  dsimp only
  split_ifs <;> split <;> rfl

theorem deleted_colors (l : List Window) (s : Server) :
    (l.foldl window_delete_one s).colors = freeTables s.colors l := by
  unfold freeTables
  induction l generalizing s with
  | nil => rfl
  | cons w l ih => rw [List.foldl_cons, List.foldl_cons, ih, window_delete_one_colors]

variable {D : Driver} {s : Server}

theorem client_delete_cases (h : ColorInv s) (handle : Nat) :
    (client_delete D s handle (0, 0)).2 = s ∨ ∃ f : Focus, f.zip = s.tree ∧ f.win.isClient = true ∧
      (client_delete D s handle (0, 0)).2 = { (postorder (.node f.win f.childs .nil)).foldl window_delete_one s with
          tree := zip f.ctx f.next } := by
  unfold client_delete
  by_cases hh : handle < 2
  · rw [if_pos hh]
    exact .inl rfl
  rw [if_neg hh]
  cases hf : s.windowLookup handle with
  | none => exact .inl rfl
  | some f =>
    obtain ⟨hz, -⟩ := Server.windowLookup_zip hf
    dsimp only
    by_cases hc : f.win.cptr.isNone = true
    · rw [if_pos hc]
      exact .inl rfl
    · have hcl : f.win.isClient = true := by simpa [Window.isClient, Option.isSome_iff_ne_none] using hc
      have hmem : f.win ∈ s.tree.toList := hz ▸ mem_zip.mpr (.inl List.mem_cons_self)
      have ho := h.closed f.win hmem hcl
      rw [if_neg hc]
      simp only [ho, Bool.false_eq_true, if_false, hf, window_delete]
      split_ifs
      · exact .inl rfl
      · exact .inr ⟨f, hz, hcl, rfl⟩

theorem ClientsBelow.congr (h : u.map Window.isClient = t.map Window.isClient)
    (ht : ClientsBelow t) : ClientsBelow u := by
  induction t generalizing u with
  | nil =>
    cases u with
    | nil => trivial
    | node => simp [Forest.map] at h
  | node w cs ns ihc ihn =>
    cases u with
    | nil => simp [Forest.map] at h
    | node v ds ms =>
      simp only [Forest.map, node.injEq] at h
      obtain ⟨hw, hc, hn⟩ := h
      refine ⟨fun hv a ha => ?_, ihc hc ht.2.1, ihn hn ht.2.2⟩
      obtain ⟨b, hb, he⟩ := mem_of_map_eq hc a ha
      rw [he]
      exact ht.1 (hw ▸ hv) b hb

structure Deleted (s s' : Server) (l : List Window) : Prop where
  tree : s.tree.toList.Perm (l ++ s'.tree.toList)
  clients : ∀ w ∈ l, w.isClient = true
  colors : s'.colors = freeTables s.colors l

theorem client_delete_deleted (h : ColorInv s) (handle : Nat) :
    (∃ l, Deleted s (client_delete D s handle (0, 0)).2 l) ∧ ColorInv (client_delete D s handle (0, 0)).2 := by
  rcases client_delete_cases h handle with he | ⟨f, hz, hcl, he⟩
  · rw [he]
    exact ⟨⟨[], .refl _, by simp, rfl⟩, h⟩
  rw [he]
  have hpost := postorder_perm (.node f.win f.childs .nil)
  have hb := h.below
  rw [← hz] at hb
  have htree : s.tree.toList.Perm
      (postorder (.node f.win f.childs .nil) ++ (zip f.ctx f.next).toList) := by
    rw [← hz]
    refine (toList_zip _ _).trans ?_
    have h1 := (hpost.append (toList_zip f.ctx f.next)).symm
    refine List.Perm.trans ?_ h1
    simp only [toList, List.append_nil, List.cons_append, List.append_assoc]
    rfl
  have hsub : ∀ w ∈ (zip f.ctx f.next).toList, w ∈ s.tree.toList := by
    intro w hw
    exact htree.mem_iff.mpr (List.mem_append_right _ hw)
  refine ⟨⟨_, htree, fun w hw => ?_, deleted_colors _ s⟩, ?_, ?_, ?_, ?_, ?_⟩
  · have hw := hpost.mem_iff.mp hw
    simp only [toList, List.append_nil, List.mem_cons] at hw
    rcases hw with rfl | hw
    · exact hcl
    · exact (clientsBelow_focus hb).1 hcl w hw
  · have hn := h.nodup
    rw [Server.ids, ← hz] at hn
    exact zip_next_nodup hn
  · intro a
    dsimp only
    rw [deleted_colors]
    obtain ⟨refs, hr⟩ := freeTables_eq s.colors (postorder (.node f.win f.childs .nil))
    rw [hr]
    exact h.bounded a
  · intro w hw
    dsimp only
    rw [deleted_colors]
    obtain ⟨refs, hr⟩ := freeTables_eq s.colors (postorder (.node f.win f.childs .nil))
    rw [hr]
    exact h.fresh w (hsub w hw)
  · exact fun w hw => h.closed w (hsub w hw)
  · refine clientsBelow_zip (t := .node f.win f.childs f.next) (fun v hv => ?_) (fun ht => ht.2.2) hb
    exact .inl (List.mem_cons_of_mem _ (List.mem_append_right _ hv))

structure Added (s s' : Server) (pid : Nat) (ptab : Nat) (w : Window) : Prop where
  tree : s'.tree.toList.Perm (w :: s.tree.toList)
  parent : ∃ p ∈ s.tree.toList, p.id = pid ∧ p.colTab = ptab
  client : w.isClient = true
  closed : w.is_open = false
  tab : w.colTab = if pid = 0 then 0 else ptab
  colors : s'.colors = changeCounts s.colors w.colTab 1

theorem createBelow_added (h : ColorInv s) (h0 : 0 < s.colors.nextTable)
    (cptr : Client) (wwidth wheight : Int) (flags : Flags) (parent : Nat) :
    createBelow D s cptr wwidth wheight flags parent = (0, s) ∨
      (∃ ptab w, Added s (createBelow D s cptr wwidth wheight flags parent).2 parent ptab w ∧
        (createBelow D s cptr wwidth wheight flags parent).1 = w.id) ∧
        ColorInv (createBelow D s cptr wwidth wheight flags parent).2 := by
  unfold createBelow
  split
  · exact .inl rfl
  next f hf =>
  obtain ⟨hz, rfl⟩ := Server.windowLookup_zip hf
  cases hc : createWindow D s cptr wwidth wheight flags f with
  | none => exact .inl rfl
  | some r =>
  obtain ⟨handle, s'⟩ := r
  rw [Option.getD_some]
  rcases createWindow_cases hc with ⟨rfl, rfl⟩ | ⟨id, tab, rfl, hid, hnew⟩
  · exact .inl rfl
  right
  dsimp only
  have hmem : f.win ∈ s.tree.toList := hz ▸ mem_zip.mpr (.inl List.mem_cons_self)
  have htab : (colorCopyVirtualTable s.colors f.win.id f.win.colTab).2 < s.colors.nextTable := by
    rw [colorCopyVirtualTable]
    dsimp only
    split_ifs
    · exact h0
    · exact h.fresh _ hmem
  set w := newWindow D cptr.id wwidth wheight flags id
    (colorCopyVirtualTable s.colors f.win.id f.win.colTab).2 with hw
  have htree : s'.tree.toList.Perm (w :: s.tree.toList) := by
    have hpar : zip (.parent f.win f.next :: f.ctx) f.childs = s.tree := hz
    rw [hnew.tree, ← hpar]
    exact (toList_zip _ _).trans ((toList_zip _ _).symm.cons w)
  have hmem' : ∀ v ∈ s'.tree.toList, v = w ∨ v ∈ s.tree.toList :=
    fun v hv => List.mem_cons.mp (htree.mem_iff.mp hv)
  have hcol : s'.colors = changeCounts s.colors w.colTab 1 := hnew.colors
  refine ⟨⟨f.win.colTab, w, ⟨htree, ⟨f.win, hmem, rfl, rfl⟩, rfl, rfl, rfl, hcol⟩, hid⟩, ?_,
    ?_, ?_, ?_, ?_⟩
  · exact (createWindow_nodup hz hc h.nodup).1
  · intro a
    rw [hcol]
    exact h.bounded a
  · intro v hv
    rw [hcol]
    rcases hmem' v hv with rfl | hv
    · exact htab
    · exact h.fresh v hv
  · intro v hv hcl
    rcases hmem' v hv with rfl | hv
    · rfl
    · exact h.closed v hv hcl
  · rw [hnew.tree]
    have hb := h.below
    rw [← hz] at hb
    refine clientsBelow_zip (t := f.childs) ?_ (fun ht => ⟨fun _ v hv => absurd hv List.not_mem_nil,
      trivial, ht⟩) hb
    intro v hv
    simp only [toList, List.nil_append, List.mem_cons] at hv
    rcases hv with rfl | hv
    · exact .inr rfl
    · exact .inl hv

theorem setColors_perm (s : Server) (f : Focus) (r : Colors × Nat) (hz : f.zip = s.tree) :
    ∃ rest, s.tree.toList.Perm (f.win :: rest) ∧
      (s.setColors f r).tree.toList.Perm ({ f.win with colTab := r.2 } :: rest) := by
  refine ⟨_, hz ▸ focus_perm f, ?_⟩
  exact focus_perm { f with win := { f.win with colTab := r.2 } }

theorem setColors_self {f : Focus} (hz : f.zip = s.tree) : s.setColors f (s.colors, f.win.colTab) = s := by
  have : ({ f with win := { f.win with colTab := f.win.colTab } } : Focus) = f := rfl
  simp only [Server.setColors, Server.setFocus, this, hz]

theorem setColors_inv {f : Focus} {C : Colors} {g : ColorTable → ColorTable}
    (h : ColorInv s) (hz : f.zip = s.tree) (hC : C.tables = (writeTable s.colors f.win.id f.win.colTab g).1.tables ∧
      C.nextTable = (writeTable s.colors f.win.id f.win.colTab g).1.nextTable ∧ C.colorCount = s.colors.colorCount)
    (hg : ∀ t : ColorTable, t.Bounded s.colors.colorCount → (g t).Bounded s.colors.colorCount) :
    ColorInv (s.setColors f (C, (writeTable s.colors f.win.id f.win.colTab g).2)) := by
  obtain ⟨hct, hcn, hcc⟩ := hC
  obtain ⟨rest, h1, h2⟩ := setColors_perm s f (C, (writeTable s.colors f.win.id f.win.colTab g).2) hz
  have hmem : f.win ∈ s.tree.toList := h1.mem_iff.mpr List.mem_cons_self
  have hrest : ∀ w ∈ rest, w ∈ s.tree.toList := fun w hw => h1.mem_iff.mpr (List.mem_cons_of_mem _ hw)
  have hcases : ∀ w ∈ (s.setColors f
      (C, (writeTable s.colors f.win.id f.win.colTab g).2)).tree.toList,
      w = { f.win with colTab := (writeTable s.colors f.win.id f.win.colTab g).2 } ∨ w ∈ rest :=
    fun w hw => List.mem_cons.mp (h2.mem_iff.mp hw)
  refine ⟨?_, ?_, ?_, ?_, ?_⟩
  · have hn := (h1.map Window.id).nodup_iff.mp h.nodup
    exact (h2.map Window.id).nodup_iff.mpr hn
  · intro a
    change (C.tables a).Bounded C.colorCount
    rw [hct, hcc, writeTable_tables]
    obtain ⟨-, hu, hc⟩ := privateTable_spec s.colors f.win.id f.win.colTab
    by_cases ha : a = (writeTable s.colors f.win.id f.win.colTab g).2
    · subst ha
      rw [Function.update_self]
      apply hg
      have hb := h.bounded f.win.colTab
      refine ⟨fun i hi => ?_, fun i hi => ?_⟩
      · rw [hc]
        exact hb.below_top i (hu ▸ hi)
      · exact hb.below_count i (hu ▸ hi)
    · rw [Function.update_of_ne ha]
      exact h.bounded a
  · intro w hw
    change w.colTab < C.nextTable
    rw [hcn]
    by_cases ho : s.colors.Owns f.win.id f.win.colTab
    · obtain ⟨h3, h4⟩ := writeTable_owned ho g
      rw [h4]
      rcases hcases w hw with rfl | hw
      · rw [h3]
        exact h.fresh _ hmem
      · exact h.fresh w (hrest w hw)
    · obtain ⟨h3, h4⟩ := writeTable_shared ho g
      rw [h4]
      rcases hcases w hw with rfl | hw
      · change (writeTable s.colors f.win.id f.win.colTab g).2 < _
        rw [h3]
        omega
      · have := h.fresh w (hrest w hw)
        omega
  · intro w hw hcl
    rcases hcases w hw with rfl | hw
    · exact h.closed f.win hmem hcl
    · exact h.closed w (hrest w hw) hcl
  · refine h.below.congr ?_
    rw [← hz]
    simp only [Server.setColors, Server.setFocus, Focus.zip, map_zip, Forest.map]
    rfl

end WWindowSystem
