import WWindowSystem.Server.ColorCounts
import WWindowSystem.Server.Uncolored

namespace WWindowSystem

open Forest Function

def createEager (D : Driver) (s : Server) (cptr : Client) (wwidth wheight : Int) (flags : Flags)
    (parent : Nat) : Int × Server :=
  let r := createBelow D s cptr wwidth wheight flags parent
  if r.1 = 0 then r
  else match r.2.windowLookup r.1.toNat with
  | none => r
  | some f => (r.1, r.2.setColors f (makePrivateTable r.2.colors f.win.id f.win.colTab))

def ColorEvent.runEager (D : Driver) (s : Server) : ColorEvent → ColorReply × Server
  | .create cptr wwidth wheight flags parent =>
    let r := createEager D s cptr wwidth wheight flags parent
    (.code r.1, r.2)
  | e => e.run D s

structure Agree (t u : ColorTable) : Prop where
  colors : t.colors = u.colors
  used : t.used = u.used
  shades : ∀ i, TSTBIT t.used i = true →
    t.red i = u.red i ∧ t.green i = u.green i ∧ t.blue i = u.blue i

theorem Agree.trans {t u v : ColorTable} (h : Agree t u) (h' : Agree u v) : Agree t v := by
  refine ⟨h.colors.trans h'.colors, h.used.trans h'.used, fun i hi => ?_⟩
  obtain ⟨h1, h2, h3⟩ := h.shades i hi
  obtain ⟨h4, h5, h6⟩ := h'.shades i (h.used ▸ hi)
  exact ⟨h1.trans h4, h2.trans h5, h3.trans h6⟩

variable {t u : ColorTable}

theorem Agree.symm (h : Agree t u) : Agree u t := by
  refine ⟨h.colors.symm, h.used.symm, fun i hi => ?_⟩
  obtain ⟨h1, h2, h3⟩ := h.shades i (h.used ▸ hi)
  exact ⟨h1.symm, h2.symm, h3.symm⟩

theorem Agree.setColor (h : Agree t u) (index red green blue : Nat) :
    Agree (t.setColor index red green blue) (u.setColor index red green blue) := by
  refine ⟨h.colors, h.used, fun i hi => ?_⟩
  simp only [ColorTable.setColor]
  by_cases hii : i = index
  · subst hii
    simp only [update_self, and_self]
  · simp only [update_of_ne hii]
    exact h.shades i hi

theorem Agree.alloc (h : Agree t u) (index red green blue : Nat) :
    Agree (t.alloc index red green blue) (u.alloc index red green blue) := by
  refine ⟨?_, ?_, fun i hi => ?_⟩
  · simp only [ColorTable.alloc, h.colors]
  · simp only [ColorTable.alloc, h.used]
  · by_cases hii : i = index
    · subst hii
      simp only [ColorTable.alloc, ColorTable.setColor, update_self, and_self]
    · simp only [ColorTable.alloc, TSTBIT_SETBIT, Ne.symm hii, decide_false, Bool.false_or] at hi
      exact (h.setColor index red green blue).shades i hi

theorem Agree.free (h : Agree t u) (index : Nat) : Agree (t.free index) (u.free index) := by
  refine ⟨?_, ?_, fun i hi => ?_⟩
  · simp only [ColorTable.free, h.colors, h.used]
  · simp only [ColorTable.free, h.used]
  · simp only [ColorTable.free, TSTBIT_CLRBIT, Bool.and_eq_true] at hi
    exact h.shades i hi.2

theorem Agree.freeAll (h : Agree t u) (shared : Nat) :
    Agree (t.freeAll shared) (u.freeAll shared) := by
  refine ⟨rfl, ?_, fun i hi => ?_⟩
  · simp only [ColorTable.freeAll, h.colors, h.used]
  · simp only [ColorTable.freeAll, freeDown_bits, Bool.and_eq_true] at hi
    exact h.shades i hi.1

variable {C : Colors}

theorem privateTable_agree {tab n : Nat} (h : (C.tables tab).Bounded n) (win : Nat) :
    Agree (C.tables tab) (privateTable C win tab) := by
  by_cases ho : C.Owns win tab
  · rw [privateTable, ownTable_owned ho]
    exact ⟨rfl, rfl, fun i _ => ⟨rfl, rfl, rfl⟩⟩
  · rw [privateTable, ownTable_shared ho]
    simp only [makePrivateTable, update_self]
    refine ⟨rfl, rfl, fun i hi => ?_⟩
    have := h.below_top i hi
    simp only [this, if_true, and_self]

structure TableInv (s : Server) : Prop extends ColorInv s where
  tables : 0 < s.colors.nextTable
  glob : (s.colors.tables 0).win = none

theorem TableInv.target {s : Server} (h : TableInv s) (win tab : Nat) (g : ColorTable → ColorTable) :
    (writeTable s.colors win tab g).2 ≠ 0 := by
  by_cases ho : s.colors.Owns win tab
  · rw [(writeTable_owned ho g).1]
    rintro rfl
    rw [Colors.Owns, h.glob] at ho
    cases ho
  · rw [(writeTable_shared ho g).1]
    have := h.tables
    omega

structure Written (C : Colors) (win tab : Nat) (g : ColorTable → ColorTable) (C' : Colors) : Prop where
  tables : C'.tables = (writeTable C win tab g).1.tables
  nextTable : C'.nextTable = (writeTable C win tab g).1.nextTable
  colorCount : C'.colorCount = C.colorCount

variable {g : ColorTable → ColorTable}

theorem Written.other {C C' : Colors} {win tab a : Nat}
    (h : Written C win tab g C') (ha : a ≠ (writeTable C win tab g).2) : C'.tables a = C.tables a := by
  rw [h.tables, writeTable_tables, update_of_ne ha]

variable {win tab : Nat}

theorem Written.self {C C' : Colors} (h : Written C win tab g C') :
    C'.tables (writeTable C win tab g).2 = g (privateTable C win tab) := by
  rw [h.tables, writeTable_tables, update_self]

theorem TableInv.write {s : Server} {f : Focus}
    (h : TableInv s) (hz : f.zip = s.tree) (hC : Written s.colors f.win.id f.win.colTab g C)
    (hg : ∀ t : ColorTable, t.Bounded s.colors.colorCount → (g t).Bounded s.colors.colorCount) :
    TableInv (s.setColors f (C, (writeTable s.colors f.win.id f.win.colTab g).2)) := by
  refine ⟨setColors_inv h.toColorInv hz ⟨hC.tables, hC.nextTable, hC.colorCount⟩ hg, ?_, ?_⟩
  · have h0 := h.tables
    change 0 < C.nextTable
    rw [hC.nextTable]
    by_cases ho : s.colors.Owns f.win.id f.win.colTab
    · rw [(writeTable_owned ho g).2]
      exact h0
    · rw [(writeTable_shared ho g).2]
      omega
  · change (C.tables 0).win = none
    rw [hC.other (h.target _ _ _).symm]
    exact h.glob

def SharesOwn (s : Server) (f : Focus) : Prop :=
  s.colors.Owns f.win.id f.win.colTab ∧
    ∃ w ∈ s.tree.toList, w.colTab = f.win.colTab ∧ w.id ≠ f.win.id

instance (s : Server) (f : Focus) : Decidable (SharesOwn s f) := inferInstanceAs (Decidable (_ ∧ _))

variable {w : Window}

theorem written_windows {s : Server} {f : Focus}
    (h : ColorInv s) (hz : f.zip = s.tree) (hs : ¬ SharesOwn s f)
    (hw : w ∈ (s.setColors f (C, (writeTable s.colors f.win.id f.win.colTab g).2)).tree.toList) :
    (w = { f.win with colTab := (writeTable s.colors f.win.id f.win.colTab g).2 }) ∨
      (w.id ≠ f.win.id ∧ w ∈ s.tree.toList ∧
        w.colTab ≠ (writeTable s.colors f.win.id f.win.colTab g).2) := by
  obtain ⟨rest, h1, h2⟩ := setColors_perm s f (C, (writeTable s.colors f.win.id f.win.colTab g).2) hz
  rcases List.mem_cons.mp (h2.mem_iff.mp hw) with hw | hw
  · exact .inl hw
  right
  have hmem : w ∈ s.tree.toList := h1.mem_iff.mpr (List.mem_cons_of_mem _ hw)
  have hne : w.id ≠ f.win.id := by
    have hn := (h1.map Window.id).nodup_iff.mp h.nodup
    rw [List.map_cons, List.nodup_cons] at hn
    intro he
    exact hn.1 (he ▸ List.mem_map_of_mem hw)
  refine ⟨hne, hmem, ?_⟩
  by_cases ho : s.colors.Owns f.win.id f.win.colTab
  · rw [(writeTable_owned ho g).1]
    intro he
    exact hs ⟨ho, w, hmem, he, hne⟩
  · rw [(writeTable_shared ho g).1]
    have := h.fresh w hmem
    omega

def Colors.counts (C : Colors) : (Nat → Int) × Nat × Nat × Nat :=
  (C.colorRefs, C.colorCount, C.glob_sharedcolors, C.ulongBits)

structure Sim (s e : Server) : Prop where
  windows : s.windows = e.windows
  lazy : TableInv s
  eager : TableInv e
  counts : s.colors.counts = e.colors.counts
  glob : Agree (s.colors.tables 0) (e.colors.tables 0)
  agree : ∀ w ∈ s.tree.toList, ∀ v ∈ e.tree.toList, w.id = v.id →
    Agree (s.colors.tables w.colTab) (e.colors.tables v.colTab)
  own : ∀ v ∈ e.tree.toList, ∀ k, (e.colors.tables v.colTab).win = some k → k = v.id
  background : ∃ v ∈ e.tree.toList, v.id = 0 ∧ v.isClient = false

variable {s e : Server}

theorem Sim.unshared (h : Sim s e) (g : Focus) : ¬ SharesOwn e g := by
  rintro ⟨ho, v, hv, ht, hne⟩
  rw [Colors.Owns, ← ht] at ho
  exact hne (h.own v hv _ ho).symm

theorem Sim.write {f g : Focus} {C C' : Colors} {k : ColorTable → ColorTable}
    (h : Sim s e) (hf : f.zip = s.tree) (hg : g.zip = e.tree) (hid : f.win.id = g.win.id)
    (hC : Written s.colors f.win.id f.win.colTab k C)
    (hC' : Written e.colors g.win.id g.win.colTab k C') (hc : C.counts = C'.counts)
    (hb : ∀ (n : Nat) (t : ColorTable), t.Bounded n → n = s.colors.colorCount → (k t).Bounded n)
    (hk : ∀ t u, Agree t u → Agree (k t) (k u)) (hw : ∀ t, (k t).win = t.win)
    (hs : ¬ SharesOwn s f) :
    Sim (s.setColors f (C, (writeTable s.colors f.win.id f.win.colTab k).2))
      (e.setColors g (C', (writeTable e.colors g.win.id g.win.colTab k).2)) where
  windows := by rw [windows_setColors hf, windows_setColors hg, h.windows]
  lazy := h.lazy.write hf hC fun t ht => hb _ t ht rfl
  eager := by
    have hcc : e.colors.colorCount = s.colors.colorCount :=
      (congrArg (fun c => c.2.1) h.counts).symm
    exact h.eager.write hg hC' fun t ht => hb _ t ht hcc
  counts := hc
  glob := by
    change Agree (C.tables 0) (C'.tables 0)
    rw [hC.other (h.lazy.target _ _ _).symm, hC'.other (h.eager.target _ _ _).symm]
    exact h.glob
  agree := by
    intro w hw v hv he
    change Agree (C.tables w.colTab) (C'.tables v.colTab)
    have hfm : f.win ∈ s.tree.toList := hf ▸ mem_zip.mpr (.inl List.mem_cons_self)
    have hgm : g.win ∈ e.tree.toList := hg ▸ mem_zip.mpr (.inl List.mem_cons_self)
    rcases written_windows h.lazy.toColorInv hf hs hw with rfl | ⟨hne, hws, hwt⟩
    · rcases written_windows h.eager.toColorInv hg (h.unshared g) hv with rfl | ⟨hne, -, -⟩
      · rw [hC.self, hC'.self]
        apply hk
        have hag := h.agree _ hfm _ hgm hid
        exact (privateTable_agree (h.lazy.bounded _) _).symm.trans
          (hag.trans (privateTable_agree (h.eager.bounded _) _))
      · exact absurd (he.symm.trans hid) hne
    · rcases written_windows h.eager.toColorInv hg (h.unshared g) hv with rfl | ⟨-, hvs, hvt⟩
      · exact absurd (he.trans hid.symm) hne
      · rw [hC.other hwt, hC'.other hvt]
        exact h.agree w hws v hvs he
  own := by
    intro v hv n hn
    change (C'.tables v.colTab).win = some n at hn
    rcases written_windows h.eager.toColorInv hg (h.unshared g) hv with rfl | ⟨-, hvs, hvt⟩
    · rw [hC'.self, hw, (privateTable_spec e.colors g.win.id g.win.colTab).1] at hn
      exact (Option.some.inj hn).symm
    · rw [hC'.other hvt] at hn
      exact h.own v hvs n hn
  background := by
    obtain ⟨v, hv, hv0, hvc⟩ := h.background
    obtain ⟨rest, h1, h2⟩ :=
      setColors_perm e g (C', (writeTable e.colors g.win.id g.win.colTab k).2) hg
    rcases List.mem_cons.mp (h1.mem_iff.mp hv) with rfl | hv
    · exact ⟨_, h2.mem_iff.mpr List.mem_cons_self, hv0, hvc⟩
    · exact ⟨v, h2.mem_iff.mpr (List.mem_cons_of_mem _ hv), hv0, hvc⟩

theorem Sim.lookup (h : Sim s e) (handle : Nat) :
    (s.windowLookup handle = none ∧ e.windowLookup handle = none) ∨
      ∃ f g : Focus, s.windowLookup handle = some f ∧ e.windowLookup handle = some g ∧
        f.zip = s.tree ∧ g.zip = e.tree ∧ f.win.id = g.win.id ∧
        Agree (s.colors.tables f.win.colTab) (e.colors.tables g.win.colTab) := by
  have hl := windows_lookup h.windows handle
  cases hf : s.windowLookup handle with
  | none =>
    rw [hf, Option.map_none, eq_comm, Option.map_eq_none_iff] at hl
    exact .inl ⟨rfl, hl⟩
  | some f =>
    rw [hf, Option.map_some, eq_comm, Option.map_eq_some_iff] at hl
    obtain ⟨g, hg, -⟩ := hl
    obtain ⟨hzf, hidf⟩ := Server.windowLookup_zip hf
    obtain ⟨hzg, hidg⟩ := Server.windowLookup_zip hg
    have hid : f.win.id = g.win.id := hidf.trans hidg.symm
    have hfm : f.win ∈ s.tree.toList := hzf ▸ mem_zip.mpr (.inl List.mem_cons_self)
    have hgm : g.win ∈ e.tree.toList := hzg ▸ mem_zip.mpr (.inl List.mem_cons_self)
    exact .inr ⟨f, g, rfl, hg, hzf, hzg, hid, h.agree _ hfm _ hgm hid⟩

def SharingSafe (s : Server) : ColorEvent → Prop
  | .alloc handle _ _ _ =>
    ∀ f, s.windowLookup handle = some f →
      (∃ i < s.colors.colorCount, TSTBIT (s.colors.tables f.win.colTab).used i = false) →
      ¬ SharesOwn s f
  | .free handle color =>
    ∀ f, s.windowLookup handle = some f →
      (if color < 0 then s.colors.glob_sharedcolors < (s.colors.tables f.win.colTab).colors
        else color < s.colors.colorCount ∧
          TSTBIT (s.colors.tables f.win.colTab).used color.toNat = true) →
      ¬ SharesOwn s f
  | .change handle color _ _ _ =>
    ∀ f, s.windowLookup handle = some f →
      (0 ≤ color ∧ color < s.colors.colorCount ∧
        ¬ (f.win.id = 0 ∧ color < s.colors.glob_sharedcolors) ∧
        TSTBIT (s.colors.tables f.win.colTab).used color.toNat = true) →
      ¬ SharesOwn s f
  | _ => True

inductive ColorPlan where
  | reply (code : Int)
  | write (code : Int) (g : ColorTable → ColorTable) (ref : Option (Nat × Int))

def ColorPlan.run (C : Colors) (win tab : Nat) : ColorPlan → Int × Colors × Nat
  | .reply code => (code, C, tab)
  | .write code g none => (code, writeTable C win tab g)
  | .write code g (some r) =>
    (code, (writeTable C win tab g).1.addRef r.1 r.2, (writeTable C win tab g).2)

def allocPlan (t : ColorTable) (refs : Nat → Int) (n red green blue : Nat) : ColorPlan :=
  match leastUsed t.used refs n with
  | none => .reply (-1)
  | some i => .write i (.alloc i red green blue) (some (i, 1))

def freePlan (t : ColorTable) (n shared : Nat) (index : Int) : ColorPlan :=
  if index < 0 then
    if t.colors ≤ shared then .reply 0
    else .write (freeDown t.used shared t.colors).2 (.freeAll shared) none
  else if index ≥ n ∨ !TSTBIT t.used index.toNat then .reply (-1)
  else .write 1 (.free index.toNat) (some (index.toNat, -1))

def changePlan (t : ColorTable) (win n shared : Nat) (index : Int) (red green blue : Nat) : ColorPlan :=
  if index < 0 ∨ index ≥ n then .reply (-1)
  else if win = 0 ∧ index < shared then .reply (-1)
  else if !TSTBIT t.used index.toNat then .reply (-1)
  else .write 0 (fun t => t.setColor index.toNat red green blue) none

theorem colorAllocColor_plan (C : Colors) (win tab red green blue : Nat) : colorAllocColor C win tab red green blue =
      (allocPlan (C.tables tab) C.refs C.colorCount red green blue).run C win tab := by
  unfold colorAllocColor allocPlan
  cases leastUsed (C.tables tab).used C.refs C.colorCount with
  | none => rfl
  | some i => rfl

theorem colorFreeColor_plan (C : Colors) (win tab : Nat) (index : Int) : colorFreeColor C win tab index =
      (freePlan (C.tables tab) C.colorCount C.glob_sharedcolors index).run C win tab := by
  obtain ⟨-, hu, hc⟩ := privateTable_spec C win tab
  unfold colorFreeColor freePlan
  rw [← hu, ← hc]
  split_ifs
  · rfl
  · rfl
  · rfl
  · rfl

theorem colorChangeColor_plan (C : Colors) (win tab : Nat) (index : Int) (red green blue : Nat) :
    colorChangeColor C win tab index red green blue =
      (changePlan (C.tables tab) win C.colorCount C.glob_sharedcolors index red green blue).run C win tab := by
  unfold colorChangeColor changePlan
  split_ifs
  · rfl
  · rfl
  · rfl
  · rfl

def ColorPlan.Good (n : Nat) (p : ColorPlan) : Prop :=
  ∀ code g ref, p = .write code g ref →
    (∀ t : ColorTable, t.Bounded n → (g t).Bounded n) ∧ (∀ t u, Agree t u → Agree (g t) (g u)) ∧
      ∀ t, (g t).win = t.win

theorem allocPlan_good (t : ColorTable) (refs : Nat → Int) (n red green blue : Nat) :
    (allocPlan t refs n red green blue).Good n := by
  intro code g ref h
  unfold allocPlan at h
  cases hl : leastUsed t.used refs n with
  | none =>
    rw [hl] at h
    cases h
  | some i =>
    rw [hl] at h
    cases h
    have hi := (leastUsed_spec hl).1
    exact ⟨fun t ht => ht.alloc hi red green blue, fun t u hu => hu.alloc i red green blue, fun _ => rfl⟩

theorem freePlan_good (t : ColorTable) (n shared : Nat) (index : Int) : (freePlan t n shared index).Good n := by
  intro code g ref h
  unfold freePlan at h
  split_ifs at h
  · cases h
    exact ⟨fun t ht => ht.freeAll shared, fun t u hu => hu.freeAll shared, fun _ => rfl⟩
  · cases h
    exact ⟨fun t ht => ht.free index.toNat, fun t u hu => hu.free index.toNat, fun _ => rfl⟩

theorem changePlan_good (t : ColorTable) (win n shared : Nat) (index : Int) (red green blue : Nat) :
    (changePlan t win n shared index red green blue).Good n := by
  intro code g ref h
  unfold changePlan at h
  split_ifs at h
  cases h
  exact ⟨fun t ht => ht.setColor index.toNat red green blue,
    fun t u hu => hu.setColor index.toNat red green blue, fun _ => rfl⟩

theorem writeTable_written (C : Colors) (win tab : Nat) (g : ColorTable → ColorTable) :
    Written C win tab g (writeTable C win tab g).1 :=
  ⟨rfl, rfl, (writeTable_counts C win tab g).2.1⟩

theorem addRef_written (C : Colors) (win tab : Nat) (g : ColorTable → ColorTable) (i : Nat)
    (add : Int) : Written C win tab g ((writeTable C win tab g).1.addRef i add) :=
  ⟨rfl, rfl, (writeTable_counts C win tab g).2.1⟩

theorem writeTable_same_counts (C : Colors) (win tab : Nat) (g : ColorTable → ColorTable) :
    (writeTable C win tab g).1.counts = C.counts := by
  by_cases h : C.Owns win tab
  · simp only [writeTable, ownTable_owned h, Colors.setTable, Colors.counts]
  · simp only [writeTable, ownTable_shared h, makePrivateTable, Colors.setTable, Colors.counts]

theorem Sim.run {f g : Focus} (h : Sim s e) (hf : f.zip = s.tree)
    (hg : g.zip = e.tree) (hid : f.win.id = g.win.id) {p : ColorPlan}
    (hp : p.Good s.colors.colorCount) (hs : (∃ code k ref, p = .write code k ref) → ¬ SharesOwn s f) :
    (p.run s.colors f.win.id f.win.colTab).1 = (p.run e.colors g.win.id g.win.colTab).1 ∧
      Sim (s.setColors f (p.run s.colors f.win.id f.win.colTab).2)
        (e.setColors g (p.run e.colors g.win.id g.win.colTab).2) := by
  cases p with
  | reply code =>
    refine ⟨rfl, ?_⟩
    simp only [ColorPlan.run]
    rw [setColors_self hf, setColors_self hg]
    exact h
  | write code k ref =>
    obtain ⟨hb, hk, hw⟩ := hp _ _ _ rfl
    have hb' : ∀ (n : Nat) (t : ColorTable), t.Bounded n → n = s.colors.colorCount →
        (k t).Bounded n := by
      rintro n t ht rfl
      exact hb t ht
    have hsh : ¬ SharesOwn s f := hs ⟨_, _, _, rfl⟩
    have h1 := writeTable_same_counts s.colors f.win.id f.win.colTab k
    have h2 := writeTable_same_counts e.colors g.win.id g.win.colTab k
    have hc := h1.trans (h.counts.trans h2.symm)
    cases ref with
    | none =>
      exact ⟨rfl, h.write hf hg hid (writeTable_written ..) (writeTable_written ..) hc hb' hk hw hsh⟩
    | some r =>
      refine ⟨rfl, h.write hf hg hid (addRef_written ..) (addRef_written ..) ?_ hb' hk hw hsh⟩
      simp only [Colors.counts, Prod.mk.injEq] at hc
      simp only [Colors.addRef, Colors.counts, hc]

theorem Sim.alloc (h : Sim s e) (handle red green blue : Nat)
    (hs : SharingSafe s (.alloc handle red green blue)) :
    (clientAllocColor s handle red green blue).1 = (clientAllocColor e handle red green blue).1 ∧
      Sim (clientAllocColor s handle red green blue).2 (clientAllocColor e handle red green blue).2 := by
  unfold clientAllocColor
  rcases h.lookup handle with ⟨hf, hg⟩ | ⟨f, g, hf, hg, hzf, hzg, hid, ha⟩
  · rw [hf, hg]
    exact ⟨rfl, h⟩
  rw [hf, hg]
  dsimp only
  have hc := h.counts
  simp only [Colors.counts, Prod.mk.injEq] at hc
  have hrefs : s.colors.refs = e.colors.refs := by
    funext i
    rw [Colors.refs, Colors.refs, hc.1, hc.2.2.2]
  have hp : allocPlan (e.colors.tables g.win.colTab) e.colors.refs e.colors.colorCount red green blue =
      allocPlan (s.colors.tables f.win.colTab) s.colors.refs s.colors.colorCount red green blue := by
    rw [allocPlan, allocPlan, ← ha.used, ← hrefs, ← hc.2.1]
  rw [colorAllocColor_plan, colorAllocColor_plan, hp]
  apply h.run hzf hzg hid (allocPlan_good _ _ _ _ _ _)
  rintro ⟨code, k, ref, hw⟩
  apply hs f hf
  unfold allocPlan at hw
  cases hl : leastUsed (s.colors.tables f.win.colTab).used s.colors.refs s.colors.colorCount with
  | none =>
    rw [hl] at hw
    cases hw
  | some i => exact ⟨i, leastUsed_spec hl⟩

theorem Sim.free (h : Sim s e) (handle : Nat) (color : Int) (hs : SharingSafe s (.free handle color)) :
    (clientFreeColor s handle color).1 = (clientFreeColor e handle color).1 ∧
      Sim (clientFreeColor s handle color).2 (clientFreeColor e handle color).2 := by
  unfold clientFreeColor
  rcases h.lookup handle with ⟨hf, hg⟩ | ⟨f, g, hf, hg, hzf, hzg, hid, ha⟩
  · rw [hf, hg]
    exact ⟨rfl, h⟩
  rw [hf, hg]
  dsimp only
  have hc := h.counts
  simp only [Colors.counts, Prod.mk.injEq] at hc
  have hp : freePlan (e.colors.tables g.win.colTab) e.colors.colorCount e.colors.glob_sharedcolors color =
      freePlan (s.colors.tables f.win.colTab) s.colors.colorCount s.colors.glob_sharedcolors color := by
    rw [freePlan, freePlan, ← ha.used, ← ha.colors, ← hc.2.1, ← hc.2.2.1]
  rw [colorFreeColor_plan, colorFreeColor_plan, hp]
  apply h.run hzf hzg hid (freePlan_good _ _ _ _)
  rintro ⟨code, k, ref, hw⟩
  apply hs f hf
  unfold freePlan at hw
  split_ifs at hw with h1 h2 h3
  · rw [if_pos h1]
    omega
  · rw [if_neg h1]
    simp only [not_or, Bool.not_eq_true', Bool.not_eq_false] at h3
    exact ⟨by omega, h3.2⟩

theorem Sim.change (h : Sim s e) (handle : Nat) (color : Int) (red green blue : Nat)
    (hs : SharingSafe s (.change handle color red green blue)) : (clientChangeColor s handle color red green blue).1 =
        (clientChangeColor e handle color red green blue).1 ∧ Sim (clientChangeColor s handle color red green blue).2
        (clientChangeColor e handle color red green blue).2 := by
  unfold clientChangeColor
  rcases h.lookup handle with ⟨hf, hg⟩ | ⟨f, g, hf, hg, hzf, hzg, hid, ha⟩
  · rw [hf, hg]
    exact ⟨rfl, h⟩
  rw [hf, hg]
  dsimp only
  have hc := h.counts
  simp only [Colors.counts, Prod.mk.injEq] at hc
  have hp : changePlan (e.colors.tables g.win.colTab) g.win.id e.colors.colorCount
        e.colors.glob_sharedcolors color red green blue =
      changePlan (s.colors.tables f.win.colTab) f.win.id s.colors.colorCount
        s.colors.glob_sharedcolors color red green blue := by
    rw [changePlan, changePlan, ← ha.used, ← hc.2.1, ← hc.2.2.1, ← hid]
  rw [colorChangeColor_plan, colorChangeColor_plan, hp]
  apply h.run hzf hzg hid (changePlan_good _ _ _ _ _ _ _ _)
  rintro ⟨code, k, ref, hw⟩
  apply hs f hf
  unfold changePlan at hw
  split_ifs at hw with h1 h2 h3
  simp only [Bool.not_eq_true', Bool.not_eq_false] at h3
  exact ⟨by omega, by omega, h2, h3⟩

theorem Sim.get (h : Sim s e) (handle : Nat) (color : Int) :
    clientGetColor s handle color = clientGetColor e handle color := by
  unfold clientGetColor
  rcases h.lookup handle with ⟨hf, hg⟩ | ⟨f, g, hf, hg, -, -, -, ha⟩
  · rw [hf, hg]
  rw [hf, hg]
  dsimp only
  have hn : s.colors.colorCount = e.colors.colorCount := congrArg (fun c => c.2.1) h.counts
  unfold colorGetColor
  rw [ha.used, hn]
  split_ifs with h1 h2
  · rfl
  · rfl
  · simp only [Bool.not_eq_true', Bool.not_eq_false] at h2
    obtain ⟨h3, h4, h5⟩ := ha.shades _ (ha.used ▸ h2)
    dsimp only
    rw [h3, h4, h5]

theorem countP_of_ids {l m : List Window} {p q : Window → Bool} (h : (l.map Window.id).Perm (m.map Window.id))
    (hpq : ∀ w ∈ l, ∀ v ∈ m, w.id = v.id → p w = q v) : l.countP p = m.countP q := by
  induction l generalizing m with
  | nil =>
    rw [List.map_nil, List.nil_perm, List.map_eq_nil_iff] at h
    rw [h]
    rfl
  | cons w l ih =>
    have hw : w.id ∈ m.map Window.id := h.mem_iff.mp List.mem_cons_self
    obtain ⟨v, hv, hid⟩ := List.mem_map.mp hw
    obtain ⟨a, b, rfl⟩ := List.append_of_mem hv
    have hm : (a ++ v :: b).Perm (v :: (a ++ b)) := List.perm_middle
    have ht := h.trans (hm.map Window.id)
    rw [List.map_cons, List.map_cons, hid, List.perm_cons] at ht
    rw [hm.countP_eq, List.countP_cons, List.countP_cons, hpq w List.mem_cons_self v hv hid.symm]
    congr 1
    apply ih ht
    intro x hx y hy
    apply hpq x (List.mem_cons_of_mem _ hx)
    exact hm.mem_iff.mpr (List.mem_cons_of_mem _ hy)

variable {D : Driver}

theorem Sim.delete (h : Sim s e) (handle : Nat) :
    (client_delete D s handle (0, 0)).1 = (client_delete D e handle (0, 0)).1 ∧
      Sim (client_delete D s handle (0, 0)).2 (client_delete D e handle (0, 0)).2 := by
  obtain ⟨hcode, hwin⟩ := client_delete_windows (D := D) h.lazy.toColorInv h.eager.toColorInv
    h.windows handle
  obtain ⟨⟨l, hd⟩, hinv⟩ := client_delete_deleted (D := D) h.lazy.toColorInv handle
  obtain ⟨⟨m, hd'⟩, hinv'⟩ := client_delete_deleted (D := D) h.eager.toColorInv handle
  refine ⟨hcode, ?_⟩
  generalize (client_delete D s handle (0, 0)).2 = s' at *
  generalize (client_delete D e handle (0, 0)).2 = e' at *
  obtain ⟨refs, hr⟩ := freeTables_eq s.colors l
  obtain ⟨refs', hr'⟩ := freeTables_eq e.colors m
  have hsub : ∀ w ∈ s'.tree.toList, w ∈ s.tree.toList :=
    fun w hw => hd.tree.mem_iff.mpr (List.mem_append_right _ hw)
  have hsub' : ∀ w ∈ e'.tree.toList, w ∈ e.tree.toList :=
    fun w hw => hd'.tree.mem_iff.mpr (List.mem_append_right _ hw)
  have htab : s'.colors.tables = s.colors.tables := by rw [hd.colors, hr]
  have htab' : e'.colors.tables = e.colors.tables := by rw [hd'.colors, hr']
  have hids : (l.map Window.id).Perm (m.map Window.id) := by
    have h1 : s.ids.Perm (l.map Window.id ++ s'.ids) := by
      rw [Server.ids, Server.ids, ← List.map_append]
      exact hd.tree.map _
    have h2 : e.ids.Perm (m.map Window.id ++ e'.ids) := by
      rw [Server.ids, Server.ids, ← List.map_append]
      exact hd'.tree.map _
    rw [windows_ids h.windows, windows_ids hwin] at h1
    exact (List.perm_append_right_iff _).mp (h1.symm.trans h2)
  refine ⟨hwin, ⟨hinv, ?_, ?_⟩, ⟨hinv', ?_, ?_⟩, ?_, ?_, ?_, ?_, ?_⟩
  · rw [hd.colors, hr]
    exact h.lazy.tables
  · rw [htab]
    exact h.lazy.glob
  · rw [hd'.colors, hr']
    exact h.eager.tables
  · rw [htab']
    exact h.eager.glob
  · -- the deleted windows give back the same references
    have hrefs : refs = refs' := by
      funext i
      have h1 := freeTables_refs h.lazy.bounded hd.clients i
      have h2 := freeTables_refs h.eager.bounded hd'.clients i
      rw [hr] at h1
      rw [hr'] at h2
      have hc : l.countP (s.colors.uses i) = m.countP (e.colors.uses i) := by
        apply countP_of_ids hids
        intro w hw v hv hid
        have ha := h.agree w (hd.tree.mem_iff.mpr (List.mem_append_left _ hw)) v
          (hd'.tree.mem_iff.mpr (List.mem_append_left _ hv)) hid
        rw [Colors.uses, Colors.uses, hd.clients w hw, hd'.clients v hv, ha.used]
      have hrr : s.colors.colorRefs i = e.colors.colorRefs i :=
        congrArg (fun c => c.1 i) h.counts
      dsimp only at h1 h2
      rw [h1, h2, hc, hrr]
    have hc := h.counts
    simp only [Colors.counts, Prod.mk.injEq] at hc
    rw [hd.colors, hd'.colors, hr, hr', hrefs]
    simp only [Colors.counts, hc]
  · rw [htab, htab']
    exact h.glob
  · intro w hw v hv hid
    rw [htab, htab']
    exact h.agree w (hsub w hw) v (hsub' v hv) hid
  · intro v hv k hk
    rw [htab'] at hk
    exact h.own v (hsub' v hv) k hk
  · obtain ⟨v, hv, hv0, hvc⟩ := h.background
    rcases List.mem_append.mp (hd'.tree.mem_iff.mp hv) with hm | hm
    · rw [hd'.clients v hm] at hvc
      cases hvc
    · exact ⟨v, hm, hv0, hvc⟩

variable {pid ptab : Nat}

theorem Added.fresh {s s' : Server} (h : Added s s' pid ptab w)
    (hn : s'.ids.Nodup) : w.id ∉ s.ids := by
  have hp := (h.tree.map Window.id).nodup_iff.mp hn
  rw [List.map_cons, List.nodup_cons] at hp
  exact hp.1

theorem Added.inv {s s' : Server} (h : Added s s' pid ptab w)
    (hs : TableInv s) (hs' : ColorInv s') : TableInv s' := by
  refine ⟨hs', ?_, ?_⟩
  · rw [h.colors]
    exact hs.tables
  · rw [h.colors]
    exact hs.glob

theorem makePrivateTable_written (h : ¬ C.Owns win tab) :
    Written C win tab id (makePrivateTable C win tab).1 ∧
      (makePrivateTable C win tab).2 = (writeTable C win tab id).2 := by
  have hw : writeTable C win tab id = makePrivateTable C win tab := by
    rw [writeTable, ownTable_shared h]
    simp only [Colors.setTable, id, update_eq_self]
  rw [hw]
  exact ⟨⟨congrArg (fun r => r.1.tables) hw.symm, congrArg (fun r => r.1.nextTable) hw.symm, rfl⟩, rfl⟩

theorem Sim.create (h : Sim s e) (cptr : Client) (wwidth wheight : Int)
    (flags : Flags) (parent : Nat) : (createBelow D s cptr wwidth wheight flags parent).1 =
        (createEager D e cptr wwidth wheight flags parent).1 ∧ Sim (createBelow D s cptr wwidth wheight flags parent).2
        (createEager D e cptr wwidth wheight flags parent).2 := by
  obtain ⟨hcode, hwin⟩ := createBelow_windows (D := D) h.windows cptr wwidth wheight flags parent
  have hzero : 0 ∈ e.ids := by
    obtain ⟨v, hv, hv0, -⟩ := h.background
    exact hv0 ▸ List.mem_map_of_mem hv
  have hids := windows_ids h.windows
  unfold createEager
  rcases createBelow_added (D := D) h.lazy.toColorInv h.lazy.tables cptr wwidth wheight flags parent with
    hs | ⟨⟨ptab, w, ha, hw⟩, hinv⟩
  · rcases createBelow_added (D := D) h.eager.toColorInv h.eager.tables cptr wwidth wheight flags parent
      with he | ⟨⟨ptab', v, ha', hv⟩, hinv'⟩
    · rw [hs, he]
      exact ⟨rfl, h⟩
    · rw [hs, hv] at hcode
      have hv0 : v.id = 0 := by
        dsimp only at hcode
        omega
      exact absurd (hv0 ▸ hzero) (ha'.fresh hinv'.nodup)
  have hw0 : w.id ≠ 0 := by
    intro hw0
    exact ha.fresh hinv.nodup (hw0 ▸ hids ▸ hzero)
  rcases createBelow_added (D := D) h.eager.toColorInv h.eager.tables cptr wwidth wheight flags parent
    with he | ⟨⟨ptab', v, ha', hv⟩, hinv'⟩
  · rw [hw, he] at hcode
    dsimp only at hcode
    omega
  have hwv : w.id = v.id := by
    rw [hw, hv] at hcode
    omega
  have hfresh := ha'.fresh hinv'.nodup
  dsimp only
  rw [hv]
  generalize (createBelow D s cptr wwidth wheight flags parent).2 = s' at *
  generalize (createBelow D e cptr wwidth wheight flags parent).2 = e' at *
  obtain ⟨g, hg, hz, rfl⟩ := lookup_of_mem hinv'.nodup (ha'.tree.mem_iff.mpr List.mem_cons_self)
  have hT := ha.inv h.lazy hinv
  have hT' := ha'.inv h.eager hinv'
  have htab : s'.colors.tables = s.colors.tables := by
    rw [ha.colors]
    rfl
  have htab' : e'.colors.tables = e.colors.tables := by
    rw [ha'.colors]
    rfl
  -- the table that the new window would share is not its own
  have hno : ¬ e'.colors.Owns g.win.id g.win.colTab := by
    intro ho
    rw [Colors.Owns, htab', ha'.tab] at ho
    by_cases hp : parent = 0
    · rw [if_pos hp, h.eager.glob] at ho
      cases ho
    · rw [if_neg hp] at ho
      obtain ⟨p, hpm, -, hpt⟩ := ha'.parent
      have hown := h.own p hpm g.win.id (hpt ▸ ho)
      exact hfresh (hown ▸ List.mem_map_of_mem hpm)
  have hag : Agree (s'.colors.tables w.colTab) (e'.colors.tables g.win.colTab) := by
    rw [htab, htab', ha.tab, ha'.tab]
    by_cases hp : parent = 0
    · rw [if_pos hp, if_pos hp]
      exact h.glob
    · rw [if_neg hp, if_neg hp]
      obtain ⟨p, hpm, hpi, hpt⟩ := ha.parent
      obtain ⟨q, hqm, hqi, hqt⟩ := ha'.parent
      rw [← hpt, ← hqt]
      exact h.agree p hpm q hqm (hpi.trans hqi.symm)
  obtain ⟨hwr, hsnd⟩ := makePrivateTable_written hno
  have hpair : makePrivateTable e'.colors g.win.id g.win.colTab =
      ((makePrivateTable e'.colors g.win.id g.win.colTab).1,
        (writeTable e'.colors g.win.id g.win.colTab id).2) := Prod.ext rfl hsnd
  have hns : ¬ SharesOwn e' g := fun hs => hno hs.1
  have hv0 : ¬ ((g.win.id : Int) = 0) := by omega
  simp only [if_neg hv0, Int.toNat_natCast, hg]
  rw [hpair, hw]
  refine ⟨by rw [hwv], ?_, hT, hT'.write hz hwr fun t ht => ht, ?_, ?_, ?_, ?_, ?_⟩
  · rw [windows_setColors hz, hwin]
  · have hc := h.counts
    simp only [Colors.counts, Prod.mk.injEq] at hc
    have hrefs : s'.colors.colorRefs = e'.colors.colorRefs := by
      funext i
      have hu := hag.used
      rw [htab, htab'] at hu
      rw [ha.colors, ha'.colors, changeCounts_refs (h.lazy.bounded _),
        changeCounts_refs (h.eager.bounded _), hu, hc.1]
    change s'.colors.counts = e'.colors.counts
    rw [Colors.counts, Colors.counts, hrefs, ha.colors, ha'.colors]
    simp only [changeCounts, hc]
  · change Agree (s'.colors.tables 0) ((makePrivateTable e'.colors g.win.id g.win.colTab).1.tables 0)
    rw [hwr.other (hT'.target _ _ _).symm, htab, htab']
    exact h.glob
  · intro x hx y hy hxy
    change Agree _ ((makePrivateTable e'.colors g.win.id g.win.colTab).1.tables y.colTab)
    rcases written_windows hinv' hz hns hy with rfl | ⟨hne, hym, hyt⟩
    · rcases List.mem_cons.mp (ha.tree.mem_iff.mp hx) with rfl | hx
      · rw [hwr.self]
        exact hag.trans (privateTable_agree (hinv'.bounded _) _)
      · exact absurd (hids ▸ hxy ▸ List.mem_map_of_mem hx) hfresh
    · rw [hwr.other hyt]
      rcases List.mem_cons.mp (ha'.tree.mem_iff.mp hym) with rfl | hym
      · exact absurd rfl hne
      rcases List.mem_cons.mp (ha.tree.mem_iff.mp hx) with rfl | hx
      · exact absurd (hxy.symm.trans hwv) hne
      · rw [htab, htab']
        exact h.agree x hx y hym hxy
  · intro y hy k hk
    change ((makePrivateTable e'.colors g.win.id g.win.colTab).1.tables y.colTab).win = some k at hk
    rcases written_windows hinv' hz hns hy with rfl | ⟨hne, hym, hyt⟩
    · rw [hwr.self, id, (privateTable_spec e'.colors g.win.id g.win.colTab).1] at hk
      exact (Option.some.inj hk).symm
    · rw [hwr.other hyt, htab'] at hk
      rcases List.mem_cons.mp (ha'.tree.mem_iff.mp hym) with rfl | hym
      · exact absurd rfl hne
      · exact h.own y hym k hk
  · obtain ⟨y, hy, hy0, hyc⟩ := h.background
    obtain ⟨rest, h1, h2⟩ := setColors_perm e' g ((makePrivateTable e'.colors g.win.id g.win.colTab).1,
      (writeTable e'.colors g.win.id g.win.colTab id).2) hz
    rcases List.mem_cons.mp (h1.mem_iff.mp (ha'.tree.mem_iff.mpr (List.mem_cons_of_mem _ hy))) with
      rfl | hy
    · exact ⟨_, h2.mem_iff.mpr List.mem_cons_self, hy0, hyc⟩
    · exact ⟨y, h2.mem_iff.mpr (List.mem_cons_of_mem _ hy), hy0, hyc⟩

theorem Sim.step {ev : ColorEvent} (h : Sim s e) (hs : SharingSafe s ev) :
    (ev.run D s).1 = (ev.runEager D e).1 ∧ Sim (ev.run D s).2 (ev.runEager D e).2 := by
  cases ev with
  | create cptr wwidth wheight flags parent =>
    obtain ⟨hr, hs'⟩ := h.create (D := D) cptr wwidth wheight flags parent
    exact ⟨congrArg ColorReply.code hr, hs'⟩
  | delete handle =>
    obtain ⟨hr, hs'⟩ := h.delete (D := D) handle
    exact ⟨congrArg ColorReply.code hr, hs'⟩
  | alloc handle red green blue =>
    obtain ⟨hr, hs'⟩ := h.alloc handle red green blue hs
    exact ⟨congrArg ColorReply.code hr, hs'⟩
  | free handle color =>
    obtain ⟨hr, hs'⟩ := h.free handle color hs
    exact ⟨congrArg ColorReply.code hr, hs'⟩
  | change handle color red green blue =>
    obtain ⟨hr, hs'⟩ := h.change handle color red green blue hs
    exact ⟨congrArg ColorReply.code hr, hs'⟩
  | get handle color => exact ⟨congrArg ColorReply.color (h.get handle color), h⟩

variable {specs : List Int} {planes bitmapPlanes : Nat}

theorem startColors_glob
    (h : startColors planes specs bitmapPlanes = some C) : (C.tables 0).win = none := by
  obtain ⟨C₀, h₀, rfl⟩ := Option.map_eq_some_iff.mp h
  have hfold : ∀ (l : List Int) (C : Colors), (C.tables 0).win = none →
      ((l.foldl colorInitShared C).tables 0).win = none := by
    intro l
    induction l with
    | nil => exact fun C h => h
    | cons rgb l ih =>
      intro C h
      apply ih
      unfold colorInitShared
      split_ifs
      · exact h
      · simp only [Colors.setTable, update_self]
        exact h
  apply hfold specs C₀
  unfold colorInit at h₀
  dsimp only at h₀
  split_ifs at h₀
  obtain rfl := Option.some.inj h₀
  simp only [update_self]
  rfl

theorem start_sim (d : Display) (screen : Pixmap)
    (h : startColors planes specs bitmapPlanes = some C) :
    Sim (window_init d screen C) (window_init d screen C) := by
  obtain ⟨hb, hn⟩ := startColors_bounded h
  have hg := startColors_glob h
  have hinv : TableInv (window_init d screen C) :=
    ⟨start_colorInv d screen ⟨hb, hn⟩, by rw [show (window_init d screen C).colors = C from rfl]; omega, hg⟩
  have htab : ∀ w ∈ (window_init d screen C).tree.toList, w.colTab = 0 := by
    intro w hw
    simp only [window_init, toList, List.append_nil, List.mem_cons, List.not_mem_nil, or_false] at hw
    rcases hw with rfl | rfl
    · rfl
    · rfl
  refine ⟨rfl, hinv, hinv, rfl, ⟨rfl, rfl, fun i _ => ⟨rfl, rfl, rfl⟩⟩, fun w hw v hv _ => ?_,
    fun v hv k hk => ?_, glob_backgroundwindow d screen, ?_, rfl, rfl⟩
  · rw [htab w hw, htab v hv]
    exact ⟨rfl, rfl, fun i _ => ⟨rfl, rfl, rfl⟩⟩
  · rw [htab v hv] at hk
    exact absurd (hg.symm.trans hk) (by simp)
  · simp [window_init, toList]

/-- As long as no window writes to a table of its own that other windows still share. -/
theorem color_sharing_unobservable {D : Driver} {d : Display} {screen : Pixmap}
    {planes bitmapPlanes : Nat} {specs : List Int} {C : Colors}
    (hC : startColors planes specs bitmapPlanes = some C) {l : List ColorEvent}
    (hl : AllSafe (Server.runColor D) SharingSafe (window_init d screen C) l) :
    replies (fun s ev => ColorEvent.run D s ev) (window_init d screen C) l =
      replies (fun s ev => ColorEvent.runEager D s ev) (window_init d screen C) l := by
  have hstep : ∀ s e ev, Sim s e → SharingSafe s ev →
      (ColorEvent.run D s ev).1 = (ColorEvent.runEager D e ev).1 ∧
        Sim (ColorEvent.run D s ev).2 (ColorEvent.runEager D e ev).2 :=
    fun s e ev h hs => h.step hs
  exact AllSafe.replies_eq Sim hstep hl (start_sim d screen hC)

def childFrees : List ColorEvent := allocShared ++ [.get 2 3]

theorem childFrees_safe :
    AllSafe (Server.runColor plain) SharingSafe (window_init vga noScreen fourColors) childFrees :=
  ⟨trivial, safe_of_all (by decide +kernel), trivial, safe_of_all (by decide +kernel), trivial, trivial⟩

theorem color_sharing_unobservable_child :
    replies (fun s ev => ColorEvent.run plain s ev) (window_init vga noScreen fourColors) childFrees =
      replies (fun s ev => ColorEvent.runEager plain s ev) (window_init vga noScreen fourColors) childFrees :=
  color_sharing_unobservable fourColors_start childFrees_safe

def parentChanges : List ColorEvent :=
  [.create someClient 10 10 0 0, .alloc 2 1 2 3, .create someClient 5 5 0 2, .change 2 3 7 7 7, .get 3 3]

theorem color_sharing_seen : startColors 2 [] 2 = some fourColors ∧
      replies (fun s ev => ColorEvent.run plain s ev) (window_init vga noScreen fourColors) parentChanges ≠
        replies (fun s ev => ColorEvent.runEager plain s ev) (window_init vga noScreen fourColors) parentChanges :=
  ⟨fourColors_start, by decide +kernel⟩

end WWindowSystem
