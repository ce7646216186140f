import Mathlib.Tactic.Ring
import WWindowSystem.Library.Run
import WWindowSystem.Server.ColorRequests

namespace WWindowSystem

open Forest Function

def Server.runColor (D : Driver) (s : Server) (e : ColorEvent) : Server := (e.run D s).2

def Colors.uses (C : Colors) (i : Nat) (w : Window) : Bool :=
  w.isClient && TSTBIT (C.tables w.colTab).used i

def users (s : Server) (i : Nat) : Nat := s.tree.toList.countP (s.colors.uses i)

def writers (s : Server) (f : Focus) : Nat :=
  if s.colors.Owns f.win.id f.win.colTab then
    s.tree.toList.countP fun w => w.isClient && decide (w.colTab = f.win.colTab)
  else if f.win.isClient then 1 else 0

theorem countP_update (l : List Window) (T : Nat → ColorTable) (a : Nat) (t : ColorTable) (i : Nat) :
    (l.countP fun w => w.isClient && TSTBIT (Function.update T a t w.colTab).used i) +
        (if TSTBIT (T a).used i then l.countP fun w => w.isClient && decide (w.colTab = a) else 0) =
      (l.countP fun w => w.isClient && TSTBIT (T w.colTab).used i) +
        (if TSTBIT t.used i then l.countP fun w => w.isClient && decide (w.colTab = a) else 0) := by
  induction l with
  | nil => simp
  | cons w l ih =>
    simp only [List.countP_cons]
    by_cases ha : w.colTab = a
    · subst ha
      rw [update_self]
      cases hc : w.isClient <;> cases hT : TSTBIT (T w.colTab).used i <;>
        cases ht : TSTBIT t.used i <;> simp [hT, ht] at ih ⊢ <;> omega
    · rw [update_of_ne ha]
      simp only [ha, decide_false, Bool.and_false, Bool.false_eq_true, if_false, Nat.add_zero]
      omega

variable {l : List Window}

theorem countP_fresh {T : Nat → ColorTable} {a : Nat} {t : ColorTable}
    (h : ∀ w ∈ l, w.colTab < a) (i : Nat) :
    (l.countP fun w => w.isClient && TSTBIT (Function.update T a t w.colTab).used i) =
      l.countP fun w => w.isClient && TSTBIT (T w.colTab).used i := by
  apply List.countP_congr
  intro w hw
  have := h w hw
  rw [update_of_ne (by omega)]

variable {C : Colors} {g : ColorTable → ColorTable} {s : Server}

theorem users_setColors {f : Focus}
    (h : ColorInv s) (hz : f.zip = s.tree)
    (hC : C.tables = (writeTable s.colors f.win.id f.win.colTab g).1.tables) (i : Nat) :
    users (s.setColors f (C, (writeTable s.colors f.win.id f.win.colTab g).2)) i +
        (if TSTBIT (s.colors.tables f.win.colTab).used i then writers s f else 0) = users s i +
        if TSTBIT (g (privateTable s.colors f.win.id f.win.colTab)).used i then writers s f else 0 := by
  obtain ⟨rest, h1, h2⟩ := setColors_perm s f (C, (writeTable s.colors f.win.id f.win.colTab g).2) hz
  have hu : users (s.setColors f (C, (writeTable s.colors f.win.id f.win.colTab g).2)) i =
      ({ f.win with colTab := (writeTable s.colors f.win.id f.win.colTab g).2 } :: rest).countP
        fun w => w.isClient && TSTBIT (Function.update s.colors.tables
          (writeTable s.colors f.win.id f.win.colTab g).2
          (g (privateTable s.colors f.win.id f.win.colTab)) w.colTab).used i := by
    rw [users, h2.countP_eq, ← writeTable_tables, ← hC]
    rfl
  have hs : users s i = (f.win :: rest).countP
      fun w => w.isClient && TSTBIT (s.colors.tables w.colTab).used i := h1.countP_eq _
  rw [hu, hs]
  by_cases ho : s.colors.Owns f.win.id f.win.colTab
  · obtain ⟨h3, -⟩ := writeTable_owned ho g
    rw [h3, writers, if_pos ho, h1.countP_eq]
    exact countP_update _ _ _ _ i
  · obtain ⟨h3, -⟩ := writeTable_shared ho g
    have hr : ∀ w ∈ rest, w.colTab < s.colors.nextTable :=
      fun w hw => h.fresh w (h1.mem_iff.mpr (List.mem_cons_of_mem _ hw))
    rw [h3, writers, if_neg ho, List.countP_cons, List.countP_cons, countP_fresh hr]
    simp only [Window.isClient, update_self]
    by_cases hc : f.win.cptr.isSome = true
    · simp only [hc, Bool.true_and, if_true]
      omega
    · simp [hc]

def CountSafe (s : Server) : ColorEvent → Prop
  | .alloc handle _ _ _ =>
    ∀ f, s.windowLookup handle = some f →
      (∃ i < s.colors.colorCount, TSTBIT (s.colors.tables f.win.colTab).used i = false) →
      writers s f = 1
  | .free handle color =>
    ∀ f, s.windowLookup handle = some f →
      if color < 0 then
        (∃ i < s.colors.colorCount, s.colors.glob_sharedcolors ≤ i ∧
          TSTBIT (s.colors.tables f.win.colTab).used i = true) →
        writers s f = 0
      else
        (color < s.colors.colorCount ∧
          TSTBIT (s.colors.tables f.win.colTab).used color.toNat = true) →
        writers s f = 1
  | _ => True

structure CountInv (start : Nat → Int) (s : Server) : Prop extends ColorInv s where
  tables : 0 < s.colors.nextTable
  counts : ∀ i, s.colors.colorRefs i = start i + users s i

variable {start : Nat → Int}

theorem write_counted {f : Focus}
    (h : CountInv start s) (hz : f.zip = s.tree)
    (hC : C.tables = (writeTable s.colors f.win.id f.win.colTab g).1.tables ∧
      C.nextTable = (writeTable s.colors f.win.id f.win.colTab g).1.nextTable ∧ C.colorCount = s.colors.colorCount)
    (hg : ∀ t : ColorTable, t.Bounded s.colors.colorCount → (g t).Bounded s.colors.colorCount)
    (hr : ∀ i, C.colorRefs i + (if TSTBIT (s.colors.tables f.win.colTab).used i then (writers s f : Int) else 0) =
      s.colors.colorRefs i + if TSTBIT (g (privateTable s.colors f.win.id f.win.colTab)).used i then (writers s f : Int)
        else 0) : CountInv start (s.setColors f (C, (writeTable s.colors f.win.id f.win.colTab g).2)) := by
  refine ⟨setColors_inv h.toColorInv hz hC hg, ?_, fun i => ?_⟩
  · have h0 := h.tables
    change 0 < C.nextTable
    rw [hC.2.1]
    by_cases ho : s.colors.Owns f.win.id f.win.colTab
    · rw [(writeTable_owned ho _).2]
      exact h0
    · rw [(writeTable_shared ho _).2]
      omega
  · have hu := users_setColors h.toColorInv hz hC.1 i
    have hc := h.counts i
    have hi := hr i
    change C.colorRefs i = _
    split_ifs at hu hi <;> omega

theorem alloc_counted (h : CountInv start s)
    (handle red green blue : Nat) (hs : CountSafe s (.alloc handle red green blue)) :
    CountInv start (clientAllocColor s handle red green blue).2 := by
  unfold clientAllocColor
  cases hf : s.windowLookup handle with
  | none => exact h
  | some f =>
    obtain ⟨hz, -⟩ := Server.windowLookup_zip hf
    dsimp only
    rcases colorAllocColor_cases s.colors f.win.id f.win.colTab red green blue with
      he | ⟨index, hi, hun, -, he⟩
    · rw [he, setColors_self hz]
      exact h
    have hw : writers s f = 1 := hs f hf ⟨index, hi, hun⟩
    obtain ⟨hr, hcc, -⟩ := writeTable_counts s.colors f.win.id f.win.colTab (.alloc index red green blue)
    obtain ⟨-, hu, -⟩ := privateTable_spec s.colors f.win.id f.win.colTab
    rw [he]
    refine write_counted h hz ?_ (fun t ht => ht.alloc hi red green blue) fun i => ?_
    · exact ⟨rfl, rfl, hcc⟩
    simp only [Colors.addRef, hr, hw, ColorTable.alloc, TSTBIT_SETBIT, hu]
    by_cases hii : i = index
    · simp [hii, hun]
    · simp [hii, Ne.symm hii]

theorem free_counted (h : CountInv start s) (handle : Nat)
    (color : Int) (hs : CountSafe s (.free handle color)) : CountInv start (clientFreeColor s handle color).2 := by
  unfold clientFreeColor
  cases hf : s.windowLookup handle with
  | none => exact h
  | some f =>
    obtain ⟨hz, -⟩ := Server.windowLookup_zip hf
    obtain ⟨-, hu, hcol⟩ := privateTable_spec s.colors f.win.id f.win.colTab
    have hs := hs f hf
    dsimp only
    rcases colorFreeColor_cases s.colors f.win.id f.win.colTab color with
      ⟨code, he⟩ | ⟨hneg, -, he⟩ | ⟨hpos, hlt, hused, he⟩
    · rw [he, setColors_self hz]
      exact h
    · obtain ⟨hr, hcc, -⟩ := writeTable_counts s.colors f.win.id f.win.colTab
        (.freeAll s.colors.glob_sharedcolors)
      rw [he]
      refine write_counted
        (C := (writeTable s.colors f.win.id f.win.colTab (.freeAll s.colors.glob_sharedcolors)).1) h hz ?_
        (fun t ht => ht.freeAll s.colors.glob_sharedcolors) fun i => ?_
      · exact ⟨rfl, rfl, hcc⟩
      rw [if_pos hneg] at hs
      simp only [hr, ColorTable.freeAll, freeDown_bits, hu, hcol]
      -- either the bit is kept or nobody of the clients looks at it
      cases ht : TSTBIT (s.colors.tables f.win.colTab).used i with
      | false => simp
      | true =>
        by_cases hsh : s.colors.glob_sharedcolors ≤ i
        · simp [hs ⟨i, (h.bounded _).below_count i ht, hsh, ht⟩]
        · simp [hsh]
    · obtain ⟨hr, hcc, -⟩ := writeTable_counts s.colors f.win.id f.win.colTab (.free color.toNat)
      rw [if_neg (by omega)] at hs
      have hw : writers s f = 1 := hs ⟨hlt, hused⟩
      rw [he]
      refine write_counted h hz ?_ (fun t ht => ht.free color.toNat) fun i => ?_
      · exact ⟨rfl, rfl, hcc⟩
      simp only [Colors.addRef, hr, hw, ColorTable.free, TSTBIT_CLRBIT, hu]
      by_cases hii : i = color.toNat
      · simp [hii, hused]
      · simp [hii, Ne.symm hii]

theorem change_counted (h : CountInv start s) (handle : Nat)
    (color : Int) (red green blue : Nat) : CountInv start (clientChangeColor s handle color red green blue).2 := by
  unfold clientChangeColor
  cases hf : s.windowLookup handle with
  | none => exact h
  | some f =>
    obtain ⟨hz, -⟩ := Server.windowLookup_zip hf
    obtain ⟨-, hu, -⟩ := privateTable_spec s.colors f.win.id f.win.colTab
    dsimp only
    rcases colorChangeColor_cases s.colors f.win.id f.win.colTab color red green blue with
      he | ⟨-, -, -, -, he⟩
    · rw [he, setColors_self hz]
      exact h
    · obtain ⟨hr, hcc, -⟩ := writeTable_counts s.colors f.win.id f.win.colTab
        (fun t => t.setColor color.toNat red green blue)
      rw [he]
      refine write_counted (C := (writeTable s.colors f.win.id f.win.colTab fun t =>
        t.setColor color.toNat red green blue).1) h hz ?_
        (fun t ht => ht.setColor color.toNat red green blue) fun i => ?_
      · exact ⟨rfl, rfl, hcc⟩
      rw [hr]
      simp only [ColorTable.setColor, hu]

theorem freeTables_refs (hb : ∀ a, (C.tables a).Bounded C.colorCount)
    (hl : ∀ w ∈ l, w.isClient = true) (i : Nat) :
    (freeTables C l).colorRefs i = C.colorRefs i - l.countP (C.uses i) := by
  induction l generalizing C with
  | nil => simp [freeTables]
  | cons w l ih =>
    obtain ⟨hw, hl⟩ := List.forall_mem_cons.mp hl
    have hstep : freeTables C (w :: l) = freeTables (colorFreeTable C w.colTab) l := rfl
    have huses : (colorFreeTable C w.colTab).uses i = C.uses i := rfl
    have hrefs : (colorFreeTable C w.colTab).colorRefs i = _ := changeCounts_refs (hb w.colTab) (-1) i
    rw [hstep, ih (C := colorFreeTable C w.colTab) hb hl, huses, hrefs, List.countP_cons, Colors.uses, hw, Bool.true_and]
    split_ifs <;> push_cast <;> omega

variable {D : Driver}

theorem delete_counted (h : CountInv start s)
    (handle : Nat) : CountInv start (client_delete D s handle (0, 0)).2 := by
  obtain ⟨⟨l, hd⟩, hinv⟩ := client_delete_deleted (D := D) h.toColorInv handle
  obtain ⟨refs, hr⟩ := freeTables_eq s.colors l
  refine ⟨hinv, ?_, fun i => ?_⟩
  · rw [hd.colors, hr]
    exact h.tables
  · have huses : (freeTables s.colors l).uses i = s.colors.uses i := by
      rw [hr]
      rfl
    have hu : users s i = l.countP (s.colors.uses i) + users (client_delete D s handle (0, 0)).2 i := by
      rw [users, hd.tree.countP_eq, List.countP_append, users, hd.colors, huses]
    have hc := h.counts i
    rw [hd.colors, freeTables_refs h.bounded hd.clients]
    omega

theorem create_counted (h : CountInv start s)
    (cptr : Client) (wwidth wheight : Int) (flags : Flags) (parent : Nat) :
    CountInv start (createBelow D s cptr wwidth wheight flags parent).2 := by
  rcases createBelow_added (D := D) h.toColorInv h.tables cptr wwidth wheight flags parent with
    he | ⟨⟨ptab, w, ha, -⟩, hinv⟩
  · rw [he]
    exact h
  refine ⟨hinv, ?_, fun i => ?_⟩
  · rw [ha.colors]
    exact h.tables
  · have hu : users (createBelow D s cptr wwidth wheight flags parent).2 i =
        (w :: s.tree.toList).countP (s.colors.uses i) := by
      rw [users, ha.tree.countP_eq, ha.colors]
      rfl
    have hc := h.counts i
    rw [hu, ha.colors, changeCounts_refs (h.bounded w.colTab), List.countP_cons, Colors.uses, ha.client,
      Bool.true_and, hc, users]
    split_ifs <;> push_cast <;> omega

theorem runColor_counted {e : ColorEvent}
    (h : CountInv start s) (hs : CountSafe s e) : CountInv start (s.runColor D e) := by
  cases e with
  | create cptr wwidth wheight flags parent => exact create_counted h cptr wwidth wheight flags parent
  | delete handle => exact delete_counted h handle
  | alloc handle red green blue => exact alloc_counted h handle red green blue hs
  | free handle color => exact free_counted h handle color hs
  | change handle color red green blue => exact change_counted h handle color red green blue
  | get handle color => exact h

theorem colorInit_bounded {planes : Nat} (h : colorInit planes = some C) :
    (∀ a, (C.tables a).Bounded C.colorCount) ∧ (C.tables 0).colors = C.glob_sharedcolors ∧ C.nextTable = 1 := by
  unfold colorInit at h
  dsimp only at h
  split_ifs at h with hc
  obtain rfl := Option.some.inj h
  refine ⟨fun a => ?_, rfl, rfl⟩
  by_cases ha : a = 0
  · subst ha
    have hbit : ∀ i, TSTBIT (SETBIT (SETBIT (fun _ => 0) FGCOL_INDEX) BGCOL_INDEX) i = true → i < 2 := by
      intro i hi
      simp only [TSTBIT_SETBIT, FGCOL_INDEX, BGCOL_INDEX, Bool.or_eq_true, decide_eq_true_eq] at hi
      rcases hi with hi | hi | hi
      · omega
      · omega
      · simp [TSTBIT] at hi
    constructor
    · intro i hi
      exact hbit i hi
    · intro i hi
      have := hbit i hi
      dsimp only
      omega
  · simp only [update_of_ne ha]
    constructor
    · intro i hi
      simp [TSTBIT] at hi
    · intro i hi
      simp [TSTBIT] at hi

theorem colorInitShared_bounded (rgb : Int)
    (h : (∀ a, (C.tables a).Bounded C.colorCount) ∧ (C.tables 0).colors = C.glob_sharedcolors ∧ C.nextTable = 1) :
    (∀ a, ((colorInitShared C rgb).tables a).Bounded (colorInitShared C rgb).colorCount) ∧
      ((colorInitShared C rgb).tables 0).colors = (colorInitShared C rgb).glob_sharedcolors ∧
      (colorInitShared C rgb).nextTable = 1 := by
  obtain ⟨hb, ht, hn⟩ := h
  unfold colorInitShared
  split_ifs with hc
  · exact ⟨hb, ht, hn⟩
  refine ⟨fun a => ?_, ?_, hn⟩
  · by_cases ha : a = 0
    · subst ha
      simp only [Colors.setTable, update_self]
      constructor
      · intro i hi
        simp only [TSTBIT_SETBIT, Bool.or_eq_true, decide_eq_true_eq] at hi
        change i < (C.tables 0).colors + 1
        rcases hi with rfl | hi
        · omega
        · have := (hb 0).below_top i hi
          omega
      · intro i hi
        simp only [TSTBIT_SETBIT, Bool.or_eq_true, decide_eq_true_eq] at hi
        rcases hi with rfl | hi
        · omega
        · exact (hb 0).below_count i hi
    · simp only [Colors.setTable, update_of_ne ha]
      exact hb a
  · simp only [Colors.setTable, update_self]
    change (C.tables 0).colors + 1 = _
    rw [ht]

theorem startColors_bounded {planes bitmapPlanes : Nat} {specs : List Int}
    (h : startColors planes specs bitmapPlanes = some C) :
    (∀ a, (C.tables a).Bounded C.colorCount) ∧ C.nextTable = 1 := by
  obtain ⟨C₀, h₀, rfl⟩ := Option.map_eq_some_iff.mp h
  have hfold : ∀ (l : List Int) (C : Colors), ((∀ a, (C.tables a).Bounded C.colorCount) ∧
      (C.tables 0).colors = C.glob_sharedcolors ∧ C.nextTable = 1) →
      (∀ a, ((l.foldl colorInitShared C).tables a).Bounded (l.foldl colorInitShared C).colorCount) ∧
        (l.foldl colorInitShared C).nextTable = 1 := by
    intro l
    induction l with
    | nil => exact fun C h => ⟨h.1, h.2.2⟩
    | cons rgb l ih => exact fun C h => ih _ (colorInitShared_bounded rgb h)
  exact hfold specs C₀ (colorInit_bounded h₀)

theorem start_colorInv (d : Display) (screen : Pixmap)
    (h : (∀ a, (C.tables a).Bounded C.colorCount) ∧ C.nextTable = 1) :
    ColorInv (window_init d screen C) where
  nodup := (window_init_valid d screen C).nodup
  bounded := h.1
  fresh w hw := by
    change w.colTab < C.nextTable
    rw [h.2]
    simp only [window_init, toList, List.append_nil, List.mem_cons, List.not_mem_nil, or_false] at hw
    rcases hw with rfl | rfl
    · exact Nat.zero_lt_one
    · exact Nat.zero_lt_one
  closed w hw hc := by
    simp only [window_init, toList, List.append_nil, List.mem_cons, List.not_mem_nil, or_false] at hw
    rcases hw with rfl | rfl
    · cases hc
    · cases hc
  below := ⟨nofun, ⟨nofun, trivial, trivial⟩, trivial⟩

/-- As long as each bit that is set or cleared belongs to one window of a client. -/
theorem color_counts_exact {D : Driver} {d : Display} {screen : Pixmap} {planes bitmapPlanes : Nat}
    {specs : List Int} {C : Colors} (hC : startColors planes specs bitmapPlanes = some C)
    {l : List ColorEvent} (hl : AllSafe (Server.runColor D) CountSafe (window_init d screen C) l) (i : Nat) :
    (l.foldl (Server.runColor D) (window_init d screen C)).colors.colorRefs i =
        C.colorRefs i + users (l.foldl (Server.runColor D) (window_init d screen C)) i ∧
      C.colorRefs i ≤ (l.foldl (Server.runColor D) (window_init d screen C)).colors.colorRefs i := by
  have hstart : CountInv C.colorRefs (window_init d screen C) := by
    obtain ⟨hb, hn⟩ := startColors_bounded hC
    refine ⟨start_colorInv d screen ⟨hb, hn⟩, ?_, fun i => ?_⟩
    · change 0 < C.nextTable
      omega
    · exact (Int.add_zero _).symm
  have hend : CountInv C.colorRefs (l.foldl (Server.runColor D) (window_init d screen C)) :=
    hl.invariant (CountInv C.colorRefs) (fun _ _ h hs => runColor_counted h hs) hstart
  have hc := hend.counts i
  exact ⟨hc, by omega⟩

def fourColors : Colors := (startColors 2 [] 2).getD twoColors

def someClient : Client := { id := 1 }

def noScreen : Pixmap := fun _ => 0

def allocShared : List ColorEvent :=
  [.create someClient 10 10 0 0, .alloc 2 1 2 3, .create someClient 5 5 0 2, .free 3 3]

theorem allocShared_safe :
    AllSafe (Server.runColor plain) CountSafe (window_init vga noScreen fourColors) allocShared :=
  ⟨trivial, safe_of_all (by decide +kernel), trivial, safe_of_all (by decide +kernel), trivial⟩

theorem fourColors_start : startColors 2 [] 2 = some fourColors := rfl

theorem color_counts_exact_shared : (allocShared.foldl (Server.runColor plain)
      (window_init vga noScreen fourColors)).colors.colorRefs 3 = 1 := by
  rw [(color_counts_exact fourColors_start allocShared_safe 3).1]
  decide +kernel

def allocFree : List ColorEvent := [.create someClient 10 10 0 0, .alloc 2 1 2 3, .free 2 (-1)]

theorem color_counts_lost : startColors 2 [] 2 = some fourColors ∧ (allocFree.foldl (Server.runColor plain)
        (window_init vga noScreen fourColors)).colors.colorRefs 3 ≠ fourColors.colorRefs 3 +
        users (allocFree.foldl (Server.runColor plain) (window_init vga noScreen fourColors)) 3 :=
  ⟨fourColors_start, by decide +kernel⟩

end WWindowSystem
