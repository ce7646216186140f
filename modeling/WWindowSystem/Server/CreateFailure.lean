import WWindowSystem.Server.Static

namespace WWindowSystem

open Forest

/-- Which of the allocations of `createWindow` succeed: the window, its entry in the table of the ids and
its bitmap. -/
structure Allocations where
  window : Bool
  entry : Bool
  bitmap : Bool

inductive Creation where
  | fault
  | endless
  | reply (handle : Int) (s : Server)

def client_do_delete_null (s : Server) (win : Window) (colTab : Option Nat) : Option Server := do
  let s := if win.id = s.glob_activewindow then { s with glob_activewindow := 0 } else s
  let s := if win.id = s.glob_activetopwin then { s with glob_activetopwin := 0 } else s
  let tab ← colTab
  let s := { s with colors := colorFreeTable s.colors tab }
  let cptr ← win.cptr
  let s := s.updateClient cptr fun c => { c with totalWindows := c.totalWindows - 1 }
  return { s with globTotalWindows := short (s.globTotalWindows - 1) }

def window_delete_null (s : Server) (f : Focus) (colTab : Option Nat) : Option Server := do
  let s := if s.window_find_cache = some f.win.id then { s with window_find_cache := none } else s
  let s ← client_do_delete_null s f.win colTab
  let s := if f.win.flags.has W_TOP ∧ s.topWindow = some f.win.id then { s with topWindow := none } else s
  return { s with tree := zip f.ctx f.next }

/-- `createWindow` when memory may run out. The window that `window_create` returns is zero where it sets
nothing: it has neither a client nor a color table. -/
def createWindowMem (a : Allocations) (D : Driver) (s : Server) (cptr : Client) (wwidth wheight : Int) (flags : Flags)
    (parent : Focus) : Creation :=
  if flags.has W_TOP && (cptr.raddr ≠ 0 || cptr.uid ≠ s.glob_uid) then .reply 0 s
  else if (windowFlags flags).has W_TOP && s.topWindow.isSome then .reply 0 s
  else if !a.window then .reply 0 s
  else
    match window_newid s with
    | none => .endless
    | some r =>
      if !a.entry then .reply 0 r.2
      else if !a.bitmap then
        match window_create s parent (windowFlags flags) with
        | some (some f, s) => ((window_delete_null s f none).map (Creation.reply 0)).getD .fault
        | _ => .endless
      else ((createWindow D s cptr wwidth wheight flags parent).map fun r => .reply r.1 r.2).getD .endless

/-- No null pointer is followed, and after a refusal tree, handles, `topWindow` and counters are the old
ones. -/
def Creation.Clean (s : Server) : Creation → Prop
  | .fault => False
  | .endless => True
  | .reply handle t => handle = 0 → t.tree = s.tree ∧ t.topWindow = s.topWindow ∧
      t.colors.colorRefs = s.colors.colorRefs ∧ t.clients = s.clients ∧ t.globOpenWindows = s.globOpenWindows ∧
      t.globTotalWindows = s.globTotalWindows

def ReachesBitmap (a : Allocations) (s : Server) (cptr : Client) (flags : Flags) : Prop :=
  ¬ (flags.has W_TOP && (cptr.raddr ≠ 0 || cptr.uid ≠ s.glob_uid)) = true ∧
    ¬ ((windowFlags flags).has W_TOP && s.topWindow.isSome) = true ∧ a.window = true ∧ a.entry = true ∧
    (window_newid s).isSome = true

variable {a : Allocations} {D : Driver} {s : Server} {cptr : Client} {wwidth wheight : Int} {flags : Flags} {parent : Focus}

theorem window_newid_keeps {r : Nat × Server} (h : window_newid s = some r) : r.2 = { s with winid := r.2.winid } := by
  obtain ⟨id, -, rfl⟩ := Option.map_eq_some_iff.mp h
  rfl

theorem window_newid_create (parent : Focus) {r : Nat × Server} (ht : ¬ ((windowFlags flags).has W_TOP && s.topWindow.isSome) = true)
    (h : window_newid s = some r) : ∃ f t, window_create s parent (windowFlags flags) = some (some f, t) := by
  unfold window_create
  rw [if_neg ht, h]
  exact ⟨_, _, rfl⟩

theorem createWindowMem_fault (h : ReachesBitmap a s cptr flags) (hb : a.bitmap = false) :
    createWindowMem a D s cptr wwidth wheight flags parent = .fault := by
  obtain ⟨hlocal, htop, hw, he, hid⟩ := h
  obtain ⟨r, hr⟩ := Option.isSome_iff_exists.mp hid
  obtain ⟨f, t, hf⟩ := window_newid_create parent htop hr
  unfold createWindowMem
  rw [if_neg hlocal, if_neg htop, hw, he, hb, hr]
  simp only [Bool.not_true, Bool.false_eq_true, if_false, Bool.not_false, if_true, hf]
  rfl

theorem createWindowMem_clean (h0 : 0 ∈ s.tree.toList.map Window.id) (h : ¬ (ReachesBitmap a s cptr flags ∧ a.bitmap = false)) :
    (createWindowMem a D s cptr wwidth wheight flags parent).Clean s := by
  have hsame : (Creation.reply 0 s).Clean s := fun _ => ⟨rfl, rfl, rfl, rfl, rfl, rfl⟩
  unfold createWindowMem
  split_ifs with hlocal htop hw he hb
  · exact hsame
  · exact hsame
  · exact hsame
  · cases hr : window_newid s with
    | none => exact trivial
    | some r =>
      simp only
      rw [window_newid_keeps hr]
      exact hsame
  · cases hr : window_newid s with
    | none => exact trivial
    | some r =>
      refine absurd ⟨⟨hlocal, htop, ?_, ?_, ?_⟩, ?_⟩ h
      · simpa using hw
      · simpa using he
      · rw [hr]
        rfl
      · simpa using hb
  · cases hr : window_newid s with
    | none => exact trivial
    | some r =>
      cases hc : createWindow D s cptr wwidth wheight flags parent with
      | none => exact trivial
      | some r =>
        rcases createWindow_cases hc with ⟨-, hs⟩ | ⟨id, tab, -, hid, hnew⟩
        · simp only [Option.map_some, Option.getD_some, hs]
          exact fun _ => hsame rfl
        · intro hzero
          have hid0 : id = 0 := by
            rw [hid] at hzero
            exact_mod_cast hzero
          exact absurd (hid0 ▸ h0) hnew.fresh

theorem createWindow_refusal_clean (a : Allocations) (D : Driver) (s : Server) (h0 : 0 ∈ s.tree.toList.map Window.id)
    (cptr : Client) (wwidth wheight : Int) (flags : Flags) (parent : Focus) :
    (createWindowMem a D s cptr wwidth wheight flags parent).Clean s ↔ ¬ (ReachesBitmap a s cptr flags ∧ a.bitmap = false) := by
  constructor
  · rintro h ⟨hreach, hb⟩
    rw [createWindowMem_fault hreach hb] at h
    exact h
  · exact createWindowMem_clean h0

def smallServer : Server := window_init ⟨4, 4, by decide, by decide⟩ (fun _ => 0) ⟨2, 2, fun _ => 1, fun _ => ⟨none, 2, fun _ => 0, fun _ => 0, fun _ => 0, fun _ => 0xc0⟩, 1, 32⟩

def plainDriver : Driver := ⟨fun _ _ => 0, fun _ _ => [], fun _ _ => 0, 10⟩

def background : Focus :=
  ⟨[.parent (glob_rootwindow ⟨4, 4, by decide, by decide⟩) .nil],
    glob_backgroundwindow ⟨4, 4, by decide, by decide⟩ (fun _ => 0), .nil, .nil⟩

theorem createWindow_refusal_clean_start :
    (createWindowMem ⟨true, true, true⟩ plainDriver smallServer ⟨7, 0, 0, [], 0, 0⟩ 2 2 0 background).Clean smallServer ↔
      ¬ (ReachesBitmap ⟨true, true, true⟩ smallServer ⟨7, 0, 0, [], 0, 0⟩ 0 ∧ true = false) :=
  createWindow_refusal_clean ⟨true, true, true⟩ plainDriver smallServer (by decide) ⟨7, 0, 0, [], 0, 0⟩ 2 2 0 background

/-- There is no memory for the bitmap of the first window. -/
theorem createWindow_refusal_fault :
    ¬ (createWindowMem ⟨true, true, false⟩ plainDriver smallServer ⟨7, 0, 0, [], 0, 0⟩ (-1000) 1000 0 background).Clean
      smallServer := by
  rw [createWindowMem_fault ⟨by decide, by decide, rfl, rfl, rfl⟩ rfl]
  exact id

end WWindowSystem
