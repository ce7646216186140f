import WWindowSystem.Server.ColorRequests

namespace WWindowSystem

open Forest

def Window.uncolored (w : Window) : Window := { w with colTab := 0 }

def Focus.uncolored (f : Focus) : Focus :=
  ⟨mapCtx Window.uncolored f.ctx, f.win.uncolored, f.childs.map Window.uncolored,
    f.next.map Window.uncolored⟩

structure Windows where
  tree : Forest Window
  winid : Nat
  topWindow : Option Nat
  glob_uid : Nat

def Server.windows (s : Server) : Windows :=
  ⟨s.tree.map Window.uncolored, s.winid, s.topWindow, s.glob_uid⟩

variable {s e : Server}

theorem windows_ids (h : s.windows = e.windows) : s.ids = e.ids := by
  have ht : s.tree.map Window.uncolored = e.tree.map Window.uncolored := congrArg Windows.tree h
  have hl := congrArg (fun t => t.toList.map Window.id) ht
  simp only [toList_map, List.map_map] at hl
  exact hl

theorem windows_lookup (h : s.windows = e.windows) (id : Nat) :
    (s.windowLookup id).map Focus.uncolored = (e.windowLookup id).map Focus.uncolored := by
  have key : ∀ s : Server, (s.windowLookup id).map Focus.uncolored =
      ((s.tree.map Window.uncolored).locate (fun w => w.id = id) []).map fun r =>
        ⟨r.1, r.2.1, r.2.2.1, r.2.2.2⟩ := by
    intro s
    have hm := locate_map Window.uncolored (fun w => decide (w.id = id)) [] s.tree
    simp only [mapCtx] at hm
    simp only [Server.windowLookup, hm, Option.map_map]
    rfl
  have ht : s.tree.map Window.uncolored = e.tree.map Window.uncolored := congrArg Windows.tree h
  rw [key, key, ht]

theorem windows_setColors {s : Server} {f : Focus} (hz : f.zip = s.tree) (r : Colors × Nat) :
    (s.setColors f r).windows = s.windows := by
  have ht : (s.setColors f r).tree.map Window.uncolored = s.tree.map Window.uncolored := by
    simp only [Server.setColors, Server.setFocus, Focus.zip, map_zip, Forest.map, ← hz]
    rfl
  rw [Server.windows, ht]
  rfl

theorem client_do_delete_windows (s : Server) (w : Window) : (client_do_delete s w).windows = s.windows := by
  unfold client_do_delete Server.updateClient
  dsimp only
  split_ifs <;> split <;> rfl

theorem window_delete_one_windows (s : Server) (w : Window) :
    (window_delete_one s w).windows =
      if w.flags.has W_TOP ∧ s.windows.topWindow = some w.id then { s.windows with topWindow := none }
      else s.windows := by
  have key : ∀ s' : Server, s'.windows = s.windows →
      (if w.flags.has W_TOP ∧ s'.topWindow = some w.id then { s' with topWindow := none } else s').windows =
        if w.flags.has W_TOP ∧ s.windows.topWindow = some w.id then { s.windows with topWindow := none }
        else s.windows := by
    intro s' h
    rw [← h]
    change _ = if w.flags.has W_TOP ∧ s'.topWindow = some w.id then _ else _
    split_ifs
    · rfl
    · rfl
  unfold window_delete_one
  apply key
  rw [client_do_delete_windows]
  split_ifs
  · rfl
  · rfl

def Windows.create (W : Windows) (D : Driver) (cptr : Client) (wwidth wheight : Int) (flags : Flags)
    (parent : Focus) : Option (Int × Windows) :=
  if flags.has W_TOP && (cptr.raddr ≠ 0 || cptr.uid ≠ W.glob_uid) then some (0, W)
  else if (windowFlags flags).has W_TOP && W.topWindow.isSome then some (0, W)
  else (newid (W.tree.toList.map Window.id) 65536 W.winid).map fun (id : Nat) =>
    ((id : Int),
      { tree := zip (.parent parent.win parent.next :: parent.ctx)
          (.node (newWindow D cptr.id wwidth wheight flags id 0) .nil parent.childs)
        winid := (id + 1) % 65536
        topWindow := if (windowFlags flags).has W_TOP then some id else W.topWindow
        glob_uid := W.glob_uid })

theorem createWindow_windows (D : Driver) (s : Server) (cptr : Client) (wwidth wheight : Int)
    (flags : Flags) (f : Focus) : (createWindow D s cptr wwidth wheight flags f).map (fun r => (r.1, r.2.windows)) =
      s.windows.create D cptr wwidth wheight flags f.uncolored := by
  have hids : s.windows.tree.toList.map Window.id = s.tree.toList.map Window.id := by
    simp only [Server.windows, toList_map, List.map_map]
    rfl
  have hu : s.windows.glob_uid = s.glob_uid := rfl
  have ht : s.windows.topWindow = s.topWindow := rfl
  have hw : s.windows.winid = s.winid := rfl
  unfold createWindow window_create window_newid Windows.create
  rw [hids, hu, ht, hw]
  by_cases h1 : (flags.has W_TOP && (cptr.raddr ≠ 0 || cptr.uid ≠ s.glob_uid)) = true
  · rw [if_pos h1, if_pos h1]
    rfl
  by_cases h2 : ((windowFlags flags).has W_TOP && s.topWindow.isSome) = true
  · rw [if_neg h1, if_pos h2, if_neg h1, if_pos h2]
    rfl
  rw [if_neg h1, if_neg h2, if_neg h1, if_neg h2]
  cases newid (s.tree.toList.map Window.id) 65536 s.winid with
  | none => rfl
  | some id =>
    have hz := map_zip Window.uncolored (.parent f.win f.next :: f.ctx)
      (.node (newWindow D cptr.id wwidth wheight flags id
        (colorCopyVirtualTable s.colors f.win.id f.win.colTab).2) .nil f.childs)
    by_cases h3 : (windowFlags flags).has W_TOP = true
    · simp only [Option.map_some, if_pos h3]
      refine congrArg some (Prod.ext rfl ?_)
      exact (Windows.mk.injEq ..).mpr ⟨hz, rfl, rfl, rfl⟩
    · simp only [Option.map_some, if_neg h3]
      refine congrArg some (Prod.ext rfl ?_)
      exact (Windows.mk.injEq ..).mpr ⟨hz, rfl, rfl, rfl⟩

theorem createBelow_windows {D : Driver} (h : s.windows = e.windows) (cptr : Client)
    (wwidth wheight : Int) (flags : Flags) (parent : Nat) : (createBelow D s cptr wwidth wheight flags parent).1 =
        (createBelow D e cptr wwidth wheight flags parent).1 ∧
      (createBelow D s cptr wwidth wheight flags parent).2.windows =
        (createBelow D e cptr wwidth wheight flags parent).2.windows := by
  have hl := windows_lookup h parent
  unfold createBelow
  cases hs : s.windowLookup parent with
  | none =>
    rw [hs, Option.map_none, eq_comm, Option.map_eq_none_iff] at hl
    rw [hl]
    exact ⟨rfl, h⟩
  | some f =>
    rw [hs, Option.map_some, eq_comm, Option.map_eq_some_iff] at hl
    obtain ⟨g, he, hg⟩ := hl
    rw [he]
    dsimp only
    have hcs := createWindow_windows D s cptr wwidth wheight flags f
    have hce := createWindow_windows D e cptr wwidth wheight flags g
    rw [h, ← hg, ← hce] at hcs
    cases hc : createWindow D s cptr wwidth wheight flags f with
    | none =>
      rw [hc, Option.map_none, eq_comm, Option.map_eq_none_iff] at hcs
      rw [hcs]
      exact ⟨rfl, h⟩
    | some r =>
      rw [hc, Option.map_some, eq_comm, Option.map_eq_some_iff] at hcs
      obtain ⟨q, hq, hr⟩ := hcs
      rw [hq]
      rw [Prod.mk.injEq] at hr
      exact ⟨hr.1.symm, hr.2.symm⟩

theorem deleted_windows (l m : List Window) (s e : Server) (h : s.windows = e.windows)
    (hl : l.map Window.uncolored = m.map Window.uncolored) :
    (l.foldl window_delete_one s).windows = (m.foldl window_delete_one e).windows := by
  induction l generalizing m s e with
  | nil =>
    obtain rfl := List.map_eq_nil_iff.mp hl.symm
    exact h
  | cons w l ih =>
    obtain ⟨v, m', rfl, hw, hm⟩ := List.map_eq_cons_iff.mp hl.symm
    have hf : v.flags = w.flags := (congrArg Window.flags hw :)
    have hi : v.id = w.id := (congrArg Window.id hw :)
    apply ih m' _ _ _ hm.symm
    rw [window_delete_one_windows, window_delete_one_windows, h, hf, hi]

theorem postorder_map (t : Forest Window) :
    (postorder t).map Window.uncolored = postorder (t.map Window.uncolored) := by
  induction t with
  | nil => rfl
  | node w cs ns ihc ihn => simp only [postorder, Forest.map, List.map_append, List.map_cons, ihc, ihn]

theorem client_delete_windows {D : Driver} (hs : ColorInv s) (he : ColorInv e)
    (h : s.windows = e.windows) (handle : Nat) :
    (client_delete D s handle (0, 0)).1 = (client_delete D e handle (0, 0)).1 ∧
      (client_delete D s handle (0, 0)).2.windows = (client_delete D e handle (0, 0)).2.windows := by
  have hl := windows_lookup h handle
  unfold client_delete
  by_cases hh : handle < 2
  · rw [if_pos hh, if_pos hh]
    exact ⟨rfl, h⟩
  rw [if_neg hh, if_neg hh]
  cases hf : s.windowLookup handle with
  | none =>
    rw [hf, Option.map_none, eq_comm, Option.map_eq_none_iff] at hl
    rw [hl]
    exact ⟨rfl, h⟩
  | some f =>
    rw [hf, Option.map_some, eq_comm, Option.map_eq_some_iff] at hl
    obtain ⟨g, hg, hfg⟩ := hl
    rw [hg]
    obtain ⟨hzf, -⟩ := Server.windowLookup_zip hf
    obtain ⟨hzg, -⟩ := Server.windowLookup_zip hg
    have hc : g.win.cptr = f.win.cptr := congrArg (fun f => f.win.cptr) hfg
    dsimp only
    rw [hc]
    by_cases hn : f.win.cptr.isNone = true
    · rw [if_pos hn, if_pos hn]
      exact ⟨rfl, h⟩
    · have hcl : f.win.isClient = true := by
        simpa [Window.isClient, Option.isSome_iff_ne_none] using hn
      have hof := hs.closed f.win (hzf ▸ mem_zip.mpr (.inl List.mem_cons_self)) hcl
      have hog := he.closed g.win (hzg ▸ mem_zip.mpr (.inl List.mem_cons_self))
        (by rw [Window.isClient, hc]; exact hcl)
      have hctx : mapCtx Window.uncolored g.ctx = mapCtx Window.uncolored f.ctx :=
        congrArg Focus.ctx hfg
      have hnext : g.next.map Window.uncolored = f.next.map Window.uncolored := congrArg Focus.next hfg
      have hchilds : g.childs.map Window.uncolored = f.childs.map Window.uncolored :=
        congrArg Focus.childs hfg
      have hwin : g.win.uncolored = f.win.uncolored := congrArg Focus.win hfg
      rw [if_neg hn, if_neg hn]
      have hp : hasParent g.ctx = hasParent f.ctx := by
        have ha := congrArg (fun k => (ancestors k).isEmpty) hctx
        simp only [ancestors_map, List.isEmpty_map] at ha
        rw [hasParent, hasParent, ha]
      simp only [hof, hog, Bool.false_eq_true, if_false, hf, hg, window_delete, hp]
      by_cases hpar : (!hasParent f.ctx) = true
      · rw [if_pos hpar, if_pos hpar]
        exact ⟨trivial, h⟩
      · rw [if_neg hpar, if_neg hpar]
        refine ⟨trivial, ?_⟩
        have hpost : (postorder (.node f.win f.childs .nil)).map Window.uncolored =
            (postorder (.node g.win g.childs .nil)).map Window.uncolored := by
          simp only [postorder_map, Forest.map, hwin, hchilds]
        have hd := deleted_windows _ _ s e h hpost
        have ht : (zip f.ctx f.next).map Window.uncolored = (zip g.ctx g.next).map Window.uncolored := by
          rw [map_zip, map_zip, hctx, hnext]
        exact (Windows.mk.injEq ..).mpr ⟨ht, congrArg Windows.winid hd, congrArg Windows.topWindow hd,
          congrArg Windows.glob_uid hd⟩

end WWindowSystem
