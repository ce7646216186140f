import Mathlib.Data.List.Nodup
import WWindowSystem.Server.ClientRet

namespace WWindowSystem

open Forest

def Window.static (w : Window) : Nat × Option Nat × Flags × Backing × Option Nat × Nat :=
  (w.id, w.cptr, w.flags, w.backing, w.font, w.colTab)

def Window.rigid (w : Window) :
    (Nat × Option Nat × Flags × Backing × Option Nat × Nat) × Int × Int :=
  (w.static, w.pos.w, w.pos.h)

variable (screen : Pixmap)

@[simp] theorem window_save_contents_rigid (rect : Rec) (w : Window) :
    (window_save_contents screen rect w).rigid = w.rigid := by
  unfold window_save_contents
  split_ifs <;> rfl

variable (D : Driver)

@[simp] theorem window_redraw_rigid (rects : List Rec) (screen : Pixmap) (w : Window) :
    (window_redraw_contents_rect D rects screen w).2.rigid = w.rigid := by
  unfold window_redraw_contents_rect
  split_ifs
  · rfl
  · dsimp only
    split_ifs <;> rfl

variable (recs : List Rec)

@[simp] theorem window_rebuild_recs_rigid (k : Context Window) (w : Window)
    (cs : Forest Window) : (window_rebuild_recs recs k w cs).1.rigid = w.rigid := by
  unfold window_rebuild_recs window_build_recs
  split_ifs <;> rfl

@[simp] theorem window_move_one_rigid (dx dy : Int) (w : Window) : (window_move_one dx dy w).rigid = w.rigid := by
  unfold window_move_one
  split_ifs <;> rfl

@[simp] theorem window_move_recs_rigid (dx dy : Int) (w : Window) : (window_move_recs dx dy w).rigid = w.rigid := by
  unfold window_move_recs
  split_ifs <;> rfl

@[simp] theorem window_close_one_rigid (top_win : Nat) (k : Context Window)
    (w : Window) (cs : Forest Window) : (window_close_one screen top_win k w cs).rigid = w.rigid := by
  have h := window_save_contents_rigid screen w.pos w
  unfold window_close_one
  dsimp only
  split_ifs
  · rfl
  · exact h
  · exact h

@[simp] theorem openAt_rigid (x y : Int) (w : Window) : (openAt x y w).rigid = w.rigid := rfl

@[simp] theorem map_save_rigid (rect : Rec) (t : Forest Window) :
    (t.map (window_save_contents screen rect)).map Window.rigid = t.map Window.rigid := by
  rw [map_map]
  exact map_congr (window_save_contents_rigid screen rect) t

@[simp] theorem map_move_one_rigid (dx dy : Int) (t : Forest Window) :
    (t.map (window_move_one dx dy)).map Window.rigid = t.map Window.rigid := by
  rw [map_map]
  exact map_congr (window_move_one_rigid dx dy) t

@[simp] theorem map_move_recs_rigid (dx dy : Int) (t : Forest Window) :
    (t.map (window_move_recs dx dy)).map Window.rigid = t.map Window.rigid := by
  rw [map_map]
  exact map_congr (window_move_recs_rigid dx dy) t

@[simp] theorem visit_rebuild_rigid (k : Context Window) (t : Forest Window) :
    (t.visit (window_rebuild_recs recs) k).map Window.rigid = t.map Window.rigid :=
  map_visit (window_rebuild_recs_rigid recs) k t

@[simp] theorem scan_redraw_rigid (rects : List Rec) (screen : Pixmap) (t : Forest Window) :
    (t.scan (window_redraw_contents_rect D rects) screen).2.map Window.rigid = t.map Window.rigid :=
  map_scan (window_redraw_rigid D rects) screen t

@[simp] theorem post_close_rigid (top_win : Nat) (k : Context Window) (t : Forest Window) :
    (t.post (window_close_one screen top_win) k).map Window.rigid = t.map Window.rigid :=
  map_post (window_close_one_rigid screen top_win) k t

@[simp] theorem onParent_save_rigid (rect : Rec) (k : Context Window) (t : Forest Window) :
    mapCtx Window.rigid (onParent (fun _ p _ => window_save_contents screen rect p) k t) = mapCtx Window.rigid k :=
  mapCtx_onParent (fun _ w _ => window_save_contents_rigid screen rect w) k t

@[simp] theorem onParent_rebuild_rigid (k : Context Window) (t : Forest Window) :
    mapCtx Window.rigid (onParent (fun k p cs => (window_rebuild_recs recs k p cs).1) k t) = mapCtx Window.rigid k :=
  mapCtx_onParent (window_rebuild_recs_rigid recs) k t

@[simp] theorem scanParent_redraw_rigid (rects : List Rec) (screen : Pixmap) (k : Context Window) :
    mapCtx Window.rigid (scanParent (window_redraw_contents_rect D rects) screen k).2 = mapCtx Window.rigid k := by
  induction k generalizing screen with
  | nil => rfl
  | cons c k ih => cases c <;> simp only [scanParent, mapCtx, ih, window_redraw_rigid]

@[simp] theorem visitTree_rigid (k : Context Window) (w : Window) (cs ns : Forest Window) :
    (visitTree (window_rebuild_recs recs) k w cs ns).1.rigid = w.rigid :=
  window_rebuild_recs_rigid recs k w cs

@[simp] theorem visitTree_childs_rigid (k : Context Window) (w : Window) (cs ns : Forest Window) :
    (visitTree (window_rebuild_recs recs) k w cs ns).2.map Window.rigid = cs.map Window.rigid := by
  unfold visitTree
  dsimp only
  split_ifs
  · rfl
  · exact visit_rebuild_rigid _ _ _

@[simp] theorem scanTree_rigid (rects : List Rec) (screen : Pixmap) (w : Window) (cs : Forest Window) :
    (scanTree (window_redraw_contents_rect D rects) screen w cs).2.1.rigid = w.rigid :=
  window_redraw_rigid D rects screen w

@[simp] theorem scanTree_childs_rigid (rects : List Rec) (screen : Pixmap) (w : Window)
    (cs : Forest Window) : (scanTree (window_redraw_contents_rect D rects) screen w cs).2.2.map Window.rigid =
      cs.map Window.rigid :=
  scan_redraw_rigid D rects _ cs

theorem window_open_rigid (s : Server) (f : Focus) (x y : Int) (hf : f.zip = s.tree) :
    (window_open D s f x y).2.1.tree.map Window.rigid = s.tree.map Window.rigid := by
  unfold window_open
  split_ifs
  · rfl
  · rfl
  · rw [← hf]
    simp [Server.setFocus, Focus.zip, map_zip, Forest.map]

theorem window_close_rigid (s : Server) (f : Focus) (hf : f.zip = s.tree) :
    (window_close D s f).2.1.tree.map Window.rigid = s.tree.map Window.rigid := by
  unfold window_close
  split_ifs
  · rfl
  · rfl
  · rfl
  · rw [← hf]
    simp [Server.setFocus, Focus.zip, map_zip, Forest.map]

theorem window_move_rigid (s : Server) (f : Focus) (x y : Int) (hf : f.zip = s.tree) :
    (window_move D s f x y).2.1.tree.map Window.rigid = s.tree.map Window.rigid := by
  unfold window_move
  split_ifs
  · rfl
  · rfl
  · rw [← hf]
    simp only [Server.setFocus, Focus.zip]
    split_ifs <;> simp [map_zip, Forest.map]

theorem window_close_win_rigid (s : Server) (f : Focus) :
    (window_close D s f).2.2.win.rigid = f.win.rigid := by
  unfold window_close
  split_ifs
  · rfl
  · rfl
  · rfl
  · simp only [Server.setFocus, window_close_one_rigid]

theorem detach_past (k : Context Window) (t : Forest Window) :
    ∃ l, past (detach k t).2 l = k ∧ (detach k t).1 = l.append t := by
  induction k generalizing t with
  | nil => exact ⟨.nil, rfl, rfl⟩
  | cons c k ih =>
    cases c with
    | parent p ns => exact ⟨.nil, rfl, rfl⟩
    | prev s scs =>
      obtain ⟨l, hl, ht⟩ := ih (.node s scs t)
      refine ⟨l.append (.node s scs .nil), ?_, ?_⟩
      · rw [detach, past_append, hl]
        rfl
      · rw [detach, ht, append_assoc]
        rfl

theorem window_to_top_rigid (s : Server) (f : Focus) (hf : f.zip = s.tree) :
    ((window_to_top D s f).2.1.tree.map Window.rigid).toList.Perm (s.tree.map Window.rigid).toList := by
  obtain ⟨l, hl, hd⟩ := detach_past f.ctx .nil
  rw [append_nil] at hd
  have hs : s.tree = zip (detach f.ctx .nil).2 (l.append (.node f.win f.childs f.next)) := by
    rw [← zip_past, hl]
    exact hf.symm
  unfold window_to_top
  split_ifs
  · rfl
  · split
    · rw [hs]
      simp only [Server.setFocus, Focus.zip, hd, map_zip, map_append, Forest.map]
      exact zip_append_perm _ _ _ _ _
    · rfl
  · split
    · rw [hs]
      simp only [Server.setFocus, Focus.zip, hd, map_zip, map_append, Forest.map, scanTree_rigid,
        scanTree_childs_rigid, visitTree_rigid, visitTree_childs_rigid, visit_rebuild_rigid,
        map_save_rigid, window_save_contents_rigid]
      exact zip_append_perm _ _ _ _ _
    · rfl

theorem window_to_bottom_rigid (s : Server) (f : Focus) (hf : f.zip = s.tree) :
    ((window_to_bottom D s f).2.1.tree.map Window.rigid).toList.Perm (s.tree.map Window.rigid).toList := by
  unfold window_to_bottom
  split
  · rfl
  · split_ifs
    · rfl
    · rw [← hf]
      simp only [Server.setFocus, Focus.zip, zip_past, map_zip, map_append, Forest.map]
      have := zip_append_perm (mapCtx Window.rigid f.ctx) f.win.rigid
        (f.childs.map Window.rigid) (f.next.map Window.rigid) .nil
      rw [append_nil] at this
      exact this.symm
    · rw [← hf]
      simp only [Server.setFocus, Focus.zip, zip_past, map_zip, map_append, Forest.map,
        scan_redraw_rigid, visitTree_rigid, visitTree_childs_rigid, visit_rebuild_rigid,
        map_save_rigid, window_save_contents_rigid]
      have := zip_append_perm (mapCtx Window.rigid f.ctx) f.win.rigid
        (f.childs.map Window.rigid) (f.next.map Window.rigid) .nil
      rw [append_nil] at this
      exact this.symm

variable {t u : Forest Window}

theorem static_of_rigid (h : t.map Window.rigid = u.map Window.rigid) :
    t.map Window.static = u.map Window.static := by
  have := congrArg (Forest.map Prod.fst) h
  rw [map_map, map_map] at this
  exact this

theorem static_perm (h : (t.map Window.rigid).toList.Perm (u.map Window.rigid).toList) :
    (t.map Window.static).toList.Perm (u.map Window.static).toList := by
  have := h.map Prod.fst
  rw [← toList_map, ← toList_map, map_map, map_map] at this
  exact this

theorem window_save_contents_static (rect : Rec) (w : Window) :
    (window_save_contents screen rect w).static = w.static :=
  congrArg Prod.fst (window_save_contents_rigid screen rect w)

theorem window_redraw_static (rects : List Rec) (screen : Pixmap) (w : Window) :
    (window_redraw_contents_rect D rects screen w).2.static = w.static :=
  congrArg Prod.fst (window_redraw_rigid D rects screen w)

theorem window_open_static (s : Server) (f : Focus) (x y : Int) (hf : f.zip = s.tree) :
    (window_open D s f x y).2.1.tree.map Window.static = s.tree.map Window.static :=
  static_of_rigid (window_open_rigid D s f x y hf)

theorem window_close_static (s : Server) (f : Focus) (hf : f.zip = s.tree) :
    (window_close D s f).2.1.tree.map Window.static = s.tree.map Window.static :=
  static_of_rigid (window_close_rigid D s f hf)

theorem window_move_static (s : Server) (f : Focus) (x y : Int) (hf : f.zip = s.tree) :
    (window_move D s f x y).2.1.tree.map Window.static = s.tree.map Window.static :=
  static_of_rigid (window_move_rigid D s f x y hf)

theorem window_close_win_static (s : Server) (f : Focus) :
    (window_close D s f).2.2.win.static = f.win.static :=
  congrArg Prod.fst (window_close_win_rigid D s f)

theorem window_to_top_static (s : Server) (f : Focus) (hf : f.zip = s.tree) :
    ((window_to_top D s f).2.1.tree.map Window.static).toList.Perm (s.tree.map Window.static).toList :=
  static_perm (window_to_top_rigid D s f hf)

theorem window_to_bottom_static (s : Server) (f : Focus) (hf : f.zip = s.tree) :
    ((window_to_bottom D s f).2.1.tree.map Window.static).toList.Perm (s.tree.map Window.static).toList :=
  static_perm (window_to_bottom_rigid D s f hf)

variable {ids : List Nat}

theorem newid_fresh {fuel winid id : Nat} (h : newid ids fuel winid = some id) : id ∉ ids := by
  induction fuel generalizing winid with
  | zero => simp [newid] at h
  | succ fuel ih =>
    rw [newid] at h
    split_ifs at h with hm
    · exact ih h
    · obtain rfl := Option.some.inj h
      exact hm

theorem newid_none {fuel winid : Nat} (hw : winid < 65536)
    (h : newid ids fuel winid = none) : ∀ i < fuel, (winid + i) % 65536 ∈ ids := by
  induction fuel generalizing winid with
  | zero => intro i hi; omega
  | succ fuel ih =>
    rw [newid] at h
    split_ifs at h with hm
    · intro i hi
      cases i with
      | zero => rwa [Nat.add_zero, Nat.mod_eq_of_lt hw]
      | succ i =>
        have := ih (Nat.mod_lt _ (by decide)) h i (by omega)
        rwa [Nat.mod_add_mod, Nat.add_assoc, Nat.add_comm 1 i] at this

theorem newid_exists {winid : Nat} (hw : winid < 65536) (hl : ids.length < 65536) :
    ∃ id, newid ids 65536 winid = some id ∧ id < 65536 := by
  have hlt : ∀ (fuel w id : Nat), w < 65536 → newid ids fuel w = some id → id < 65536 := by
    intro fuel
    induction fuel with
    | zero => intro w id _ h; cases h
    | succ fuel ih =>
      intro w id hw h
      rw [newid] at h
      split_ifs at h
      · exact ih _ _ (Nat.mod_lt _ (by decide)) h
      · exact Option.some.inj h ▸ hw
  cases h : newid ids 65536 winid with
  | some id => exact ⟨id, rfl, hlt _ _ _ hw h⟩
  | none =>
    -- then all 65536 handles would be in use
    have hall := newid_none hw h
    have hsub : List.range 65536 ⊆ ids := by
      intro v hv
      have hv := List.mem_range.mp hv
      have := hall ((v + 65536 - winid) % 65536) (Nat.mod_lt _ (by decide))
      have he : (winid + (v + 65536 - winid) % 65536) % 65536 = v := by omega
      rwa [he] at this
    have := (List.subperm_of_subset List.nodup_range hsub).length_le
    rw [List.length_range] at this
    omega

def newWindow (D : Driver) (cid : Nat) (wwidth wheight : Int) (flags : Flags) (id tab : Nat) : Window :=
  let win : Window :=
    { id, flags := windowFlags flags
      backing := if (windowFlags flags).has W_CONTAINER then .dummy else .real }
  { createBitmap D win wwidth wheight 0 0 with cptr := some cid, colTab := tab }

structure Created (D : Driver) (s : Server) (cptr : Client) (win : Window) (tab : Colors × Nat)
    (parent : Focus) (s' : Server) : Prop where
  fresh : win.id ∉ s.tree.toList.map Window.id
  tree : s'.tree = zip (.parent parent.win parent.next :: parent.ctx) (.node win .nil parent.childs)
  colors : s'.colors = tab.1
  screen : s'.screen = s.screen
  cache : s'.window_find_cache = s.window_find_cache
  font : s'.glob_font = s.glob_font
  clients : s'.clients = s.clients.map fun c =>
    if c.id = cptr.id then { c with totalWindows := c.totalWindows + 1 } else c
  top : win.flags.has W_TOP = true → s.topWindow = none
  others : s' = { s with
    tree := s'.tree, colors := s'.colors, clients := s'.clients, winid := (win.id + 1) % 65536
    topWindow := if win.flags.has W_TOP then some win.id else s.topWindow
    globTotalWindows := short (s.globTotalWindows + 1) }

theorem createWindow_cases {D : Driver} {s s' : Server} {cptr : Client} {wwidth wheight h : Int}
    {flags : Flags} {parent : Focus} (hc : createWindow D s cptr wwidth wheight flags parent = some (h, s')) :
    (h = 0 ∧ s' = s) ∨ ∃ (id : Nat) (tab : Colors × Nat), tab = colorCopyVirtualTable s.colors parent.win.id parent.win.colTab ∧
      h = id ∧ Created D s cptr (newWindow D cptr.id wwidth wheight flags id tab.2) tab parent s' := by
  unfold createWindow at hc
  split_ifs at hc
  · cases hc
    exact .inl ⟨rfl, rfl⟩
  · rw [Option.map_eq_some_iff] at hc
    obtain ⟨r, hr, hc⟩ := hc
    unfold window_create at hr
    by_cases ht : ((windowFlags flags).has W_TOP && s.topWindow.isSome) = true
    · rw [if_pos ht] at hr
      cases hr
      cases hc
      exact .inl ⟨rfl, rfl⟩
    · rw [if_neg ht, Option.map_eq_some_iff] at hr
      obtain ⟨n, hn, rfl⟩ := hr
      unfold window_newid at hn
      rw [Option.map_eq_some_iff] at hn
      obtain ⟨id, hid, rfl⟩ := hn
      simp only [Prod.mk.injEq] at hc
      obtain ⟨rfl, rfl⟩ := hc
      refine .inr ⟨id, _, rfl, rfl, ?_⟩
      have hfl : ∀ id tab, (newWindow D cptr.id wwidth wheight flags id tab).flags =
          windowFlags flags := fun _ _ => rfl
      cases hT : (windowFlags flags).has W_TOP with
      | false =>
        refine ⟨newid_fresh hid, rfl, rfl, rfl, rfl, rfl, rfl, ?_, ?_⟩
        · rw [hfl, hT]
          exact fun h => absurd h Bool.false_ne_true
        · rw [hfl, hT]
          rfl
      | true =>
        refine ⟨newid_fresh hid, rfl, rfl, rfl, rfl, rfl, rfl, ?_, ?_⟩
        · rw [hT, Bool.true_and, Option.not_isSome_iff_eq_none] at ht
          exact fun _ => ht
        · rw [hfl, hT]
          rfl

end WWindowSystem
