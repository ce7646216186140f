import WWindowSystem.Server.CountersRun

namespace WWindowSystem

open Forest

theorem cut_owners {s s' : Server} {f : Focus} (h : s.Tidy) (hf : f.zip = s.tree)
    (ht : s'.tree.map Window.mark = f.cut) (p : Owner × List Owner) :
    p ∈ ownerPaths s'.tree ↔ p ∈ ownerPaths s.tree ∧ ∀ a ∈ p.1 :: p.2, a.id ≠ f.win.id := by
  have hs : s.tree.map Window.owner = zip (mapCtx Window.owner f.ctx)
      (.node f.win.owner (f.childs.map Window.owner) (f.next.map Window.owner)) := by
    rw [← hf, Focus.zip, map_zip, Forest.map]
  have hs' : s'.tree.map Window.owner =
      zip (mapCtx Window.owner f.ctx) (f.next.map Window.owner) := by
    have hm := congrArg (Forest.map Mark.owner) ht
    rw [Focus.cut, map_zip, mapCtx_mapCtx, map_map, map_map] at hm
    exact hm
  have hn : ((s.tree.map Window.owner).toList.map Owner.id).Nodup := by
    have hn := h.nodup
    rw [Server.ids] at hn
    rw [toList_map, List.map_map]
    exact hn
  rw [ownerPaths, ownerPaths, hs', hs]
  rw [hs] at hn
  exact mem_paths_cut Owner.id hn p

variable {p : Owner × List Owner} {s : Server}

theorem lookup_of_owner (h : s.Tidy)
    (hp : p ∈ ownerPaths s.tree) {a : Owner} (ha : a ∈ p.1 :: p.2) :
    ∃ f, s.windowLookup a.id = some f ∧ f.win.owner = a := by
  have hm := (mem_of_paths hp a ha).resolve_right List.not_mem_nil
  rw [toList_map] at hm
  obtain ⟨w, hw, rfl⟩ := List.mem_map.mp hm
  obtain ⟨f, hf, -, rfl⟩ := lookup_of_mem h.nodup hw
  exact ⟨f, hf, rfl⟩

variable (D : Driver)

theorem client_delete_owners (h : s.Counted) {handle : Nat} (mouse : Point)
    (hh : 2 ≤ handle) (p : Owner × List Owner) : p ∈ ownerPaths (client_delete D s handle mouse).2.tree ↔
      p ∈ ownerPaths s.tree ∧ ∀ a ∈ p.1 :: p.2, a.id ≠ handle := by
  cases hf : s.windowLookup handle with
  | some f =>
    obtain ⟨hz, hid⟩ := Server.windowLookup_zip hf
    have hc := h.client_of_handle hz (hid.symm ▸ hh)
    rw [← hid, cut_owners h.toTidy hz (by rw [hid]; exact client_delete_mark D mouse h.toTidy hf hh hc)]
  | none =>
    have hs : (client_delete D s handle mouse).2 = s := by
      unfold client_delete
      rw [if_neg (by omega), hf]
    rw [hs]
    refine ⟨fun hp => ⟨hp, fun a ha he => ?_⟩, fun hp => hp.1⟩
    obtain ⟨f, hf', -⟩ := lookup_of_owner h.toTidy hp ha
    rw [he, hf] at hf'
    cases hf'

theorem owner_of_lookup (h : s.Tidy) {handle : Nat} {f : Focus}
    (hf : s.windowLookup handle = some f) (hp : p ∈ ownerPaths s.tree)
    {a : Owner} (ha : a ∈ p.1 :: p.2) (hid : a.id = handle) : a = f.win.owner := by
  obtain ⟨g, hg, rfl⟩ := lookup_of_owner h hp ha
  rw [hid, hf] at hg
  rw [Option.some.inj hg]

theorem killClientWindow_owners (mouse : Point) (cid : Nat)
    (h : s.Counted) (id : Nat) (p : Owner × List Owner) : p ∈ ownerPaths (killClientWindow D mouse cid s id).tree ↔
      p ∈ ownerPaths s.tree ∧ ∀ a ∈ p.1 :: p.2, a.cptr = some cid → a.id ≠ id := by
  unfold killClientWindow
  cases hf : s.windowLookup id with
  | none =>
    refine ⟨fun hp => ⟨hp, fun a ha _ he => ?_⟩, fun hp => hp.1⟩
    obtain ⟨f, hf', -⟩ := lookup_of_owner h.toTidy hp ha
    rw [he, hf] at hf'
    cases hf'
  | some f =>
    obtain ⟨hz, hid⟩ := Server.windowLookup_zip hf
    dsimp only
    by_cases hc : f.win.cptr = some cid
    · have hge : 2 ≤ id := by
        rw [← hid]
        exact ((h.focus hz).client cid hc).2.2
      rw [if_pos hc, client_delete_owners D h mouse hge]
      constructor
      · exact fun hp => ⟨hp.1, fun a ha _ => hp.2 a ha⟩
      · rintro ⟨hp, hall⟩
        refine ⟨hp, fun a ha he => ?_⟩
        have ho := owner_of_lookup h.toTidy hf hp ha he
        exact hall a ha (by rw [ho]; exact hc) he
    · rw [if_neg hc]
      refine ⟨fun hp => ⟨hp, fun a ha hac he => ?_⟩, fun hp => hp.1⟩
      apply hc
      rw [← hac, owner_of_lookup h.toTidy hf hp ha he]
      rfl

theorem killWindows_owners (mouse : Point) (cid : Nat) (l : List Nat)
    (h : s.Counted) (p : Owner × List Owner) : p ∈ ownerPaths (l.foldl (killClientWindow D mouse cid) s).tree ↔
      p ∈ ownerPaths s.tree ∧ ∀ a ∈ p.1 :: p.2, a.cptr = some cid → a.id ∉ l := by
  induction l generalizing s with
  | nil => simp
  | cons id l ih =>
    rw [List.foldl_cons, ih (killClientWindow_counted D mouse cid h id).1,
      killClientWindow_owners D mouse cid h id p]
    simp only [List.mem_cons (a := _) (b := id), not_or]
    constructor
    · rintro ⟨⟨hp, h1⟩, h2⟩
      exact ⟨hp, fun a ha hc => ⟨h1 a ha hc, h2 a ha hc⟩⟩
    · rintro ⟨hp, h1⟩
      exact ⟨⟨hp, fun a ha hc => (h1 a ha hc).1⟩, fun a ha hc => (h1 a ha hc).2⟩

theorem killClient_owners (mouse : Point) (h : s.Counted) (cid : Nat)
    (p : Owner × List Owner) : p ∈ ownerPaths (killClient D mouse s cid).tree ↔
      p ∈ ownerPaths s.tree ∧ ∀ a ∈ p.1 :: p.2, a.cptr ≠ some cid := by
  obtain ⟨w, cs, ht, hw⟩ := h.toTidy.tree
  have hwk : (killClient D mouse s cid).tree =
      (((postorder cs).map Window.id).foldl (killClientWindow D mouse cid) s).tree := by
    rw [killClient, windowKillClient, ht]
  rw [hwk, killWindows_owners D mouse cid _ h]
  have hin : p ∈ ownerPaths s.tree → ∀ a ∈ p.1 :: p.2, a.cptr = some cid →
      a.id ∈ (postorder cs).map Window.id := by
    intro hp a ha hc
    obtain ⟨f, hf, rfl⟩ := lookup_of_owner h.toTidy hp ha
    obtain ⟨hz, -⟩ := Server.windowLookup_zip hf
    have hge : 2 ≤ f.win.id := ((h.focus hz).client cid hc).2.2
    have hv : f.win ∈ s.tree.toList := hz ▸ mem_zip.mpr (.inl List.mem_cons_self)
    rw [ht, toList, toList, List.append_nil, List.mem_cons] at hv
    rcases hv with hv | hv
    · rw [hv, hw] at hge
      omega
    · exact List.mem_map.mpr ⟨f.win, (postorder_perm cs).mem_iff.mpr hv, rfl⟩
  constructor
  · rintro ⟨hp, hall⟩
    exact ⟨hp, fun a ha hc => hall a ha hc (hin hp a ha hc)⟩
  · rintro ⟨hp, hall⟩
    exact ⟨hp, fun a ha hc => absurd hc (hall a ha)⟩

def Request.Removes (p : Owner × List Owner) : Request → Prop
  | .delete handle => 2 ≤ handle ∧ ∃ a ∈ p.1 :: p.2, a.id = handle
  | .disconnect cid => ∃ a ∈ p.1 :: p.2, a.cptr = some cid
  | _ => False

theorem createBelow_paths {β : Type} (g : Window → β) (D : Driver) (s : Server) (cptr : Client)
    (wwidth wheight : Int) (flags : Flags) (parent : Nat) : paths [] (s.tree.map g) ⊆
      paths [] ((createBelow D s cptr wwidth wheight flags parent).2.tree.map g) := by
  unfold createBelow
  split
  · exact fun _ h => h
  next f hf =>
    obtain ⟨hz, -⟩ := Server.windowLookup_zip hf
    cases hcr : createWindow D s cptr wwidth wheight flags f with
    | none => exact fun _ h => h
    | some r =>
      rcases createWindow_cases hcr with ⟨-, hs⟩ | ⟨id, tab, -, -, hnew⟩
      · rw [Option.getD_some, hs]
        exact fun _ h => h
      · intro p hp
        exact (hnew.paths hz g).mem_iff.mpr (List.mem_cons_of_mem _ hp)

theorem client_close_owners (h : s.Tidy) (handle : Nat) (mouse : Point) :
    ownerPaths (client_close D s handle mouse).2.tree = ownerPaths s.tree := by
  rcases client_close_mark D s handle mouse h.nodup with ⟨-, he⟩ | ⟨f, hf, -, -, -, ht⟩
  · rw [he]
  · rw [ownerPaths, marked_owner (Server.windowLookup_zip hf).1 ht]
    rfl

theorem client_open_owners (s : Server) (handle : Nat) (x0 y0 : Int)
    (placed : Option Point) (mouse : Point) :
    ownerPaths (client_open D s handle x0 y0 placed mouse).2.tree = ownerPaths s.tree := by
  rcases client_open_mark D s handle x0 y0 placed mouse with ht | ⟨f, hf, -, -, ht⟩
  · rw [ownerPaths, owner_of_mark ht]
    rfl
  · rw [ownerPaths, marked_owner (Server.windowLookup_zip hf).1 ht]
    rfl

theorem client_resize_owners (h : s.Tidy) (handle : Nat)
    (width height : Int) (placed : Option Point) (mouse : Point) :
    ownerPaths (client_resize D s handle width height placed mouse).2.tree = ownerPaths s.tree := by
  unfold client_resize
  split
  · rfl
  next f hf =>
    split
    · rfl
    · dsimp only
      have hr : ownerPaths (resizeWindow D (client_close D s f.win.id mouse).2 handle width height).tree =
          ownerPaths s.tree := by
        rw [ownerPaths, owner_of_mark (resizeWindow_mark D _ handle width height)]
        exact client_close_owners D h f.win.id mouse
      split_ifs
      · rw [client_open_owners, hr]
      · exact hr

theorem serve_keeps (h : s.Counted) (r : Request × Point)
    (hp : p ∈ ownerPaths s.tree) (hr : ¬ r.1.Removes p) :
    p ∈ ownerPaths (serve D s r).tree := by
  obtain ⟨r, mouse⟩ := r
  have hby : ∀ (cid : Nat) (op : Client → Int × Server),
      (∀ cptr, p ∈ ownerPaths (op cptr).2.tree) → p ∈ ownerPaths (byClient s cid op).2.tree := by
    intro cid op hop
    unfold byClient
    split
    · exact hp
    next cptr _ => exact hop cptr
  cases r with
  | connect cid raddr uid =>
    change p ∈ ownerPaths (createClient s cid raddr uid).tree
    unfold createClient
    split_ifs <;> exact hp
  | disconnect cid =>
    apply (killClient_owners D mouse h cid p).mpr
    exact ⟨hp, fun a ha hc => hr ⟨a, ha, hc⟩⟩
  | create cid width height flags =>
    exact hby cid _ fun cptr => createBelow_paths Window.owner D s cptr width height flags _ hp
  | create2 cid width height flags handle =>
    apply hby cid
    intro cptr
    unfold client_create2
    split_ifs
    · exact hp
    · exact createBelow_paths Window.owner D s cptr width height flags handle hp
  | «open» handle x0 y0 placed =>
    change p ∈ ownerPaths (client_open D s handle x0 y0 placed mouse).2.tree
    rw [client_open_owners]
    exact hp
  | close handle =>
    change p ∈ ownerPaths (client_close D s handle mouse).2.tree
    rw [client_close_owners D h.toTidy]
    exact hp
  | move relative handle x0 y0 =>
    rw [ownerPaths] at hp ⊢
    have hm := owner_of_mark (client_move_mark D s relative handle x0 y0 mouse)
    exact hm ▸ hp
  | topDown handle =>
    rw [ownerPaths_eq] at hp ⊢
    exact ((w_topDown_marks D s handle).map _).mem_iff.mpr hp
  | resize handle width height placed =>
    change p ∈ ownerPaths (client_resize D s handle width height placed mouse).2.tree
    rw [client_resize_owners D h.toTidy]
    exact hp
  | delete handle =>
    change p ∈ ownerPaths (client_delete D s handle mouse).2.tree
    by_cases hh : 2 ≤ handle
    · apply (client_delete_owners D h mouse hh p).mpr
      exact ⟨hp, fun a ha he => hr ⟨hh, a, ha, he⟩⟩
    · have hs : (client_delete D s handle mouse).2 = s := by
        unfold client_delete
        rw [if_pos (by omega)]
      rw [hs]
      exact hp

def Server.connected (s : Server) : List Nat := s.clients.map Client.id

theorem window_close_connected (s : Server) (f : Focus) :
    (window_close D s f).2.1.connected = s.connected := by
  unfold window_close
  split_ifs
  · rfl
  · rfl
  · rfl
  · exact (open_clients _).2.1

theorem act_connected {D : Driver} {s t : Server} (ha : Act D s t) : t.connected = s.connected := by
  cases ha with
  | draw | place => rfl
  | active dashed f =>
    obtain ⟨t, scr, he⟩ := drawActive_frame D dashed s f
    rw [he]
    rfl
  | pointer mx my =>
    obtain ⟨t, scr, c, win, top, he⟩ := w_changeActiveWindow_frame D s mx my
    rw [he]
    rfl
  | «open» f x y =>
    unfold window_open
    split_ifs
    · rfl
    · rfl
    · exact (open_clients _).1
  | close f => exact window_close_connected D s f
  | move f x y =>
    obtain ⟨t, scr, he⟩ := window_move_frame D s f x y
    rw [he]
    rfl
  | to_top f =>
    obtain ⟨t, scr, he⟩ := window_to_top_frame D s f
    rw [he]
    rfl
  | to_bottom f =>
    obtain ⟨t, scr, he⟩ := window_to_bottom_frame D s f
    rw [he]
    rfl
  | resize handle width height =>
    unfold resizeWindow
    split <;> rfl
  | delete f =>
    unfold window_delete
    split_ifs
    · rfl
    · exact (open_clients _).2.2.trans (window_close_connected D s f)
    · exact (open_clients _).2.2
  | create cptr wwidth wheight flags parent _ _ hp hm hc =>
    rcases createWindow_cases hc with ⟨-, rfl⟩ | ⟨id, tab, -, -, hnew⟩
    · rfl
    · rw [Server.connected, hnew.clients, List.map_map]
      apply List.map_congr_left
      intro c _
      rw [Function.comp]
      split_ifs <;> rfl

theorem acts_connected {D : Driver} {s t : Server} (ha : Acts D s t) : t.connected = s.connected :=
  ha.keep (fun u _ (h : u.connected = s.connected) hact => (act_connected hact).trans h) rfl

theorem serve_connected (s : Server) (r : Request × Point) :
    (serve D s r).connected = match r.1 with
      | .connect cid _ _ => if cid ∈ s.connected then s.connected else cid :: s.connected
      | .disconnect cid => s.connected.filter fun c => c ≠ cid
      | _ => s.connected := by
  obtain ⟨r, mouse⟩ := r
  cases r with
  | connect cid raddr uid =>
    change (createClient s cid raddr uid).connected = _
    unfold createClient Server.connected
    dsimp only
    split_ifs <;> rfl
  | disconnect cid =>
    change (killClient D mouse s cid).connected = s.connected.filter fun c => c ≠ cid
    rw [← acts_connected (windowKillClient_acts D mouse s cid), Server.connected, Server.connected,
      List.filter_map]
    rfl
  | _ =>
    rcases serve_cases D s (_, mouse) with ha | ⟨_, _, _, hr, -⟩ | ⟨_, hr, -⟩
    · exact acts_connected ha
    · cases hr
    · cases hr

end WWindowSystem
