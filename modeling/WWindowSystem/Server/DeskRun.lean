import WWindowSystem.Library.Run
import WWindowSystem.Server.Desk
import WWindowSystem.Server.Offsets

namespace WWindowSystem

open Forest

structure Desk.Live (d : Desk) : Prop where
  drag : d.glob_loopmove = true → ∃ id, d.loop_move_window = some id ∧ d.server.IsOpen id
  left : ∀ id, d.server.glob_leftmousepressed = some id → d.server.IsOpen id
  right : ∀ id, d.server.glob_rightmousepressed = some id → d.server.IsOpen id
  active : d.server.glob_activewindow ∈ d.server.ids
  activetop : d.server.glob_activetopwin ∈ d.server.ids
  top : ∀ id, d.server.topWindow = some id → id ∈ d.server.ids
  cache : ∀ id, d.server.window_find_cache = some id → id ∈ d.server.ids

def Request.Spares (s : Server) (id : Nat) : Request → Prop
  | .close handle => handle = id → ¬ s.IsVisible id
  | .resize handle _ _ placed => handle = id →
    ∀ f, s.windowLookup id = some f → really_open f.ctx f.win = true → resizeTarget f placed ≠ none
  | r => ∀ p ∈ ownerPaths s.tree, p.1.id = id → ¬ r.Removes p

def DragSafe (d : Desk) : DeskEvent → Prop
  | .request r _ =>
    d.glob_loopmove = true → ∀ id, d.loop_move_window = some id → r.Spares d.server id
  | _ => True

variable {id : Nat} {s : Server}

theorem isOpen_mark (hn : s.ids.Nodup) :
    s.IsOpen id ↔ ∃ m ∈ (s.tree.map Window.mark).toList, m.id = id ∧ m.is_open = true := by
  constructor
  · rintro ⟨f, hf, ho⟩
    exact ⟨f.win.mark, (lookup_mark hf).1, (lookup_mark hf).2, ho⟩
  · rintro ⟨m, hm, rfl, ho⟩
    rw [toList_map] at hm
    obtain ⟨w, hw, rfl⟩ := List.mem_map.mp hm
    obtain ⟨f, hf, -, rfl⟩ := lookup_of_mem hn hw
    exact ⟨f, hf, ho⟩

theorem isOpen_of_onScreen (hn : s.ids.Nodup)
    (h : OnScreen (markPaths s.tree) id) : s.IsOpen id := by
  obtain ⟨p, hp, rfl, ho⟩ := h
  rw [reallyOpen, Bool.and_eq_true] at ho
  rw [isOpen_mark hn, marks_toList]
  exact ⟨p.1, List.mem_map_of_mem hp, rfl, ho.1⟩

theorem Server.IsOpen.congr {s s' : Server} (hn : s.ids.Nodup) (h : s.IsOpen id)
    (ht : (s.tree.map Window.mark).toList ⊆ (s'.tree.map Window.mark).toList) (hn' : s'.ids.Nodup) : s'.IsOpen id := by
  obtain ⟨m, hm, hid, ho⟩ := (isOpen_mark hn).mp h
  exact (isOpen_mark hn').mpr ⟨m, ht hm, hid, ho⟩

theorem Server.IsOpen.same {s s' : Server} (hn : s.ids.Nodup) (h : s.IsOpen id)
    (ht : s'.tree.map Window.mark = s.tree.map Window.mark) (hn' : s'.ids.Nodup) : s'.IsOpen id := by
  apply h.congr hn _ hn'
  rw [ht]
  exact fun _ hm => hm

theorem Server.IsOpen.marked {s s' : Server} {f : Focus} {b : Bool} (h : s.IsOpen id)
    (hf : f.zip = s.tree) (hb : f.win.id = id → b = true) (ht : s'.tree.map Window.mark = f.marked b)
    (hn : s.ids.Nodup) (hn' : s'.ids.Nodup) : s'.IsOpen id := by
  obtain ⟨m, hm, hid, ho⟩ := (isOpen_mark hn).mp h
  rw [focus_mark hf, Focus.marked, mem_zip, toList, List.mem_cons] at hm
  apply (isOpen_mark hn').mpr
  rw [ht, Focus.marked]
  rcases hm with (hm | hm) | hm
  · refine ⟨{ f.win.mark with is_open := b }, mem_zip.mpr (.inl List.mem_cons_self), ?_, ?_⟩
    · rw [hm] at hid
      exact hid
    · exact hb (by rw [hm] at hid; exact hid)
  · exact ⟨m, mem_zip.mpr (.inl (List.mem_cons_of_mem _ hm)), hid, ho⟩
  · exact ⟨m, mem_zip.mpr (.inr hm), hid, ho⟩

theorem Server.IsOpen.survive {s s' : Server} (h : s.IsOpen id) (hn : s.ids.Nodup)
    (hsub : (s'.tree.map Window.mark).toList ⊆ (s.tree.map Window.mark).toList)
    (hn' : s'.ids.Nodup) (hk : ∀ p ∈ ownerPaths s.tree, p.1.id = id → p ∈ ownerPaths s'.tree) : s'.IsOpen id := by
  obtain ⟨f, hf, ho⟩ := h
  obtain ⟨hz, hid⟩ := Server.windowLookup_zip hf
  have hp := hk _ (focus_owner hz) hid
  have hm := List.mem_map_of_mem (f := Prod.fst) hp
  rw [ownerPaths, paths_fst, toList_map] at hm
  obtain ⟨w, hw, he⟩ := List.mem_map.mp hm
  have hwid : w.mark.id = f.win.mark.id := congrArg Owner.id he
  have hwm : w.mark ∈ (s'.tree.map Window.mark).toList := by
    rw [toList_map]
    exact List.mem_map_of_mem hw
  have hsame : w.mark = f.win.mark := by
    rw [ids_mark] at hn
    exact List.inj_on_of_nodup_map hn (hsub hwm) (lookup_mark hf).1 hwid
  apply (isOpen_mark hn').mpr
  refine ⟨w.mark, hwm, hwid.trans hid, ?_⟩
  rw [hsame]
  exact ho

variable (D : Driver)

theorem client_delete_subset (h : s.Counted) (handle : Nat) (mouse : Point) :
    ((client_delete D s handle mouse).2.tree.map Window.mark).toList ⊆ (s.tree.map Window.mark).toList := by
  rcases client_delete_eq D s handle mouse h.nodup with ⟨he, -⟩ | ⟨f, g, hf, hh, hc, -, -⟩
  · rw [he]
    exact fun _ hm => hm
  · obtain ⟨l, hp, -⟩ := cut_paths (Server.windowLookup_zip hf).1
      (client_delete_mark D mouse h.toTidy hf hh hc)
    intro m hm
    rw [marks_toList] at hm ⊢
    apply (hp.map _).mem_iff.mpr
    rw [List.map_append]
    exact List.mem_append_right _ hm

theorem killClient_subset (h : s.Counted) (mouse : Point) (cid : Nat) :
    ((killClient D mouse s cid).tree.map Window.mark).toList ⊆ (s.tree.map Window.mark).toList := by
  obtain ⟨w, cs, ht, -⟩ := h.toTidy.tree
  have hk := (killWindows_counted D mouse cid ((postorder cs).map Window.id) h).2.2
  have hw : (killClient D mouse s cid).tree =
      (((postorder cs).map Window.id).foldl (killClientWindow D mouse cid) s).tree := by
    rw [killClient, windowKillClient, ht]
  rw [hw]
  exact hk

theorem createBelow_superset (s : Server) (cptr : Client) (wwidth wheight : Int)
    (flags : Flags) (parent : Nat) : (s.tree.map Window.mark).toList ⊆
      ((createBelow D s cptr wwidth wheight flags parent).2.tree.map Window.mark).toList := by
  rw [marks_toList, marks_toList]
  exact List.map_subset _ (createBelow_paths Window.mark D s cptr wwidth wheight flags parent)

theorem put_mark (f : Focus) (q : WindowState) (d : Point) : (f.put q d).map WindowState.mark =
      zip (mapCtx Window.mark f.ctx) (.node q.mark (f.childs.map Window.mark) (f.next.map Window.mark)) := by
  rw [Focus.put, map_zip, Forest.map, map_move_mark, mapCtx_mark, map_mark, map_mark]

theorem serve_open (h : s.Counted) (r : Request × Point)
    (hr : r.1.Spares s id) (ho : s.IsOpen id) : (serve D s r).IsOpen id := by
  have hn := h.nodup
  have hn' := (serve_counted D h r).nodup
  obtain ⟨r, mouse⟩ := r
  have hby : ∀ (cid : Nat) (op : Client → Int × Server),
      (∀ cptr, (s.tree.map Window.mark).toList ⊆ ((op cptr).2.tree.map Window.mark).toList) →
      (s.tree.map Window.mark).toList ⊆ ((byClient s cid op).2.tree.map Window.mark).toList := by
    intro cid op hop
    unfold byClient
    split
    · exact fun _ hm => hm
    · exact hop _
  cases r with
  | connect cid raddr uid =>
    refine ho.congr hn ?_ hn'
    change (s.tree.map Window.mark).toList ⊆ ((createClient s cid raddr uid).tree.map Window.mark).toList
    unfold createClient
    split_ifs <;> exact fun _ hm => hm
  | disconnect cid =>
    apply ho.survive hn (killClient_subset D h mouse cid) hn'
    exact fun p hp hid => serve_keeps D h (.disconnect cid, mouse) hp (hr p hp hid)
  | create cid width height flags =>
    exact ho.congr hn (hby cid _ fun cptr => createBelow_superset D s cptr width height flags _) hn'
  | create2 cid width height flags handle =>
    refine ho.congr hn (hby cid _ fun cptr => ?_) hn'
    unfold client_create2
    split_ifs
    · exact fun _ hm => hm
    · exact createBelow_superset D s cptr width height flags handle
  | «open» handle x0 y0 placed =>
    rcases client_open_mark D s handle x0 y0 placed mouse with ht | ⟨f, hf, -, -, ht⟩
    · exact ho.same hn ht hn'
    · exact ho.marked (Server.windowLookup_zip hf).1 (fun _ => rfl) ht hn hn'
  | close handle =>
    rcases client_close_mark D s handle mouse hn with ⟨-, he⟩ | ⟨f, hf, -, hfo, -, ht⟩
    · exact ho.same hn (congrArg (fun t : Server => t.tree.map Window.mark) he) hn'
    · obtain ⟨hz, hid⟩ := Server.windowLookup_zip hf
      apply ho.marked hz _ ht hn hn'
      intro he
      by_contra hc
      apply hr (hid.symm.trans he)
      refine ⟨f, ?_, ?_⟩
      · rw [← he, hid]
        exact hf
      · simp only [Bool.not_eq_true, Bool.not_eq_false', Bool.and_eq_true] at hc
        rw [really_open, hfo, hc.2]
        rfl
  | move relative handle x0 y0 =>
    exact ho.same hn (client_move_mark D s relative handle x0 y0 mouse) hn'
  | topDown handle =>
    apply ho.congr hn _ hn'
    intro m hm
    rw [marks_toList] at hm ⊢
    exact ((w_topDown_marks D s handle).map _).mem_iff.mpr hm
  | resize handle width height placed =>
    rcases client_resize_cases D s handle width height placed mouse hn with
      ht | ⟨f, hf, ⟨b, ht, hb⟩ | ⟨-, -, p, -, ht⟩⟩
    · exact ho.same hn (marks_of_state ht) hn'
    · obtain ⟨hz, hid⟩ := Server.windowLookup_zip hf
      refine ho.marked hz (fun he => ?_) ((mark_of_state ht).trans (put_mark f _ _)) hn hn'
      have hf' : s.windowLookup id = some f := by
        rw [← he, hid]
        exact hf
      obtain ⟨g, hg, hgo⟩ := ho
      obtain rfl := Option.some.inj (hf'.symm.trans hg)
      rcases hb hgo with hb | ⟨hreal, hnone⟩
      · exact hb
      · exact absurd hnone (hr (hid.symm.trans he) f hf' hreal)
    · obtain ⟨hz, -⟩ := Server.windowLookup_zip hf
      exact ho.marked hz (fun _ => rfl) ((mark_of_state ht).trans (put_mark f _ _)) hn hn'
  | delete handle =>
    apply ho.survive hn (client_delete_subset D h handle mouse) hn'
    exact fun p hp hid => serve_keeps D h (.delete handle, mouse) hp (hr p hp hid)

def Desk.Held (d : Desk) : Prop :=
  d.glob_loopmove = true → ∃ id, d.loop_move_window = some id ∧ d.server.IsOpen id

theorem Desk.Held.covers {d e : Desk} (h : d.Held) (hl : e.glob_loopmove = d.glob_loopmove)
    (hw : e.loop_move_window = d.loop_move_window) (ho : ∀ id, d.server.IsOpen id → e.server.IsOpen id) : e.Held := by
  intro hm
  obtain ⟨id, hid, hopen⟩ := h (hl ▸ hm)
  exact ⟨id, hw.trans hid, ho id hopen⟩

theorem pressFrame_drag (d : Desk) (win : Window) (x y : Int) (press : Buttons)
    (resized : Bool) (real : Point) (hd : d.glob_loopmove = false)
    (hm : (pressFrame D d win x y press resized real).glob_loopmove = true) :
    (pressFrame D d win x y press resized real).loop_move_window = some win.id ∧ (markPaths d.server.tree).Perm
        (markPaths (pressFrame D d win x y press resized real).server.tree) := by
  have htop : ∀ s : Server, s.tree = d.server.tree →
      (markPaths d.server.tree).Perm (markPaths (w_topDown D s win.id).tree) := by
    intro s hs
    rw [← hs]
    exact (w_topDown_marks D s win.id).symm
  revert hm
  unfold pressFrame
  dsimp only
  split_ifs
  all_goals first
    | exact fun _ => ⟨rfl, htop _ rfl⟩
    | exact fun _ => ⟨rfl, .refl _⟩
    | exact fun hm => absurd (hd.symm.trans hm) Bool.false_ne_true

variable {d : Desk}

theorem mousebutton_held (hs : d.server.Referenced) (x y : Int)
    (press release : Buttons) (resized : Bool) (real : Point) :
    (event_mousebutton D d x y press release resized real).Held := by
  unfold event_mousebutton
  by_cases hm : d.glob_loopmove = true
  · rw [if_pos hm]
    exact nofun
  have hd : d.glob_loopmove = false := Bool.eq_false_iff.mpr hm
  have hvac : ∀ e : Desk, e.glob_loopmove = d.glob_loopmove → e.Held := fun e he hem =>
    absurd (he.symm.trans hem) hm
  rw [if_neg hm]
  by_cases hp : press = 0
  · rw [if_pos hp]
    exact hvac _ rfl
  rw [if_neg hp]
  have hrel : (d.server.press release none).Referenced := press_referenced hs release nofun
  have hf := window_find_referenced hrel x y
  dsimp only
  split
  · exact hvac _ rfl
  next f hfound =>
    obtain ⟨id, hid, hlook⟩ := Option.bind_eq_some_iff.mp hfound
    by_cases h0 : f.win.id = 0
    · rw [if_pos h0]
      exact hvac _ rfl
    rw [if_neg h0]
    unfold pressWindow
    dsimp only
    split_ifs
    · exact hvac _ rfl
    · exact hvac _ rfl
    · exact hvac _ rfl
    · intro hpress
      let d' : Desk := { d with server := (window_find (d.server.press release none) x y true).2 }
      obtain ⟨hw, hperm⟩ := pressFrame_drag D d' f.win x y press resized real hd hpress
      have hr := pressFrame_referenced D (d := d') hf f.win x y press resized real
      refine ⟨f.win.id, hw, isOpen_of_onScreen hr.nodup ?_⟩
      have hmark : (window_find (d.server.press release none) x y true).2.tree.map Window.mark =
          (d.server.press release none).tree.map Window.mark :=
        (window_find_reordered _ x y true).map fun _ _ => rfl
      have hon := window_find_onScreen hrel.lit x y hid
      rw [← (Server.windowLookup_zip hlook).2, markPaths, ← hmark] at hon
      exact hon.subset hperm.subset

theorem step_held (screen : Display) (D : Driver) (hs : d.server.Referenced) (h : d.Held)
    (e : DeskEvent) (he : DragSafe d e) : (d.step screen D e).Held := by
  have hnext := (step_referenced screen D hs e).nodup
  cases e with
  | request r real =>
    intro hm
    obtain ⟨id, hid, ho⟩ := h hm
    exact ⟨id, hid, serve_open D hs.toCounted (r, real) (he hm id hid) ho⟩
  | mousemove x y =>
    change (event_mousemove screen D d x y).Held
    change (event_mousemove screen D d x y).server.ids.Nodup at hnext
    unfold event_mousemove at hnext ⊢
    dsimp only at hnext ⊢
    split_ifs at hnext ⊢
    · split at hnext
      · exact h.covers rfl rfl fun _ ho => ho
      · exact h.covers rfl rfl fun _ ho =>
          ho.same hs.nodup (client_move_mark D d.server false _ _ _ _) hnext
    · exact h.covers rfl rfl fun _ ho =>
        ho.same hs.nodup (marks_of_state (w_changeActiveWindow_state D d.server _ _)) hnext
  | mousebutton x y press release resized real =>
    exact mousebutton_held D hs x y press release resized real
  | mouse_show =>
    change (mouse_show d).Held
    change (mouse_show d).server.ids.Nodup at hnext
    unfold mouse_show at hnext ⊢
    split_ifs at hnext ⊢
    · exact h
    · exact h.covers rfl rfl fun _ ho =>
        ho.same hs.nodup ((window_find_reordered _ _ _ true).map fun _ _ => rfl) hnext

theorem Desk.Held.live (h : d.Held) (hs : d.server.Referenced) : d.Live where
  drag := h
  left id hid := isOpen_of_onScreen hs.nodup (hs.live.left id hid)
  right id hid := isOpen_of_onScreen hs.nodup (hs.live.right id hid)
  active := (present_iff _ _).mp hs.live.active
  activetop := (present_iff _ _).mp hs.live.activetop
  top id hid := by
    obtain ⟨p, hp, he, -⟩ := hs.live.top id hid
    exact (present_iff _ _).mp ⟨p, hp, he⟩
  cache id hid := (present_iff _ _).mp (hs.live.cache id hid)

theorem references_live (screen : Display) (D : Driver) (bits : Pixmap) (colors : Colors) (l : List DeskEvent)
    (hl : AllSafe (Desk.step screen D) DragSafe ⟨window_init screen bits colors, (0, 0), false, none⟩ l) :
    (l.foldl (Desk.step screen D) ⟨window_init screen bits colors, (0, 0), false, none⟩).Live := by
  have hinv := hl.invariant (fun d : Desk => d.server.Referenced ∧ d.Held)
    (fun d e h he => ⟨step_referenced screen D h.1 e, step_held screen D h.1 h.2 e he⟩)
    ⟨window_init_referenced screen bits colors, nofun⟩
  exact hinv.2.live hinv.1

def dragEvents : List DeskEvent :=
  [.request (.connect 1 0 0) (0, 0), .request (.create 1 4 4 W_MOVE) (0, 0),
    .request (.open 2 0 0 none) (0, 0), .mousebutton 0 0 BUTTON_LEFT 0 false (0, 0)]

def startDesk : Desk := ⟨window_init vga (fun _ => 0) twoColors, (0, 0), false, none⟩

def dragging : Desk := dragEvents.foldl (Desk.step vga plain) startDesk

/-- The window is dragged and another one is created meanwhile. -/
theorem references_live_dragging : dragging.glob_loopmove = true ∧ ((dragEvents ++
      [DeskEvent.request (.create 1 2 2 0) (0, 0), .mousemove 5 7]).foldl (Desk.step vga plain) startDesk).Live := by
  refine ⟨by decide +kernel, references_live vga plain (fun _ => 0) twoColors _ ?_⟩
  refine ⟨nofun, nofun, nofun, trivial, ?_, trivial, trivial⟩
  exact fun _ _ _ _ _ _ hr => hr

/-- The window is closed, or deleted, while it is dragged. -/
theorem dragged_window_lost : ¬ (dragging.step vga plain (.request (.close 2) (0, 0))).Live ∧
      ¬ (dragging.step vga plain (.request (.delete 2) (0, 0))).Live := by
  have hclosed : (dragging.step vga plain (.request (.close 2) (0, 0))).glob_loopmove = true ∧
      (dragging.step vga plain (.request (.close 2) (0, 0))).loop_move_window = some 2 ∧
      ¬ (dragging.step vga plain (.request (.close 2) (0, 0))).server.IsOpen 2 := by
    decide +kernel
  have hdeleted : (dragging.step vga plain (.request (.delete 2) (0, 0))).glob_loopmove = true ∧
      (dragging.step vga plain (.request (.delete 2) (0, 0))).loop_move_window = some 2 ∧
      2 ∉ (dragging.step vga plain (.request (.delete 2) (0, 0))).server.ids := by
    decide +kernel
  constructor
  · intro h
    obtain ⟨id, hid, ho⟩ := h.drag hclosed.1
    obtain rfl := Option.some.inj (hclosed.2.1.symm.trans hid)
    exact hclosed.2.2 ho
  · intro h
    obtain ⟨id, hid, f, hf, -⟩ := h.drag hdeleted.1
    obtain rfl := Option.some.inj (hdeleted.2.1.symm.trans hid)
    obtain ⟨hz, he⟩ := Server.windowLookup_zip hf
    exact hdeleted.2.2 (he ▸ mem_ids_of_focus hz List.mem_cons_self)

end WWindowSystem
