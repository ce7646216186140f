import WWindowSystem.Library.Run
import WWindowSystem.Server.Painted
import WWindowSystem.Server.Reachable

namespace WWindowSystem

open Forest Function

def client_draw (s : Server) (f : Focus) (l : List (Point × Nat)) : Server :=
  let win := f.win
  if win.is_open && !win.is_hidden then
    ({ s with screen := plotAll l win.pos.x0 win.pos.y0 s.screen }.setFocus
      { f with win := { win with is_dirty := true } }).1
  else
    (s.setFocus { f with
      win := { win with
        bitmap := plotAll l 0 0 win.bitmap
        dirty := if win.is_open then
            l.foldl (fun R q => rectUpdateDirty R q.1.1 q.1.2 1 1) win.dirty
          else win.dirty } }).1

inductive Call where
  | open (handle : Nat) (x y : Int)
  | close (handle : Nat)
  | move (handle : Nat) (x y : Int)
  | to_top (handle : Nat)
  | to_bottom (handle : Nat)
  | redrawAllIfDirty

def onHandle (s : Server) (handle : Nat) (op : Focus → Server) : Server :=
  match s.windowLookup handle with
  | some f => op f
  | none => s

def Call.run (D : Driver) (s : Server) : Call → Server
  | .open handle x y => onHandle s handle fun f => (window_open D s f x y).2.1
  | .close handle => onHandle s handle fun f => (window_close D s f).2.1
  | .move handle x y => onHandle s handle fun f => (window_move D s f x y).2.1
  | .to_top handle => onHandle s handle fun f => (window_to_top D s f).2.1
  | .to_bottom handle => onHandle s handle fun f => (window_to_bottom D s f).2.1
  | .redrawAllIfDirty => windowRedrawAllIfDirty D s

/-- A window that is opened has at least one pixel, and no operation redraws the frame of a parent
that it has not saved. -/
def Call.Safe (s : Server) : Call → Prop
  | .open handle _ _ => ∀ f, s.windowLookup handle = some f → f.win.pos.Proper
  | .close handle => ∀ f, s.windowLookup handle = some f → f.win.is_open = true →
      ∀ p ∈ (ancestors f.ctx).head?, ¬ Unsaved p f.win.pos
  | .move handle x y => ∀ f, s.windowLookup handle = some f → f.win.is_open = true →
      ∀ p ∈ (ancestors f.ctx).head?, ¬ UnsavedMove p f.win.pos
        (f.win.pos.shift (x - f.win.pos.x0) (y - f.win.pos.y0))
  | _ => True

inductive Event where
  | create (cptr : Client) (wwidth wheight : Int) (flags : Flags) (parent : Nat)
  | draw (handle : Nat) (l : List (Point × Nat))
  | call (c : Call)

def Event.run (D : Driver) (s : Server) : Event → Server
  | .create cptr wwidth wheight flags parent => onHandle s parent fun f =>
      ((createWindow D s cptr wwidth wheight flags f).map Prod.snd).getD s
  | .draw handle l => onHandle s handle fun f => client_draw s f l
  | .call c => c.run D s

def Event.Safe (s : Server) : Event → Prop
  | .create .. => True
  | .draw handle l => ∀ f, s.windowLookup handle = some f →
      f.win.backing = .real ∧ ∀ q ∈ l, q.1 ∈ f.win.bounds
  | .call c => c.Safe s

/-- The pixel of a window at a window relative point: on the screen when it is certainly to be seen
there, in the bitmap otherwise. -/
def contents (screen : Pixmap) (f : Focus) (p : Point) : Nat :=
  if really_open f.ctx f.win && !f.win.is_hidden then
    screen (p.1 + f.win.pos.x0, p.2 + f.win.pos.y0)
  else f.win.bitmap p

variable (l : List (Point × Nat))

theorem plotAll_off (dx dy : Int) (bm : Pixmap) (q : Point)
    (h : ∀ r ∈ l, r.1 ≠ (q.1 - dx, q.2 - dy)) : plotAll l dx dy bm q = bm q := by
  unfold plotAll
  induction l generalizing bm with
  | nil => rfl
  | cons r l ih =>
    obtain ⟨hr, hl⟩ := List.forall_mem_cons.mp h
    rw [List.foldl_cons, ih _ hl, update_of_ne]
    rintro rfl
    apply hr
    ext <;> simp

theorem plotAll_shift (dx dy : Int) (bm bm' : Pixmap) (q : Point)
    (h : bm q = bm' (q.1 - dx, q.2 - dy)) : plotAll l dx dy bm q = plotAll l 0 0 bm' (q.1 - dx, q.2 - dy) := by
  unfold plotAll
  induction l generalizing bm bm' with
  | nil => exact h
  | cons r l ih =>
    rw [List.foldl_cons, List.foldl_cons]
    apply ih
    by_cases hr : r.1 = (q.1 - dx, q.2 - dy)
    · have h1 : (r.1.1 + dx, r.1.2 + dy) = q := by
        rw [hr]
        ext <;> simp
      have h2 : (r.1.1 + 0, r.1.2 + 0) = ((q.1 - dx, q.2 - dy) : Point) := by
        rw [hr]
        simp
      rw [h1, h2, update_self, update_self]
    · rw [update_of_ne, update_of_ne]
      · exact h
      · rintro he
        apply hr
        rw [he]
        ext <;> simp
      · rintro rfl
        apply hr
        ext <;> simp

theorem rectUpdateDirty_spec {R : Rec} (x y : Int) (h : R.w = 0 ∨ R.Proper) :
    (rectUpdateDirty R x y 1 1).Proper ∧ R.pts ⊆ (rectUpdateDirty R x y 1 1).pts ∧
      (x, y) ∈ (rectUpdateDirty R x y 1 1).pts := by
  unfold rectUpdateDirty
  split_ifs with hw
  · have hp : R.Proper := h.resolve_left hw
    simp only [Rec.Proper] at hp
    refine ⟨?_, fun q hq => ?_, ?_⟩
    · simp only [Rec.Proper, XL, XR, YO, YU]
      omega
    · simp only [Rec.mem_pts, XL, XR, YO, YU] at hq ⊢
      omega
    · simp only [Rec.mem_pts, XL, XR, YO, YU]
      omega
  · refine ⟨by simp [Rec.Proper], fun q hq => ?_, ?_⟩
    · simp only [Rec.mem_pts] at hq
      omega
    · simp only [Rec.mem_pts]
      omega

theorem dirty_foldl {R : Rec} (h : R.w = 0 ∨ R.Proper) :
    let R' := l.foldl (fun R q => rectUpdateDirty R q.1.1 q.1.2 1 1) R
    (R'.w = 0 ∨ R'.Proper) ∧ R.pts ⊆ R'.pts ∧ ∀ q ∈ l, q.1 ∈ R'.pts := by
  induction l generalizing R with
  | nil => exact ⟨h, subset_rfl, by simp⟩
  | cons r l ih =>
    obtain ⟨h1, h2, h3⟩ := rectUpdateDirty_spec r.1.1 r.1.2 h
    obtain ⟨i1, i2, i3⟩ := ih (.inr h1)
    exact ⟨i1, h2.trans i2, List.forall_mem_cons.mpr ⟨i2 h3, i3⟩⟩

structure Kept (g : Nat → Pixmap) (s : Server) : Prop where
  visible : Visible s.tree
  nodup : s.ids.Nodup
  painted : Painted g s

variable {g : Nat → Pixmap} {s : Server} {f : Focus}

theorem contents_eq (h : Kept g s) (hf : f.zip = s.tree)
    (hb : f.win.backing = .real) {p : Point} (hp : p ∈ f.win.bounds) : contents s.screen f p = g f.win.id p := by
  have hv := h.visible
  rw [← hf] at hv
  obtain ⟨-, -, ⟨he, -, -⟩, -⟩ := hv.pieces
  have hmem : f.win ∈ s.tree.toList := hf ▸ mem_zip.mpr (.inl List.mem_cons_self)
  have hh := h.painted f.win hmem hb
  unfold contents
  cases hr : really_open f.ctx f.win && !f.win.is_hidden with
  | true =>
    rw [if_pos rfl]
    simp only [Bool.and_eq_true, Bool.not_eq_true', really_open] at hr
    obtain ⟨⟨ho, -⟩, hhid⟩ := hr
    have hq : ((p.1 + f.win.pos.x0, p.2 + f.win.pos.y0) : Point) ∈ f.win.vis := by
      rw [he.fit.shown ho hhid, ← rel_mem_bounds]
      simpa [Window.rel] using hp
    rw [hh.synced _ hq (by simp [dirtyPts_empty (hh.clean ho hhid)])]
    simp [Window.rel]
  | false =>
    rw [if_neg (by simp)]
    refine hh.stored ?_ p hp
    cases ho : f.win.is_open with
    | false => exact .inl rfl
    | true =>
      right; left
      by_contra hhid
      rw [Bool.not_eq_true] at hhid
      rw [really_open, ho, hhid, Bool.true_and, Bool.not_false, Bool.and_true, ← Bool.not_eq_true,
        List.all_eq_true] at hr
      -- below a closed window nothing is to be seen
      have hroom : room f.ctx = ∅ := by
        apply room_closed
        by_contra hno
        push Not at hno
        exact hr fun a ha => by simpa using hno a ha
      have hsub := (he.hidden ho).mp hhid
      rw [hroom, region_empty (by simp)] at hsub
      have hmem' := h.visible.sound f.win hmem
      exact hmem'.not_subset_empty ho hsub

theorem kept_update {g g' : Nat → Pixmap} {s s' : Server} {win : Window}
    (h : Kept g s) (hf : f.zip = s.tree) (ht : s'.tree = { f with win }.zip)
    (hfix : win.fixed = f.win.fixed) (hg : ∀ id, id ≠ f.win.id → g' id = g id)
    (hs : ∀ q, q ∉ f.win.vis → s'.screen q = s.screen q) (hw : HoldsReal g' s'.screen win) : Kept g' s' := by
  have htree : s'.tree.map Window.fixed = s.tree.map Window.fixed := by
    rw [ht, ← hf]
    simp only [Focus.zip, map_zip, Forest.map, hfix]
  have hgeom := congrArg (Forest.map Prod.fst) htree
  have hstat := congrArg (Forest.map Prod.snd) htree
  rw [map_map, map_map] at hgeom hstat
  refine ⟨h.visible.congr hgeom.symm, ?_, ?_⟩
  · rw [ids_congr hstat]
    exact h.nodup
  · have hsep := (shown_separate h.visible.sound h.visible.shown)
    have hn := h.nodup
    rw [Server.ids] at hn
    rw [← hf] at hsep hn
    have hsep := hsep.perm (focus_perm f)
    have hn := ((focus_perm f).map Window.id).nodup_iff.mp hn
    obtain ⟨hsep, -⟩ := List.pairwise_cons.mp hsep
    rw [List.map_cons, List.nodup_cons] at hn
    intro v hv hb
    rw [ht, (focus_perm _).mem_iff] at hv
    rcases List.mem_cons.mp hv with rfl | hv
    · exact hw hb
    · have hmem : v ∈ s.tree.toList := by
        rw [← hf, (focus_perm f).mem_iff]
        exact List.mem_cons_of_mem _ hv
      have hid : v.id ≠ f.win.id := fun he => hn.1 (he ▸ List.mem_map_of_mem hv)
      have hh : Holds g s'.screen v :=
        (h.painted v hmem hb).congr fun q hq => hs q fun hqw => hsep v hv q hqw hq
      obtain ⟨h1, h2, h3, h4⟩ := hh
      refine ⟨?_, h2, ?_, h4⟩
      · rw [hg _ hid]
        exact h1
      · unfold Fresh
        rw [hg _ hid]
        exact h3

theorem client_draw_kept (h : Kept g s)
    (hf : f.zip = s.tree) (hb : f.win.backing = .real) {l : List (Point × Nat)} (hl : ∀ q ∈ l, q.1 ∈ f.win.bounds) :
    Kept (Function.update g f.win.id (plotAll l 0 0 (g f.win.id))) (client_draw s f l) := by
  have hv := h.visible
  rw [← hf] at hv
  obtain ⟨-, -, ⟨he, -, -⟩, -⟩ := hv.pieces
  have hmem : f.win ∈ s.tree.toList := hf ▸ mem_zip.mpr (.inl List.mem_cons_self)
  have hh := h.painted f.win hmem hb
  have hg : ∀ id, id ≠ f.win.id →
      Function.update g f.win.id (plotAll l 0 0 (g f.win.id)) id = g id :=
    fun id hid => update_of_ne hid _ _
  unfold client_draw
  dsimp only
  by_cases hc : (f.win.is_open && !f.win.is_hidden) = true
  · rw [if_pos hc]
    simp only [Bool.and_eq_true, Bool.not_eq_true'] at hc
    obtain ⟨ho, hhid⟩ := hc
    have hvis := he.fit.shown ho hhid
    have hdirty := hh.clean ho hhid
    refine kept_update h hf rfl rfl hg (fun q hq => ?_) fun _ => ⟨fun q hq _ => ?_, fun _ _ => hdirty,
      fun hst => ?_, hh.dirty⟩
    · apply plotAll_off
      rintro r hr heq
      apply hq
      rw [hvis, ← rel_mem_bounds, Window.rel, ← heq]
      exact hl r hr
    · dsimp only [Window.rel]
      rw [update_self]
      apply plotAll_shift
      exact hh.synced q hq (by simp [dirtyPts_empty hdirty])
    · simp [ho, hhid] at hst
  · rw [if_neg hc]
    have hst : f.win.is_open = false ∨ f.win.is_hidden = true ∨ f.win.is_dirty = false := by
      cases ho : f.win.is_open with
      | false => exact .inl rfl
      | true => right; left; simpa [ho] using hc
    have hfresh := hh.stored hst
    obtain ⟨hd1, hd2, hd3⟩ := dirty_foldl l hh.dirty
    refine kept_update h hf rfl rfl hg (fun q _ => rfl) fun _ => ⟨fun q hq hqd => ?_, fun ho hhid => ?_,
      fun _ p hp => ?_, ?_⟩
    · change q ∈ f.win.vis at hq
      change s.screen q = Function.update g f.win.id _ f.win.id (f.win.rel q)
      have ho : f.win.is_open = true := by
        by_contra hno
        rw [he.fit.closed (by simpa using hno)] at hq
        exact hq
      simp only [Window.dirtyPts, ho, if_true, Rec.mem_shift] at hqd
      rw [update_self, plotAll_off]
      · exact hh.synced q hq fun hm => hqd (hd2 (Rec.mem_shift.mp hm))
      · rintro r hr heq
        apply hqd
        have := hd3 r hr
        rw [heq] at this
        simpa [Window.rel] using this
    · change f.win.is_open = true at ho
      change f.win.is_hidden = false at hhid
      simp [ho, hhid] at hc
    · dsimp only
      rw [update_self]
      have := plotAll_shift l 0 0 f.win.bitmap (g f.win.id) p (by simpa using hfresh p hp)
      simpa using this
    · dsimp only
      split_ifs
      · exact hd1
      · exact hh.dirty

variable (D : Driver)

theorem redrawIfDirty_frame (screen : Pixmap) (w : Window) (q : Point) (h : q ∉ w.vis) :
    (redrawIfDirty D screen w).1 q = screen q := by
  unfold redrawIfDirty
  split_ifs
  · exact window_redraw_frame D _ screen w q h
  · rfl

theorem redrawIfDirty_geom (screen : Pixmap) (w : Window) :
    (redrawIfDirty D screen w).2.geom = w.geom := by
  unfold redrawIfDirty
  split_ifs
  · exact window_redraw_geom D _ screen w
  · rfl

theorem redrawIfDirty_rigid (screen : Pixmap) (w : Window) :
    (redrawIfDirty D screen w).2.rigid = w.rigid := by
  unfold redrawIfDirty
  split_ifs
  · exact window_redraw_rigid D _ screen w
  · rfl

theorem redrawIfDirty_holds {D : Driver} {screen : Pixmap} {w : Window}
    (hb : w.backing = .real) (hf : Fit w) (h : Holds g screen w) :
    Holds g (redrawIfDirty D screen w).1 (redrawIfDirty D screen w).2 ∧ (redrawIfDirty D screen w).2.dirty.w = 0 := by
  unfold redrawIfDirty
  by_cases hd : w.dirty.w = 0
  · rw [if_neg (by simpa using hd)]
    exact ⟨h, hd⟩
  · rw [if_pos hd]
    refine ⟨?_, rfl⟩
    cases ho : w.is_open with
    | false =>
      rw [window_redraw_contents_rect, if_pos (by simp [ho])]
      refine ⟨fun q hq => ?_, fun ho' => ?_, h.stored, .inl rfl⟩
      · change q ∈ w.vis at hq
        rw [hf.closed ho] at hq
        exact absurd hq (Set.notMem_empty q)
      · change w.is_open = true at ho'
        exact absurd (ho.symm.trans ho') (by simp)
    | true =>
      -- a dirty rectangle is there only when the window is hidden, and its bitmap is up to date
      have hh : w.is_hidden = true := by
        by_contra hno
        exact hd (h.clean ho (by simpa using hno))
      have hs := h.stored (.inr (.inl hh))
      have hw : ∀ rects, window_redraw_contents_rect D rects screen w =
          (rects.foldl (redrawRect D w) screen, w) := by
        intro rects
        simp [window_redraw_contents_rect, ho, hh]
      rw [hw]
      refine ⟨fun q hq _ => ?_, fun _ hh' => ?_, fun _ => hs, .inl rfl⟩
      · change q ∈ w.vis at hq
        change [w.dirty.shift w.pos.x0 w.pos.y0].foldl (redrawRect D w) screen q = g w.id (w.rel q)
        by_cases hqd : q ∈ w.dirtyPts
        · rw [redrawRects_real hb]
          · exact hs _ (rel_mem_bounds.mpr (hf.sub hq))
          · exact .inl ⟨hq, _, List.mem_singleton_self _, hqd⟩
        · rw [redrawRects_frame]
          · exact h.synced q hq hqd
          · rw [coverage_single]
            exact fun _ => hqd
      · change w.is_hidden = false at hh'
        exact absurd (hh.symm.trans hh') (by simp)

theorem redrawIfDirty_local (g : Nat → Pixmap) :
    Local (redrawIfDirty D) Window.vis
      (fun screen w => Fit w ∧ HoldsReal g screen w)
      (fun screen w => w.backing = .real → Holds g screen w ∧ w.dirty.w = 0) where
  frame screen w := redrawIfDirty_frame D screen w
  same screen w := vis_of_geom (redrawIfDirty_geom D screen w)
  visit screen w h hb := by
    have hst := congrArg (fun p => p.1.2.2.2.1) (redrawIfDirty_rigid D screen w)
    have hw : w.backing = .real := hst.symm.trans hb
    exact redrawIfDirty_holds hw h.1 (h.2 hw)
  pre_congr _ _ _ hs h := ⟨h.1, fun hb => (h.2 hb).congr hs⟩
  post_congr _ _ _ hs h hb := ⟨(h hb).1.congr hs, (h hb).2⟩

theorem windowRedrawAllIfDirty_kept {D : Driver} (h : Kept g s) :
    Kept g (windowRedrawAllIfDirty D s) ∧
      ∀ w ∈ (windowRedrawAllIfDirty D s).tree.toList, w.backing = .real → w.dirty.w = 0 := by
  have hgeom : (windowRedrawAllIfDirty D s).tree.map Window.geom = s.tree.map Window.geom :=
    map_scan (redrawIfDirty_geom D) _ _
  have hstat : (windowRedrawAllIfDirty D s).tree.map Window.static = s.tree.map Window.static :=
    static_of_rigid (map_scan (redrawIfDirty_rigid D) _ _)
  obtain ⟨h1, h2⟩ := scan_toList (redrawIfDirty D) s.screen s.tree
  have hall := (redrawIfDirty_local D g).scanList s.tree.toList s.screen
    (shown_separate h.visible.sound h.visible.shown)
    (fun w hw => ⟨shown_fit h.visible.shown w hw, h.painted w hw⟩)
  rw [← h1, ← h2] at hall
  refine ⟨⟨h.visible.congr hgeom.symm, ?_, fun w hw hb => (hall w hw hb).1⟩,
    fun w hw hb => (hall w hw hb).2⟩
  rw [ids_congr hstat]
  exact h.nodup

theorem create_kept {D : Driver} {s s' : Server} {cptr : Client}
    {wwidth wheight h : Int} {flags : Flags} {parent : Focus} (hp : parent.zip = s.tree)
    (hc : createWindow D s cptr wwidth wheight flags parent = some (h, s')) (hk : Kept g s) : ∃ g', Kept g' s' := by
  have hv := createWindow_visible D s s' cptr wwidth wheight h flags parent hp hk.visible hc
  have hn := (createWindow_nodup hp hc hk.nodup).1
  rcases createWindow_cases hc with ⟨-, rfl⟩ | ⟨id, tab, -, -, hnew⟩
  · exact ⟨g, hk⟩
  · refine ⟨Function.update g id fun _ => 0, hv, hn, ?_⟩
    intro v hvm hb
    rw [hnew.tree, mem_zip] at hvm
    have hold : v ≠ newWindow D cptr.id wwidth wheight flags id tab.2 → v ∈ s.tree.toList := by
      intro hne
      have hz : s.tree = zip (.parent parent.win parent.next :: parent.ctx) parent.childs := hp.symm
      rw [hz, mem_zip]
      simp only [toList, List.nil_append, List.mem_cons] at hvm
      tauto
    by_cases hne : v = newWindow D cptr.id wwidth wheight flags id tab.2
    · subst hne
      refine ⟨fun q hq => ?_, fun ho => ?_, fun _ p _ => ?_, .inl rfl⟩
      · simp [Window.vis, newWindow, createBitmap] at hq
      · simp [newWindow, createBitmap] at ho
      · change 0 = Function.update g id _ id p
        rw [update_self]
    · have hmem := hold hne
      have hid : v.id ≠ id := by
        intro he
        apply hnew.fresh
        change id ∈ _
        rw [← he]
        exact List.mem_map_of_mem hmem
      obtain ⟨h1, h2, h3, h4⟩ := hk.painted v hmem hb
      rw [hnew.screen]
      refine ⟨?_, h2, ?_, h4⟩
      · rw [update_of_ne hid]
        exact h1
      · unfold Fresh
        rw [update_of_ne hid]
        exact h3

theorem onHandle_ind {P : Server → Prop} {handle : Nat} {op : Focus → Server}
    (hs : P s) (h : ∀ f, s.windowLookup handle = some f → P (op f)) : P (onHandle s handle op) := by
  unfold onHandle
  split
  next f hf => exact h f hf
  next => exact hs

theorem call_kept {D : Driver} {c : Call} (h : Kept g s)
    (hc : c.Safe s) : Kept g (c.run D s) := by
  obtain ⟨hv, hn, hp⟩ := id h
  cases c with
  | «open» handle x y =>
    refine onHandle_ind h fun f hf => ?_
    have hz := (Server.windowLookup_zip hf).1
    refine ⟨window_open_visible D s f x y hz hv (hc f hf), ?_,
      window_open_painted D g s f x y hz hv (hc f hf) hp⟩
    rwa [ids_congr (window_open_static D s f x y hz)]
  | close handle =>
    refine onHandle_ind h fun f hf => ?_
    have hz := (Server.windowLookup_zip hf).1
    refine ⟨window_close_visible D s f hz hv, ?_, window_close_painted D g s f hz hv hp (hc f hf)⟩
    rwa [ids_congr (window_close_static D s f hz)]
  | move handle x y =>
    refine onHandle_ind h fun f hf => ?_
    have hz := (Server.windowLookup_zip hf).1
    refine ⟨window_move_visible D s f x y hz hv, ?_, window_move_painted D g s f x y hz hv hp (hc f hf)⟩
    rwa [ids_congr (window_move_static D s f x y hz)]
  | to_top handle =>
    refine onHandle_ind h fun f hf => ?_
    have hz := (Server.windowLookup_zip hf).1
    refine ⟨window_to_top_visible D s f hz hv, ?_, window_to_top_painted D g s f hz hv hp⟩
    rw [ids_static] at hn ⊢
    exact ((window_to_top_static D s f hz).map Prod.fst).nodup_iff.mpr hn
  | to_bottom handle =>
    refine onHandle_ind h fun f hf => ?_
    have hz := (Server.windowLookup_zip hf).1
    refine ⟨window_to_bottom_visible D s f hz hv, ?_, window_to_bottom_painted D g s f hz hv hp⟩
    rw [ids_static] at hn ⊢
    exact ((window_to_bottom_static D s f hz).map Prod.fst).nodup_iff.mpr hn
  | redrawAllIfDirty => exact (windowRedrawAllIfDirty_kept h).1

theorem call_rigid (s : Server) (c : Call) :
    ((c.run D s).tree.map Window.rigid).toList.Perm (s.tree.map Window.rigid).toList := by
  have key : ∀ (handle : Nat) (op : Focus → Server),
      (∀ f : Focus, f.zip = s.tree → ((op f).tree.map Window.rigid).toList.Perm
        (s.tree.map Window.rigid).toList) →
      ((onHandle s handle op).tree.map Window.rigid).toList.Perm
        (s.tree.map Window.rigid).toList := by
    intro handle op hop
    refine onHandle_ind (P := fun s' => (s'.tree.map Window.rigid).toList.Perm
      (s.tree.map Window.rigid).toList) (.refl _) fun f hf => ?_
    exact hop f (Server.windowLookup_zip hf).1
  cases c with
  | «open» handle x y => exact key _ _ fun f hz => .of_eq (congrArg _ (window_open_rigid D s f x y hz))
  | close handle => exact key _ _ fun f hz => .of_eq (congrArg _ (window_close_rigid D s f hz))
  | move handle x y => exact key _ _ fun f hz => .of_eq (congrArg _ (window_move_rigid D s f x y hz))
  | to_top handle => exact key _ _ fun f hz => window_to_top_rigid D s f hz
  | to_bottom handle => exact key _ _ fun f hz => window_to_bottom_rigid D s f hz
  | redrawAllIfDirty => exact .of_eq (congrArg _ (map_scan (redrawIfDirty_rigid D) _ _))

theorem call_same_window {s s' : Server} {f f' : Focus}
    (h : (s'.tree.map Window.rigid).toList.Perm (s.tree.map Window.rigid).toList)
    (hn : s.ids.Nodup) (hf : f.zip = s.tree) (hf' : f'.zip = s'.tree) (hid : f'.win.id = f.win.id) :
    f'.win.backing = f.win.backing ∧ f.win.bounds = f'.win.bounds := by
  have hmem : f.win ∈ s.tree.toList := hf ▸ mem_zip.mpr (.inl List.mem_cons_self)
  have hmem' : f'.win ∈ s'.tree.toList := hf' ▸ mem_zip.mpr (.inl List.mem_cons_self)
  rw [toList_map, toList_map] at h
  obtain ⟨v, hv, hr⟩ := List.mem_map.mp (h.mem_iff.mp (List.mem_map_of_mem hmem'))
  have hvid : v.id = f.win.id := (congrArg (fun p => p.1.1) hr).trans hid
  obtain rfl := List.inj_on_of_nodup_map hn hv hmem hvid
  simp only [Window.rigid, Window.static, Prod.mk.injEq] at hr
  obtain ⟨⟨-, -, -, hb, -⟩, hw, hh⟩ := hr
  refine ⟨hb.symm, ?_⟩
  simp only [Window.bounds, hw, hh]

theorem event_kept {D : Driver} {e : Event} (h : ∃ g, Kept g s) (he : e.Safe s) :
    ∃ g, Kept g (e.run D s) := by
  obtain ⟨g, hg⟩ := h
  cases e with
  | create cptr wwidth wheight flags parent =>
    refine onHandle_ind (P := fun s => ∃ g, Kept g s) ⟨g, hg⟩ fun f hf => ?_
    cases hc : createWindow D s cptr wwidth wheight flags f with
    | none => exact ⟨g, hg⟩
    | some r => exact create_kept (Server.windowLookup_zip hf).1 hc hg
  | draw handle l =>
    refine onHandle_ind (P := fun s => ∃ g, Kept g s) ⟨g, hg⟩ fun f hf => ?_
    obtain ⟨hb, hl⟩ := he f hf
    exact ⟨_, client_draw_kept hg (Server.windowLookup_zip hf).1 hb hl⟩
  | call c => exact ⟨g, call_kept hg he⟩

theorem window_init_kept (d : Display) (screen : Pixmap) (colors : Colors) :
    ∃ g, Kept g (window_init d screen colors) := by
  have hi := window_init_valid d screen colors
  refine ⟨fun _ => (glob_backgroundwindow d screen).bitmap, hi.visible, hi.nodup, ?_⟩
  intro w hw hb
  simp only [window_init, toList, List.append_nil, List.mem_cons, List.not_mem_nil, or_false] at hw
  rcases hw with rfl | rfl
  · simp [glob_rootwindow] at hb
  · refine ⟨fun q hq _ => ?_, fun _ _ => rfl, fun _ p _ => rfl, .inl rfl⟩
    obtain ⟨r, hr, hqr⟩ := hq
    obtain rfl : r = rect_create 0 0 d.width d.height := by simpa [glob_backgroundwindow] using hr
    simp only [rect_create, Rec.mem_pts] at hqr
    dsimp only [window_init, glob_backgroundwindow, Window.rel, Display.area]
    rw [bitblk, if_pos (by omega)]
    congr 1
    ext <;> simp

def KeepsContents (D : Driver) (s : Server) (c : Call) : Prop :=
  ∀ f f' : Focus, f.zip = s.tree → f'.zip = (c.run D s).tree → f'.win.id = f.win.id →
    f.win.backing = .real → ∀ p ∈ f.win.bounds,
      contents (c.run D s).screen f' p = contents s.screen f p

def ShowsContents (s : Server) : Prop :=
  ∀ f : Focus, f.zip = s.tree → f.win.backing = .real →
    ∀ q ∈ f.win.vis, s.screen q = contents s.screen f (f.win.rel q)

def blackScreen : Server := window_init vga (fun _ => 0) twoColors

def frameDrawn : List Event :=
  [.create { id := 1 } 20 20 0 0, .call (.open 2 10 10), .create { id := 1 } 1 1 W_NOBORDER 2,
    .call (.open 3 10 10), .draw 2 [((0, 0), 7)]]

instance (w : Window) (p : Point) : Decidable (p ∈ w.bounds) := inferInstanceAs (Decidable (_ ∧ _))

theorem frameDrawn_safe : AllSafe (Event.run plain) Event.Safe blackScreen frameDrawn := by
  refine ⟨trivial, ?_, trivial, ?_, ?_, trivial⟩
  · exact safe_of_all (by decide +kernel)
  · exact safe_of_all (by decide +kernel)
  · exact safe_of_all (by decide +kernel)

end WWindowSystem
