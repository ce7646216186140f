import WWindowSystem.Server.VisibleInvariant

namespace WWindowSystem

open Forest

def Server.ids (s : Server) : List Nat := s.tree.toList.map Window.id

theorem ids_static (s : Server) : s.ids = (s.tree.map Window.static).toList.map Prod.fst := by
  rw [toList_map, List.map_map]
  rfl

variable {s s' : Server}

theorem ids_congr (h : s'.tree.map Window.static = s.tree.map Window.static) : s'.ids = s.ids := by
  rw [ids_static, ids_static, h]

def Window.fixed (w : Window) :
    ((Bool × Rec × Rec) × Bool × List Rec) × Nat × Option Nat × Flags × Backing × Option Nat × Nat :=
  (w.geom, w.static)

def Reordered (t u : Forest Window) : Prop :=
  u = t ∨ ∃ (f : Focus) (l : List Rec), f.zip = t ∧ f.win.vis_recs.Perm l ∧
    u = { f with win := { f.win with vis_recs := l } }.zip

theorem findCached_reordered {s : Server} {x y : Int} {r : Nat × Server}
    (h : findCached s x y = some r) : Reordered s.tree r.2.tree := by
  simp only [findCached, Option.bind_eq_bind, Option.bind_eq_some_iff] at h
  obtain ⟨id, -, f, hf, h⟩ := h
  split_ifs at h
  rw [Option.bind_eq_some_iff] at h
  obtain ⟨l, hl, h⟩ := h
  obtain rfl := Option.some.inj h
  exact .inr ⟨f, l, (Server.windowLookup_zip hf).1, rectToFront_perm hl, rfl⟩

theorem window_find_reordered (s : Server) (x y : Int) (usecache : Bool) :
    Reordered s.tree (window_find s x y usecache).2.tree := by
  unfold window_find
  split
  next r hr =>
    cases usecache with
    | false => simp at hr
    | true => exact findCached_reordered (by simpa using hr)
  next => cases usecache <;> exact .inl rfl

variable {t u : Forest Window}

theorem Reordered.visible (h : Reordered t u) (ht : Visible t) : Visible u := by
  rcases h with rfl | ⟨f, l, rfl, hl, rfl⟩
  · exact ht
  · exact Visible.recs_perm ht hl

theorem Reordered.map {β : Type} {g : Window → β} (hg : ∀ w l, g { w with vis_recs := l } = g w)
    (h : Reordered t u) : u.map g = t.map g := by
  rcases h with rfl | ⟨f, l, rfl, -, rfl⟩
  · rfl
  · simp only [Focus.zip, map_zip, Forest.map, hg]

variable (D : Driver)

theorem drawActive_fixed (dashed : Bool) (s : Server) (f : Focus) (hf : f.zip = s.tree) :
    (drawActive D dashed s f).tree.map Window.fixed = s.tree.map Window.fixed := by
  unfold drawActive
  dsimp only
  split_ifs
  · rfl
  all_goals
    rw [← hf]
    simp only [Server.setFocus, Focus.zip, map_zip, Forest.map]
    rfl

theorem drawHandle_fixed (dashed : Bool) (s : Server) (handle : Nat) :
    (drawHandle D dashed s handle).tree.map Window.fixed = s.tree.map Window.fixed := by
  unfold drawHandle
  split
  next g hg => exact drawActive_fixed D dashed s g (Server.windowLookup_zip hg).1
  next => rfl

def Redrawn (t u : Forest Window) : Prop :=
  ∃ v, Reordered t v ∧ u.map Window.fixed = v.map Window.fixed

theorem Redrawn.visible (h : Redrawn t u) (ht : Visible t) : Visible u := by
  obtain ⟨v, hv, hu⟩ := h
  refine (hv.visible ht).congr ?_
  have := congrArg (Forest.map Prod.fst) hu
  rw [map_map, map_map] at this
  exact this.symm

def Window.key (w : Window) : Nat × Bool × Rec × Rec := (w.id, w.frame)

theorem Redrawn.key (h : Redrawn t u) : u.map Window.key = t.map Window.key := by
  obtain ⟨v, hv, hu⟩ := h
  rw [← hv.map (g := Window.key) fun _ _ => rfl]
  have := congrArg (Forest.map fun p => (p.2.1, p.1.1)) hu
  rw [map_map, map_map] at this
  exact this

theorem Redrawn.static (h : Redrawn t u) : u.map Window.static = t.map Window.static := by
  obtain ⟨v, hv, hu⟩ := h
  rw [← hv.map (g := Window.static) fun _ _ => rfl]
  have := congrArg (Forest.map Prod.snd) hu
  rw [map_map, map_map] at this
  exact this

theorem w_changeActiveWindow_redrawn (s : Server) (mx my : Int) :
    Redrawn s.tree (w_changeActiveWindow D s mx my).tree := by
  refine ⟨(window_find s mx my true).2.tree, window_find_reordered s mx my true, ?_⟩
  unfold w_changeActiveWindow
  dsimp only
  split
  · rfl
  next f hf =>
    split_ifs
    · rfl
    · -- at most the old and the new toplevel window are drawn
      rw [drawHandle_fixed, drawHandle_fixed]

theorem window_open_zip (s : Server) (f : Focus) (x y : Int) (hf : f.zip = s.tree) :
    (window_open D s f x y).2.2.zip = (window_open D s f x y).2.1.tree := by
  unfold window_open
  split_ifs
  · exact hf
  · exact hf
  · rfl

theorem lookup_focus {s : Server} {f : Focus} (hf : f.zip = s.tree) (hn : s.ids.Nodup) :
    s.windowLookup f.win.id = some f := by
  have hp := toList_zip f.ctx (.node f.win f.childs f.next)
  have hid : (((f.win :: (f.childs.toList ++ f.next.toList)) ++ around f.ctx).map Window.id).Nodup := by
    rw [Server.ids, ← hf] at hn
    exact (hp.map Window.id).nodup_iff.mp hn
  have hk : ∀ w ∈ around f.ctx, decide (w.id = f.win.id) = false := by
    intro w hw
    rw [List.cons_append, List.map_cons, List.nodup_cons] at hid
    refine decide_eq_false fun he => hid.1 ?_
    rw [← he]
    exact List.mem_map_of_mem (List.mem_append_right _ hw)
  unfold Server.windowLookup
  have hl : (Forest.node f.win f.childs f.next).locate (fun w => decide (w.id = f.win.id)) f.ctx =
      some (f.ctx, f.win, f.childs, f.next) := by
    rw [locate, if_pos (by simp)]
  rw [← hf, Focus.zip, locate_of_zip hl hk]
  rfl

theorem lookup_of_mem {s : Server} (hn : s.ids.Nodup) {w : Window} (hw : w ∈ s.tree.toList) :
    ∃ f, s.windowLookup w.id = some f ∧ f.zip = s.tree ∧ f.win = w := by
  obtain ⟨r, hl⟩ := locate_isSome (fun v => decide (v.id = w.id)) s.tree [] w hw (by simp)
  cases hf : s.windowLookup w.id with
  | none =>
    rw [Server.windowLookup, Option.map_eq_none_iff] at hf
    rw [hf] at hl
    cases hl
  | some f =>
    obtain ⟨hz, hid⟩ := Server.windowLookup_zip hf
    have hm : f.win ∈ s.tree.toList := hz ▸ mem_zip.mpr (.inl List.mem_cons_self)
    exact ⟨f, rfl, hz, List.inj_on_of_nodup_map hn hm hw hid⟩

def Server.Dormant (s : Server) (handle : Nat) : Prop :=
  ∀ f, s.windowLookup handle = some f → WWindowSystem.Dormant f.ctx f.win

theorem Server.Dormant.congr {handle : Nat}
    (h : s'.tree.map Window.key = s.tree.map Window.key) (hd : s.Dormant handle) : s'.Dormant handle := by
  intro f' hf'
  have hl := locate_map Window.key (fun p => p.1 = handle) [] s'.tree
  rw [h, locate_map Window.key (fun p => p.1 = handle) [] s.tree] at hl
  obtain ⟨⟨k', w', cs', ns'⟩, hr', rfl⟩ := Option.map_eq_some_iff.mp hf'
  change s'.tree.locate (fun w => decide (w.key.1 = handle)) [] = _ at hr'
  rw [hr', Option.map_some, Option.map_eq_some_iff] at hl
  obtain ⟨⟨k, w, cs, ns⟩, hr, he⟩ := hl
  simp only [Prod.mk.injEq, Window.key, Window.frame] at he
  obtain ⟨hk, ⟨-, ho, -⟩, -, -⟩ := he
  have hlook : s.windowLookup handle = some ⟨k, w, cs, ns⟩ := by
    unfold Server.windowLookup
    change (s.tree.locate (fun w => decide (w.key.1 = handle)) []).map _ = _
    rw [hr]
    rfl
  rcases hd _ hlook with hc | ⟨a, ha, hc⟩
  · exact .inl (ho.symm.trans hc)
  · refine .inr ?_
    have hm : a.key ∈ (ancestors k').map Window.key := by
      rw [← ancestors_map, ← hk, ancestors_map]
      exact List.mem_map_of_mem ha
    obtain ⟨b, hb, he⟩ := List.mem_map.mp hm
    simp only [Window.key, Window.frame, Prod.mk.injEq] at he
    exact ⟨b, hb, he.2.1.trans hc⟩

theorem client_close_spec (s : Server) (handle : Nat) (mouse : Point) (hv : Visible s.tree) :
    Visible (client_close D s handle mouse).2.tree ∧
      (client_close D s handle mouse).2.tree.map Window.static = s.tree.map Window.static := by
  unfold client_close
  split_ifs
  · exact ⟨hv, rfl⟩
  · split
    · exact ⟨hv, rfl⟩
    next f hf =>
      obtain ⟨hz, -⟩ := Server.windowLookup_zip hf
      split_ifs
      · exact ⟨hv, rfl⟩
      · have hr := w_changeActiveWindow_redrawn D (window_close D s f).2.1 mouse.1 mouse.2
        exact ⟨hr.visible (window_close_visible D s f hz hv),
          hr.static.trans (window_close_static D s f hz)⟩

theorem client_close_dormant (s : Server) (handle : Nat) (mouse : Point) (f : Focus)
    (hn : s.ids.Nodup) (hf : s.windowLookup handle = some f) (hh : 2 ≤ handle)
    (hk : hasParent f.ctx = true) : (client_close D s handle mouse).2.Dormant handle := by
  obtain ⟨hz, hid⟩ := Server.windowLookup_zip hf
  unfold client_close
  rw [if_neg (by omega), hf]
  dsimp only
  split_ifs with ho
  · intro g hg
    obtain rfl := Option.some.inj (hf.symm.trans hg)
    exact .inl (by simpa using ho)
  · refine Server.Dormant.congr (w_changeActiveWindow_redrawn D _ mouse.1 mouse.2).key ?_
    have hzc := window_close_zip D s f hz
    have hs := window_close_static D s f hz
    have hnc : (window_close D s f).2.1.ids.Nodup := by rwa [ids_congr hs]
    have hidc : (window_close D s f).2.2.win.id = handle :=
      (congrArg Prod.fst (window_close_win_static D s f)).trans hid
    intro g hg
    have hl := lookup_focus hzc hnc
    rw [hidc, hg] at hl
    obtain rfl := Option.some.inj hl
    exact window_close_dormant D s f hk

theorem drawActive_visible (dashed : Bool) (s : Server) (f : Focus)
    (hf : f.zip = s.tree) (hv : Visible s.tree) : Visible (drawActive D dashed s f).tree := by
  have h : Redrawn s.tree (drawActive D dashed s f).tree :=
    ⟨s.tree, .inl rfl, drawActive_fixed D dashed s f hf⟩
  exact h.visible hv

theorem drawActive_static (dashed : Bool) (s : Server) (f : Focus) (hf : f.zip = s.tree) :
    (drawActive D dashed s f).tree.map Window.static = s.tree.map Window.static := by
  have h : Redrawn s.tree (drawActive D dashed s f).tree :=
    ⟨s.tree, .inl rfl, drawActive_fixed D dashed s f hf⟩
  exact h.static

theorem client_open_spec (s : Server) (handle : Nat) (x0 y0 : Int)
    (placed : Option Point) (mouse : Point) (hv : Visible s.tree)
    (hp : ∀ f, s.windowLookup handle = some f → f.win.is_open = false → f.win.pos.Proper) :
    Visible (client_open D s handle x0 y0 placed mouse).2.tree ∧
      (client_open D s handle x0 y0 placed mouse).2.tree.map Window.static = s.tree.map Window.static := by
  unfold client_open
  split
  · exact ⟨hv, rfl⟩
  next f hf =>
    by_cases ho : f.win.is_open = true
    · rw [if_pos ho]
      exact ⟨hv, rfl⟩
    · rw [if_neg ho]
      have hpos := hp f hf (by simpa using ho)
      obtain ⟨hz, -⟩ := Server.windowLookup_zip hf
      dsimp only
      generalize hw : (if f.win.flags.has W_CONTAINER = true then f.win
        else { f.win with
          bitmap := if (!f.win.has_frame || !f.win.has_title && f.win.flags.has W_TITLE) = true then
              D.gadgets f.win else f.win.bitmap
          has_frame := true
          has_title := f.win.has_title || f.win.flags.has W_TITLE }) = win
      -- the gadgets are drawn into the bitmap only
      have hfix : win.fixed = f.win.fixed := by
        rw [← hw]
        split_ifs <;> rfl
      have hposw : win.pos.Proper := by
        rw [← hw]
        split_ifs <;> exact hpos
      have htree : (s.setFocus { f with win }).1.tree.map Window.fixed =
          s.tree.map Window.fixed := by
        rw [← hz]
        simp only [Server.setFocus, Focus.zip, map_zip, Forest.map, hfix]
      have hr : Redrawn s.tree (s.setFocus { f with win }).1.tree := ⟨s.tree, .inl rfl, htree⟩
      have hv1 := hr.visible hv
      have hs1 := hr.static
      have hz1 : (s.setFocus { f with win }).2.zip = (s.setFocus { f with win }).1.tree := rfl
      split
      · exact ⟨hv1, hs1⟩
      next p hp =>
        have hu := get_rectangle_tree (x0 = UNDEF ∨ y0 = UNDEF) (s.setFocus { f with win }).1
        generalize (if x0 = UNDEF ∨ y0 = UNDEF then get_rectangle_done _ else _) = u at hu ⊢
        rw [← hu] at hv1 hs1 hz1
        have hv2 := window_open_visible D _ _ p.1 p.2 hz1 hv1 hposw
        have hs2 := (window_open_static D _ _ p.1 p.2 hz1).trans hs1
        have hz2 := window_open_zip D _ _ p.1 p.2 hz1
        split_ifs
        · exact ⟨hv2, hs2⟩
        · have h3 := w_changeActiveWindow_redrawn D (drawActive D true
            (window_open D u (s.setFocus { f with win }).2 p.1 p.2).2.1
            (window_open D u (s.setFocus { f with win }).2 p.1 p.2).2.2)
            mouse.1 mouse.2
          exact ⟨h3.visible (drawActive_visible D true _ _ hz2 hv2),
            h3.static.trans ((drawActive_static D true _ _ hz2).trans hs2)⟩

theorem Visible.resize {k : Context Window} {w w' : Window} {cs ns : Forest Window}
    (h : Visible (zip k (.node w cs ns))) (hd : Dormant k w) (ho : w'.is_open = w.is_open)
    (hh : w'.is_hidden = w.is_hidden) (hv : w'.vis_recs = w.vis_recs) (hs : w'.Sound) :
    Visible (zip k (.node w' cs ns)) := by
  obtain ⟨hst, hsk, hsh, hk⟩ := h.pieces
  obtain ⟨hsw, hsc, hsn⟩ := sound_node.mp hst
  refine ⟨sound_zip.mpr ⟨sound_node.mpr ⟨hs, hsc, hsn⟩, hsk⟩, (shown_zip _ _).mpr ?_⟩
  rcases hd with hc | hd
  · have hc' : w'.is_open = false := ho.trans hc
    rw [shown_closed hc] at hsh
    rw [roof_closed hc] at hk
    rw [shown_closed hc', roof_closed hc', hv]
    exact ⟨hsh, hk⟩
  · have hr := room_closed k hd
    rw [hr, Shown, inside_empty, behind_empty, Exact.empty_iff hsw (region_empty (by simp))] at hsh
    rw [hr, Shown, inside_empty, behind_empty, Exact.empty_iff hs (region_empty (by simp)), hv, ho, hh]
    exact ⟨hsh, ctxShown_closed hd hk⟩

theorem lookup_static {handle : Nat} {f g : Focus}
    (h : s'.tree.map Window.static = s.tree.map Window.static)
    (hf : s.windowLookup handle = some f) (hg : s'.windowLookup handle = some g) :
    mapCtx Window.static g.ctx = mapCtx Window.static f.ctx ∧ g.win.static = f.win.static := by
  have hl := locate_map Window.static (fun p => p.1 = handle) [] s'.tree
  rw [h, locate_map Window.static (fun p => p.1 = handle) [] s.tree] at hl
  obtain ⟨⟨k, w, cs, ns⟩, hr, rfl⟩ := Option.map_eq_some_iff.mp hf
  obtain ⟨⟨k', w', cs', ns'⟩, hr', rfl⟩ := Option.map_eq_some_iff.mp hg
  change s.tree.locate (fun w => decide (w.static.1 = handle)) [] = _ at hr
  change s'.tree.locate (fun w => decide (w.static.1 = handle)) [] = _ at hr'
  rw [hr, hr', Option.map_some, Option.map_some, Option.some.injEq, Prod.mk.injEq, Prod.mk.injEq] at hl
  exact ⟨hl.1.symm, hl.2.1.symm⟩

theorem createBitmap_proper {w v : Window} (h : w.flags = v.flags) (wwidth wheight x y x' y' : Int) :
    (createBitmap D w wwidth wheight x y).pos.Proper ↔ (createBitmap D v wwidth wheight x' y').pos.Proper := by
  simp only [createBitmap, Rec.Proper, h]

theorem resizeBitmap_pos (w : Window) (width height : Int) :
    (resizeBitmap D w width height).pos = (createBitmap D w width height w.pos.x0 w.pos.y0).pos := by
  unfold resizeBitmap
  dsimp only
  split_ifs <;> rfl

theorem resizeBitmap_sound (w : Window) (width height : Int)
    (hp : w.is_open = true → (createBitmap D w width height 0 0).pos.Proper) :
    (resizeBitmap D w width height).Sound := by
  have hb : (resizeBitmap D w width height).frame =
      (createBitmap D w width height w.pos.x0 w.pos.y0).frame := by
    unfold resizeBitmap
    dsimp only
    split_ifs <;> rfl
  simp only [Window.frame, Prod.mk.injEq] at hb
  obtain ⟨ho, hpos, hwk⟩ := hb
  refine ⟨fun h => ?_, ?_⟩
  · rw [hpos, createBitmap_proper D (rfl : w.flags = w.flags) _ _ _ _ 0 0]
    exact hp (ho.symm.trans h)
  · rw [hpos, hwk]
    exact createBitmap_work_sub D w width height _ _

theorem resizeWindow_spec (s : Server) (handle : Nat) (width height : Int)
    (hv : Visible s.tree) (hn : s.ids.Nodup) (hd : s.Dormant handle)
    (hp : ∀ f, s.windowLookup handle = some f → f.win.is_open = true →
      (createBitmap D f.win width height 0 0).pos.Proper) : Visible (resizeWindow D s handle width height).tree ∧
      (resizeWindow D s handle width height).tree.map Window.static = s.tree.map Window.static ∧
      ∀ f g, s.windowLookup handle = some f → (resizeWindow D s handle width height).windowLookup handle = some g →
        g.win = resizeBitmap D f.win width height := by
  unfold resizeWindow
  split
  next hf =>
    refine ⟨hv, rfl, fun f _ h => ?_⟩
    rw [hf] at h
    cases h
  next f hf =>
    obtain ⟨hz, hid⟩ := Server.windowLookup_zip hf
    have hfix : (resizeBitmap D f.win width height).static = f.win.static := by
      unfold resizeBitmap
      dsimp only
      split_ifs <;> rfl
    have hst : (s.setFocus { f with win := resizeBitmap D f.win width height }).1.tree.map
        Window.static = s.tree.map Window.static := by
      rw [← hz]
      simp only [Server.setFocus, Focus.zip, map_zip, Forest.map, hfix]
    refine ⟨?_, hst, ?_⟩
    · rw [← hz] at hv
      refine Visible.resize hv (hd f hf) ?_ ?_ ?_ (resizeBitmap_sound D f.win width height (hp f hf))
      all_goals
        unfold resizeBitmap
        dsimp only
        split_ifs <;> rfl
    · intro f' g hf' hg
      obtain rfl := Option.some.inj (hf.symm.trans hf')
      have hl := lookup_focus (s := (s.setFocus { f with win := resizeBitmap D f.win width height }).1)
        (f := { f with win := resizeBitmap D f.win width height }) rfl (by rwa [ids_congr hst])
      have hid' : (resizeBitmap D f.win width height).id = handle := (congrArg Prod.fst hfix).trans hid
      simp only [hid'] at hl
      obtain rfl := Option.some.inj (hl.symm.trans hg)
      rfl

theorem client_resize_spec (s : Server) (handle : Nat) (width height : Int)
    (placed : Option Point) (mouse : Point) (hv : Visible s.tree) (hn : s.ids.Nodup) (hh : 2 ≤ handle)
    (hp : ∀ f, s.windowLookup handle = some f → f.win.is_open = true →
      (createBitmap D f.win width height 0 0).pos.Proper) :
    Visible (client_resize D s handle width height placed mouse).2.tree ∧
      (client_resize D s handle width height placed mouse).2.tree.map Window.static = s.tree.map Window.static := by
  unfold client_resize
  split
  · exact ⟨hv, rfl⟩
  next f hf =>
    split
    · exact ⟨hv, rfl⟩
    next parent hpar =>
      obtain ⟨hz, hid⟩ := Server.windowLookup_zip hf
      have hk : hasParent f.ctx = true := by
        unfold hasParent
        cases ha : ancestors f.ctx with
        | nil => simp [ha] at hpar
        | cons => rfl
      dsimp only
      rw [hid]
      have hclosed : f.win.is_open = false → client_close D s handle mouse = (-1, s) := by
        intro ho
        unfold client_close
        rw [if_neg (by omega), hf]
        simp [ho]
      obtain ⟨hvc, hsc⟩ := client_close_spec D s handle mouse hv
      have hdc := client_close_dormant D s handle mouse f hn hf hh hk
      have hnc : (client_close D s handle mouse).2.ids.Nodup := by rwa [ids_congr hsc]
      generalize hc : client_close D s handle mouse = c at hclosed hvc hsc hdc hnc ⊢
      have hpc : ∀ g, c.2.windowLookup handle = some g → f.win.is_open = true →
          (createBitmap D g.win width height 0 0).pos.Proper := by
        intro g hg ho
        have hfl : g.win.flags = f.win.flags :=
          congrArg (fun p => p.2.2.1) (lookup_static hsc hf hg).2
        exact (createBitmap_proper D hfl width height 0 0 0 0).mpr (hp f hf ho)
      obtain ⟨hv2, hst2, hres⟩ := resizeWindow_spec D c.2 handle width height hvc hnc hdc <| by
        intro g hg ho
        refine hpc g hg ?_
        by_contra hno
        rw [hclosed (by simpa using hno)] at hg
        obtain rfl := Option.some.inj (hf.symm.trans hg)
        exact hno ho
      split_ifs with h0
      · have ho : f.win.is_open = true := by
          by_contra hno
          have := congrArg Prod.fst (hclosed (by simpa using hno))
          rw [h0] at this
          exact absurd this (by simp)
        have hp2 : ∀ g, (resizeWindow D c.2 handle width height).windowLookup handle = some g →
            g.win.is_open = false → g.win.pos.Proper := by
          intro g hg _
          cases hl : c.2.windowLookup handle with
          | none =>
            rw [resizeWindow, hl] at hg
            rw [hl] at hg
            cases hg
          | some f' =>
            rw [hres f' g hl hg, resizeBitmap_pos,
              createBitmap_proper D (rfl : f'.win.flags = f'.win.flags) _ _ _ _ 0 0]
            exact hpc f' hl ho
        obtain ⟨h3, h4⟩ := client_open_spec D _ handle (short (f.win.pos.x0 - parent.work.x0))
          (short (f.win.pos.y0 - parent.work.y0)) placed mouse hv2 hp2
        exact ⟨h3, h4.trans (hst2.trans hsc)⟩
      · exact ⟨hv2, hst2.trans hsc⟩

end WWindowSystem
