import WWindowSystem.Server.Closing
import WWindowSystem.Server.Removal

namespace WWindowSystem

open Forest

theorem short_add_mul {z d : Int} (h : (65536 : Int) ∣ d) : short (z + d) = short z := by
  obtain ⟨k, rfl⟩ := h
  unfold short
  omega

def WindowState.from (q p : WindowState) : Point :=
  (short (q.pos.x0 - p.work.x0), short (q.pos.y0 - p.work.y0))

def Placed (w : Nat) (c : Point) (t : Forest WindowState) : Prop :=
  ∃ e ∈ paths [] t, e.1.id = w ∧ e.1.is_open = true ∧ ∃ p rest, e.2 = p :: rest ∧ e.1.from p = c

def Strands (w u : Nat) (t : Forest WindowState) : Prop :=
  ∃ e ∈ paths [] t, e.1.id = w ∧ ∃ p ∈ e.2.head?, p.is_open = false ∧ u ∈ e.2.tail.map WindowState.id

def Vanishes (p : Point) : Prop := (65536 : Int) ∣ p.1 ∧ (65536 : Int) ∣ p.2

theorem placed_displaced {k : Context WindowState} {u u' : WindowState} {cs ns : Forest WindowState}
    {w : Nat} {c d : Point} (hu : u.id ≠ w)
    (hwork : ∀ e ∈ paths [] (zip k (.node u cs ns)), e.1.id = w → e.2.head? = some u →
      Vanishes (u'.work.x0 - u.work.x0 - d.1, u'.work.y0 - u.work.y0 - d.2))
    (hd : ¬ Vanishes d → ¬ Strands w u.id (zip k (.node u cs ns))) (h : Placed w c (zip k (.node u cs ns))) :
    Placed w c (zip k (.node u' (cs.map (WindowState.move d.1 d.2)) ns)) := by
  obtain ⟨e, he, hid, ho, p, rest, hp, hc⟩ := h
  have hmem := (paths_zip _ _).mem_iff.mp he
  rw [paths, List.cons_append, List.mem_cons, List.mem_append, List.mem_append] at hmem
  rcases hmem with rfl | (hmem | hmem) | hmem
  · exact absurd hid hu
  · -- the window is below `u`
    rw [paths_above] at hmem
    obtain ⟨⟨q, l⟩, hq, rfl⟩ := List.mem_map.mp hmem
    have ho : q.is_open = true := ho
    have hp : l ++ u :: ancestors k = p :: rest := hp
    refine ⟨(q.move d.1 d.2, l.map (WindowState.move d.1 d.2) ++ u' :: ancestors k), ?_,
      (move_id _ _ q).trans hid, ?_, ?_⟩
    · apply (paths_zip _ _).mem_iff.mpr
      rw [paths, List.cons_append, List.mem_cons, List.mem_append, List.mem_append]
      refine .inr (.inl (.inl ?_))
      have hm := paths_map (WindowState.move d.1 d.2) [] cs
      rw [List.map_nil] at hm
      rw [paths_above, hm, List.map_map]
      exact List.mem_map.mpr ⟨(q, l), hq, rfl⟩
    · rw [WindowState.move, if_pos ho]
      exact ho
    · have hq' : q.move d.1 d.2 =
          { q with pos := q.pos.shift d.1 d.2, work := q.work.shift d.1 d.2 } := if_pos ho
      cases l with
      | nil =>
        -- `u` is its parent
        rw [List.nil_append, List.cons.injEq] at hp
        obtain ⟨rfl, rfl⟩ := hp
        refine ⟨u', ancestors k, rfl, ?_⟩
        obtain ⟨h1, h2⟩ := hwork _ he hid rfl
        rw [← hc, hq', WindowState.from, WindowState.from, Prod.mk.injEq]
        constructor
        · rw [← short_add_mul h1]
          congr 1
          simp only [Rec.shift]
          omega
        · rw [← short_add_mul h2]
          congr 1
          simp only [Rec.shift]
          omega
      | cons p' l =>
        rw [List.cons_append, List.cons.injEq] at hp
        obtain ⟨rfl, rfl⟩ := hp
        refine ⟨p'.move d.1 d.2, _, rfl, ?_⟩
        cases hpo : p'.is_open with
        | true =>
          have hp' : p'.move d.1 d.2 =
            { p' with pos := p'.pos.shift d.1 d.2, work := p'.work.shift d.1 d.2 } := if_pos hpo
          rw [← hc, hq', hp', WindowState.from, WindowState.from, Prod.mk.injEq]
          simp only [Rec.shift]
          constructor <;> congr 1 <;> omega
        | false =>
          have hp' : p'.move d.1 d.2 = p' := if_neg (by simp [hpo])
          have hv : Vanishes d := by
            by_contra hv
            refine hd hv ⟨_, he, hid, p', rfl, hpo, ?_⟩
            change u.id ∈ (l ++ u :: ancestors k).map WindowState.id
            rw [List.map_append]
            exact List.mem_append_right _ List.mem_cons_self
          have hx : q.pos.x0 + d.1 - p'.work.x0 = q.pos.x0 - p'.work.x0 + d.1 := by omega
          have hy : q.pos.y0 + d.2 - p'.work.y0 = q.pos.y0 - p'.work.y0 + d.2 := by omega
          rw [← hc, hq', hp', WindowState.from, WindowState.from, Prod.mk.injEq]
          simp only [Rec.shift]
          rw [hx, hy]
          exact ⟨short_add_mul hv.1, short_add_mul hv.2⟩
  · refine ⟨e, (paths_zip _ _).mem_iff.mpr ?_, hid, ho, p, rest, hp, hc⟩
    rw [paths, List.cons_append, List.mem_cons, List.mem_append, List.mem_append]
    exact .inr (.inl (.inr hmem))
  · refine ⟨e, (paths_zip _ _).mem_iff.mpr ?_, hid, ho, p, rest, hp, hc⟩
    exact List.mem_append_right _ hmem

theorem map_move_zero (t : Forest WindowState) : t.map (WindowState.move 0 0) = t := by
  have hz : ∀ q : WindowState, q.move 0 0 = q := by
    intro q
    unfold WindowState.move Rec.shift
    simp only [Int.add_zero]
    exact ite_self q
  induction t with
  | nil => rfl
  | node w cs ns ihc ihn => rw [Forest.map, hz, ihc, ihn]

def WindowState.resize (D : Driver) (width height : Int) (q : WindowState) : WindowState :=
  let win : Window := { id := q.id, flags := q.flags, backing := .null }
  let new := createBitmap D win width height q.pos.x0 q.pos.y0
  { q with pos := new.pos, work := new.work }

variable (D : Driver)

theorem resizeBitmap_state (win : Window) (width height : Int) :
    (resizeBitmap D win width height).state = win.state.resize D width height := by
  unfold resizeBitmap
  dsimp only
  split_ifs <;> rfl

variable {s : Server}

theorem resizeWindow_state {handle : Nat} {g : Focus}
    (hg : s.windowLookup handle = some g) (width height : Int) :
    (resizeWindow D s handle width height).tree.map Window.state =
      zip (mapCtx Window.state g.ctx) (.node (g.win.state.resize D width height)
        (g.childs.map Window.state) (g.next.map Window.state)) := by
  unfold resizeWindow
  rw [hg]
  simp only [Server.setFocus, Focus.zip, map_zip, Forest.map, resizeBitmap_state]

variable (f : Focus)

theorem openTarget_state (x0 y0 : Int) (placed : Option Point) :
    openTarget f x0 y0 placed = if x0 = UNDEF ∨ y0 = UNDEF then placed
      else (ancestors (mapCtx Window.state f.ctx)).head?.map fun parent =>
        (short (x0 + parent.work.x0), short (y0 + parent.work.y0)) := by
  rw [ancestors_map, List.head?_map, Option.map_map]
  rfl

def resizeTarget (f : Focus) (placed : Option Point) : Option Point :=
  (ancestors f.ctx).head?.bind fun parent =>
    openTarget f (short (f.win.pos.x0 - parent.work.x0)) (short (f.win.pos.y0 - parent.work.y0)) placed

def Focus.put (f : Focus) (q : WindowState) (d : Point) : Forest WindowState :=
  Forest.zip (mapCtx Window.state f.ctx) (.node q ((f.childs.map Window.state).map (WindowState.move d.1 d.2))
    (f.next.map Window.state))

theorem client_resize_cases (s : Server) (handle : Nat) (width height : Int)
    (placed : Option Point) (mouse : Point) (hn : s.ids.Nodup) :
    (client_resize D s handle width height placed mouse).2.tree.map Window.state =
        s.tree.map Window.state ∨
    ∃ f, s.windowLookup handle = some f ∧
      ((∃ b, (client_resize D s handle width height placed mouse).2.tree.map Window.state =
          f.put { f.win.state.resize D width height with is_open := b } (0, 0) ∧
          (f.win.is_open = true → b = true ∨
            really_open f.ctx f.win = true ∧ resizeTarget f placed = none)) ∨
        (2 ≤ handle ∧ really_open f.ctx f.win = true ∧ ∃ p, resizeTarget f placed = some p ∧
          (client_resize D s handle width height placed mouse).2.tree.map Window.state =
            f.put ((f.win.state.resize D width height).openAt p.1 p.2)
              (p.1 - f.win.pos.x0, p.2 - f.win.pos.y0))) := by
  unfold client_resize
  cases hf : s.windowLookup handle with
  | none => exact .inl rfl
  | some f =>
    obtain ⟨hz, hid⟩ := Server.windowLookup_zip hf
    dsimp only
    cases hp : (ancestors f.ctx).head? with
    | none => exact .inl rfl
    | some parent =>
      refine .inr ⟨f, rfl, ?_⟩
      dsimp only
      rw [hid]
      have hput : ∀ q : WindowState, f.put q (0, 0) = zip (mapCtx Window.state f.ctx)
          (.node q (f.childs.map Window.state) (f.next.map Window.state)) := by
        intro q
        rw [Focus.put, map_move_zero]
      rcases client_close_cases D s handle mouse hn with ⟨hr, hs⟩ | ⟨f', hf', hh, ho, hr, hs⟩
      · rw [if_neg hr, hs]
        refine .inl ⟨f.win.is_open, ?_, .inl⟩
        rw [resizeWindow_state D hf, hput]
        rfl
      · obtain rfl : f = f' := Option.some.inj (hf.symm.trans hf')
        rw [if_pos hr]
        dsimp only
        -- the window after closing, and after its resize
        obtain ⟨g, hg, hctx, hwin, hcs, hns⟩ : ∃ g : Focus,
            (client_close D s handle mouse).2.windowLookup handle = some g ∧
            mapCtx Window.state g.ctx = mapCtx Window.state f.ctx ∧
            g.win.state = (if hasParent f.ctx && (ancestors f.ctx).all fun w => w.is_open then
              f.win.state.close else f.win.state) ∧
            g.childs.map Window.state = f.childs.map Window.state ∧
            g.next.map Window.state = f.next.map Window.state := by
          split_ifs at hs ⊢
          · obtain ⟨g, hg, -, h1, h2, h3, h4⟩ := lookup_of_state (closed_ids hz hs ▸ hn) hs
            exact ⟨g, hid ▸ hg, h1, h2, h3, h4⟩
          · obtain ⟨g, hg, -, h1, h2, h3, h4⟩ :=
              lookup_of_state (ids_of_state hs ▸ hn) (hs.trans (focus_state hz))
            exact ⟨g, hid ▸ hg, h1, h2, h3, h4⟩
        have hst := resizeWindow_state D hg width height
        rw [hctx, hcs, hns] at hst
        have hn₂ : (resizeWindow D (client_close D s handle mouse).2 handle width height).ids.Nodup := by
          have : (resizeWindow D (client_close D s handle mouse).2 handle width height).ids = s.ids := by
            rw [ids_mark, ids_mark, resizeWindow_mark, ← ids_mark, ← ids_mark]
            split_ifs at hs
            · exact closed_ids hz hs
            · exact ids_of_state hs
          rw [this]
          exact hn
        obtain ⟨f₃, hf₃, -, h1, h2, h3, h4⟩ := lookup_of_state hn₂ hst
        have hgid : (g.win.state.resize D width height).id = handle := (Server.windowLookup_zip hg).2
        rw [hgid] at hf₃
        have htarget₃ : ∀ x y, openTarget f₃ x y placed = openTarget f x y placed := by
          intro x y
          rw [openTarget_state, h1, ← openTarget_state]
        rcases client_open_cases D (resizeWindow D (client_close D s handle mouse).2 handle width height)
          handle (short (f.win.pos.x0 - parent.work.x0)) (short (f.win.pos.y0 - parent.work.y0)) placed
          mouse with ⟨hopen, hstay⟩ | ⟨f₂, p, hf₂, ho₂, -, htarget, hopen⟩
        · refine .inl ⟨g.win.is_open, ?_, fun _ => ?_⟩
          · rw [hopen, hst, hput, hwin]
            split_ifs at hwin ⊢ <;> rw [show g.win.is_open = g.win.state.is_open from rfl, hwin] <;> rfl
          · by_cases hr : (hasParent f.ctx && (ancestors f.ctx).all fun w => w.is_open) = true
            · rw [if_pos hr] at hwin
              rw [Bool.and_eq_true] at hr
              right
              constructor
              · rw [really_open, ho, hr.2]
                rfl
              · rw [resizeTarget, hp, Option.bind_some, ← htarget₃]
                apply hstay f₃ hf₃
                · have : f₃.win.state.is_open = false := by
                    rw [h2, hwin]
                    rfl
                  exact this
                · exact (hasParent_map h1).trans hr.1
            · rw [if_neg hr] at hwin
              left
              rw [← ho]
              exact congrArg WindowState.is_open hwin
        · obtain rfl : f₂ = f₃ := Option.some.inj (hf₂.symm.trans hf₃)
          have hopen2 : f₂.win.state.is_open = false := ho₂
          have hreally : (hasParent f.ctx && (ancestors f.ctx).all fun w => w.is_open) = true := by
            by_contra hc
            rw [if_neg hc] at hwin
            rw [h2, hwin] at hopen2
            exact Bool.false_ne_true (hopen2.symm.trans ho)
          rw [if_pos hreally] at hwin
          rw [htarget₃] at htarget
          refine .inr ⟨hh, ?_, p, ?_, ?_⟩
          · rw [Bool.and_eq_true] at hreally
            rw [really_open, ho, hreally.2]
            rfl
          · rw [resizeTarget, hp]
            exact htarget
          · have hpos : f₂.win.pos.x0 = f.win.pos.x0 ∧ f₂.win.pos.y0 = f.win.pos.y0 := by
              have := congrArg WindowState.pos h2
              rw [hwin] at this
              rw [show f₂.win.pos = f₂.win.state.pos from rfl, this]
              exact ⟨rfl, rfl⟩
            rw [hopen, Focus.openedAt, Focus.put, h1, h2, h3, h4, hwin, hpos.1, hpos.2]
            rfl

def WindowState.Framed (D : Driver) (q : WindowState) : Prop :=
  q.work.x0 = (q.resize D 0 0).work.x0 ∧ q.work.y0 = (q.resize D 0 0).work.y0

theorem resize_framed (width height : Int) (q : WindowState) : (q.resize D width height).Framed D :=
  ⟨rfl, rfl⟩

theorem WindowState.Framed.shift {D : Driver} {q q' : WindowState} (h : q.Framed D) {dx dy : Int}
    (hf : q'.flags = q.flags) (hw : q'.work = q.work.shift dx dy)
    (hx : q'.pos.x0 = q.pos.x0 + dx) (hy : q'.pos.y0 = q.pos.y0 + dy) : q'.Framed D := by
  obtain ⟨h1, h2⟩ := h
  unfold WindowState.Framed
  unfold WindowState.resize createBitmap at h1 h2 ⊢
  simp only [Rec.shift] at h1 h2 ⊢
  rw [hw, hf, hx, hy]
  simp only [Rec.shift]
  constructor <;> omega

variable {q : WindowState}

theorem move_framed {D : Driver} (h : q.Framed D) (dx dy : Int) : (q.move dx dy).Framed D := by
  unfold WindowState.move
  split_ifs
  · exact h.shift rfl rfl rfl rfl
  · exact h

theorem openAt_framed {D : Driver} (h : q.Framed D) (x y : Int) : (q.openAt x y).Framed D :=
  h.shift rfl rfl (show x = q.pos.x0 + (x - q.pos.x0) by omega)
    (show y = q.pos.y0 + (y - q.pos.y0) by omega)

theorem move_cptr (dx dy : Int) (q : WindowState) : (q.move dx dy).cptr = q.cptr := by
  unfold WindowState.move
  split_ifs <;> rfl

def Server.Framed (D : Driver) (s : Server) : Prop :=
  ∀ q ∈ (s.tree.map Window.state).toList, q.cptr ≠ none → q.Framed D

theorem openedAt_put (p : Point) :
    f.openedAt p.1 p.2 = f.put (f.win.state.openAt p.1 p.2) (p.1 - f.win.pos.x0, p.2 - f.win.pos.y0) :=
  rfl

theorem closed_put : f.closed = f.put f.win.state.close (0, 0) := by
  rw [Focus.closed, Focus.put, map_move_zero]

theorem movedTo_put (p : Point) :
    f.movedTo p.1 p.2 = f.put (f.win.state.move (p.1 - f.win.pos.x0) (p.2 - f.win.pos.y0))
      (p.1 - f.win.pos.x0, p.2 - f.win.pos.y0) :=
  rfl

theorem Server.Framed.put {D : Driver} {s s' : Server} {f : Focus} (h : s.Framed D)
    (hf : f.zip = s.tree) {d : Point} (hq : f.win.state.cptr ≠ none → q.Framed D)
    (hc : q.cptr = f.win.state.cptr) (hs : s'.tree.map Window.state = f.put q d) : s'.Framed D := by
  intro v hv hcv
  rw [hs, Focus.put, mem_zip] at hv
  rw [Server.Framed, focus_state hf] at h
  simp only [toList, List.mem_cons, List.mem_append, toList_map] at hv
  rcases hv with (rfl | hv | hv) | hv
  · exact hq (hc ▸ hcv)
  · obtain ⟨u, hu, rfl⟩ := List.mem_map.mp hv
    rw [move_cptr] at hcv
    apply move_framed
    apply h u _ hcv
    rw [mem_zip]
    simp only [toList, List.mem_cons, List.mem_append, toList_map]
    exact .inl (.inr (.inl hu))
  · apply h v _ hcv
    rw [mem_zip]
    simp only [toList, List.mem_cons, List.mem_append, toList_map]
    exact .inl (.inr (.inr hv))
  · exact h v (mem_zip.mpr (.inr hv)) hcv

theorem Server.Framed.subset {D : Driver} {s s' : Server} (h : s.Framed D)
    (hs : (s'.tree.map Window.state).toList ⊆ (s.tree.map Window.state).toList) : s'.Framed D :=
  fun q hq => h q (hs hq)

theorem newWindow_framed (cid : Nat) (wwidth wheight : Int) (flags : Flags)
    (id tab : Nat) : (newWindow D cid wwidth wheight flags id tab).state.Framed D :=
  ⟨rfl, rfl⟩

theorem focus_mem {f : Focus} (hf : f.zip = s.tree) : f.win.state ∈ (s.tree.map Window.state).toList := by
  rw [focus_state hf, mem_zip]
  exact .inl List.mem_cons_self

theorem createBelow_framed (h : s.Framed D) (cptr : Client)
    (wwidth wheight : Int) (flags : Flags) (parent : Nat) :
    (createBelow D s cptr wwidth wheight flags parent).2.Framed D := by
  unfold createBelow
  split
  · exact h
  next f hf =>
    obtain ⟨hz, -⟩ := Server.windowLookup_zip hf
    cases hcr : createWindow D s cptr wwidth wheight flags f with
    | none => exact h
    | some r =>
      rcases createWindow_cases hcr with ⟨-, hs⟩ | ⟨id, tab, -, -, hnew⟩
      · rw [Option.getD_some, hs]
        exact h
      · rw [Option.getD_some]
        intro q hq hc
        rw [hnew.tree, map_zip] at hq
        rw [Server.Framed, focus_state hz] at h
        rw [mem_zip] at hq
        simp only [Forest.map, toList, List.nil_append, List.mem_cons] at hq
        have hold : ∀ q, q ∈ (f.childs.map Window.state).toList ∨
            q ∈ around (mapCtx Window.state (.parent f.win f.next :: f.ctx)) →
            q.cptr ≠ none → q.Framed D := by
          intro q hq
          apply h q
          have : zip (mapCtx Window.state f.ctx) (.node f.win.state (f.childs.map Window.state)
              (f.next.map Window.state)) = zip (mapCtx Window.state (.parent f.win f.next :: f.ctx))
                (f.childs.map Window.state) := rfl
          rw [this, mem_zip]
          exact hq
        rcases hq with (rfl | hq) | hq
        · exact newWindow_framed D cptr.id wwidth wheight flags id tab.2
        · exact hold q (.inl hq) hc
        · exact hold q (.inr hq) hc

theorem client_close_framed (h : s.Framed D) (hn : s.ids.Nodup)
    (handle : Nat) (mouse : Point) : (client_close D s handle mouse).2.Framed D := by
  rcases client_close_cases D s handle mouse hn with ⟨-, hs⟩ | ⟨f, hf, -, -, -, hs⟩
  · rw [hs]
    exact h
  · obtain ⟨hz, -⟩ := Server.windowLookup_zip hf
    split_ifs at hs
    · rw [closed_put] at hs
      refine h.put hz ?_ ?_ hs
      · exact fun hc => h f.win.state (focus_mem hz) hc
      · rfl
    · apply h.subset
      rw [hs]
      exact fun _ hq => hq

theorem client_delete_framed (h : s.Framed D) (hc : s.Counted)
    (handle : Nat) (mouse : Point) : (client_delete D s handle mouse).2.Framed D := by
  rcases client_delete_eq D s handle mouse hc.nodup with ⟨he, -⟩ | ⟨f, g, hf, hh, hcp, -, -⟩
  · rw [he]
    exact h
  · obtain ⟨hz, -⟩ := Server.windowLookup_zip hf
    apply h.subset
    rw [client_delete_state D mouse hc.nodup hf hh hcp (hc.hasParent hz hcp), focus_state hz]
    intro q hq
    rw [mem_zip] at hq ⊢
    rcases hq with hq | hq
    · exact .inl (List.mem_cons_of_mem _ (List.mem_append_right _ hq))
    · exact .inr hq

theorem killWindows_framed (mouse : Point) (cid : Nat) (l : List Nat)
    (h : s.Framed D) (hc : s.Counted) : (l.foldl (killClientWindow D mouse cid) s).Framed D := by
  induction l generalizing s with
  | nil => exact h
  | cons id l ih =>
    apply ih _ (killClientWindow_counted D mouse cid hc id).1
    unfold killClientWindow
    split
    · exact h
    · split_ifs
      · exact client_delete_framed D h hc id mouse
      · exact h

theorem client_resize_framed (h : s.Framed D) (hn : s.ids.Nodup)
    (handle : Nat) (width height : Int) (placed : Option Point) (mouse : Point) :
    (client_resize D s handle width height placed mouse).2.Framed D := by
  rcases client_resize_cases D s handle width height placed mouse hn with
    hs | ⟨f, hf, ⟨b, hs, -⟩ | ⟨-, -, p, -, hs⟩⟩
  · apply h.subset
    rw [hs]
    exact fun _ hq => hq
  · refine h.put (Server.windowLookup_zip hf).1 ?_ ?_ hs
    · exact fun _ => resize_framed D width height f.win.state
    · rfl
  · exact h.put (Server.windowLookup_zip hf).1
      (fun _ => openAt_framed (resize_framed D width height _) p.1 p.2) rfl hs

theorem serve_framed (h : s.Framed D) (hc : s.Counted)
    (r : Request × Point) : (serve D s r).Framed D := by
  obtain ⟨r, mouse⟩ := r
  have hby : ∀ (cid : Nat) (op : Client → Int × Server),
      (∀ cptr, (op cptr).2.Framed D) → (byClient s cid op).2.Framed D := by
    intro cid op hop
    unfold byClient
    split
    · exact h
    · exact hop _
  cases r with
  | connect cid raddr uid =>
    change (createClient s cid raddr uid).Framed D
    unfold createClient
    split_ifs <;> exact h
  | disconnect cid =>
    change Server.Framed D { windowKillClient D mouse s cid with clients := _ }
    apply Server.Framed.subset (s := windowKillClient D mouse s cid) _ fun _ hq => hq
    unfold windowKillClient
    split
    · exact h
    · exact killWindows_framed D mouse cid _ h hc
  | create cid width height flags => exact hby cid _ fun cptr => createBelow_framed D h cptr _ _ _ _
  | create2 cid width height flags handle =>
    apply hby cid
    intro cptr
    unfold client_create2
    split_ifs
    · exact h
    · exact createBelow_framed D h cptr width height flags handle
  | «open» handle x0 y0 placed =>
    rcases client_open_cases D s handle x0 y0 placed mouse with ⟨hs, -⟩ | ⟨f, p, hf, -, -, -, hs⟩
    · apply h.subset
      change (Forest.map Window.state (client_open D s handle x0 y0 placed mouse).2.tree).toList ⊆ _
      rw [hs]
      exact fun _ hq => hq
    · obtain ⟨hz, -⟩ := Server.windowLookup_zip hf
      rw [openedAt_put] at hs
      exact h.put hz (fun hcp => openAt_framed (h _ (focus_mem hz) hcp) p.1 p.2) rfl hs
  | close handle => exact client_close_framed D h hc.nodup handle mouse
  | move relative handle x0 y0 =>
    rcases client_move_cases D s relative handle x0 y0 mouse with hs | ⟨f, p, hf, -, -, -, hs⟩
    · apply h.subset
      change (Forest.map Window.state (client_move D s relative handle x0 y0 mouse).2.tree).toList ⊆ _
      rw [hs]
      exact fun _ hq => hq
    · obtain ⟨hz, -⟩ := Server.windowLookup_zip hf
      rw [movedTo_put] at hs
      exact h.put hz (fun hcp => move_framed (h _ (focus_mem hz) hcp) _ _) (move_cptr _ _ _) hs
  | topDown handle =>
    apply h.subset
    have hp := (w_topDown_paths D s handle).map Prod.fst
    rw [statePaths, statePaths, paths_fst, paths_fst] at hp
    exact hp.subset
  | resize handle width height placed =>
    exact client_resize_framed D h hc.nodup handle width height placed mouse
  | delete handle => exact client_delete_framed D h hc handle mouse

theorem served_framed (d : Display) (screen : Pixmap) (colors : Colors)
    (l : List (Request × Point)) : (l.foldl (serve D) (window_init d screen colors)).Framed D := by
  induction l using List.reverseRecOn with
  | nil =>
    intro q hq hc
    have hq : q ∈ [(glob_rootwindow d).state, (glob_backgroundwindow d screen).state] := hq
    simp only [List.mem_cons, List.not_mem_nil, or_false] at hq
    rcases hq with rfl | rfl
    · exact absurd rfl hc
    · exact absurd rfl hc
  | append_singleton l r ih =>
    rw [List.foldl_append]
    exact serve_framed D ih (served_counted D d screen colors l) r

end WWindowSystem
