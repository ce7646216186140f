import WWindowSystem.Server.Calls

namespace WWindowSystem

open Forest

theorem ids_state (s : Server) : s.ids = ((s.tree.map Window.state).map WindowState.id).toList := by
  rw [map_map, toList_map]
  rfl

theorem ids_of_state {s s' : Server} (h : s'.tree.map Window.state = s.tree.map Window.state) : s'.ids = s.ids := by
  rw [ids_state, ids_state, h]

variable {s : Server} {f : Focus}

theorem focus_state (hf : f.zip = s.tree) :
    s.tree.map Window.state = zip (mapCtx Window.state f.ctx)
      (.node f.win.state (f.childs.map Window.state) (f.next.map Window.state)) := by
  rw [← hf, Focus.zip, map_zip]
  rfl

theorem move_id (dx dy : Int) (q : WindowState) : (q.move dx dy).id = q.id := by
  unfold WindowState.move
  split_ifs <;> rfl

theorem closed_ids {s s' : Server} (hf : f.zip = s.tree)
    (h : s'.tree.map Window.state = f.closed) : s'.ids = s.ids := by
  rw [ids_state, ids_state, h, focus_state hf, Focus.closed, map_zip, map_zip]
  rfl

theorem lookup_of_state {k : Context WindowState} {q : WindowState}
    {cs ns : Forest WindowState} (hn : s.ids.Nodup) (h : s.tree.map Window.state = zip k (.node q cs ns)) :
    ∃ g : Focus, s.windowLookup q.id = some g ∧ g.zip = s.tree ∧ mapCtx Window.state g.ctx = k ∧
      g.win.state = q ∧ g.childs.map Window.state = cs ∧ g.next.map Window.state = ns := by
  obtain ⟨k', u, ht, hk, hu⟩ := exists_zip_of_map h
  cases u with
  | nil => cases hu
  | node w cs' ns' =>
    simp only [Forest.map, Forest.node.injEq] at hu
    obtain ⟨hw, hcs, hns⟩ := hu
    refine ⟨⟨k', w, cs', ns'⟩, ?_, ht.symm, hk, hw, hcs, hns⟩
    rw [← hw]
    exact lookup_focus (f := ⟨k', w, cs', ns'⟩) ht.symm hn

variable (D : Driver)

theorem client_close_cases (s : Server) (handle : Nat) (mouse : Point) (hn : s.ids.Nodup) :
    ((client_close D s handle mouse).1 ≠ 0 ∧ (client_close D s handle mouse).2 = s) ∨
    ∃ f, s.windowLookup handle = some f ∧ 2 ≤ handle ∧ f.win.is_open = true ∧ (client_close D s handle mouse).1 = 0 ∧
      (client_close D s handle mouse).2.tree.map Window.state =
        if hasParent f.ctx && (ancestors f.ctx).all fun w => w.is_open then f.closed else s.tree.map Window.state := by
  unfold client_close
  by_cases hh : handle < 2
  · rw [if_pos hh]
    exact .inl ⟨by simp, rfl⟩
  rw [if_neg hh]
  cases hf : s.windowLookup handle with
  | none => exact .inl ⟨by simp, rfl⟩
  | some f =>
    obtain ⟨hz, -⟩ := Server.windowLookup_zip hf
    cases ho : f.win.is_open with
    | false =>
      simp only [ho, Bool.not_false, if_true]
      exact .inl ⟨by simp, trivial⟩
    | true =>
      simp only [ho, Bool.not_true, Bool.false_eq_true, if_false]
      refine .inr ⟨f, rfl, by omega, ho, trivial, ?_⟩
      rw [w_changeActiveWindow_state]
      cases hk : hasParent f.ctx with
      | false =>
        have hc : (window_close D s f).2.1 = s := by simp [window_close, ho, hk]
        rw [hc]
        rfl
      | true =>
        cases ha : (ancestors f.ctx).all fun w => w.is_open with
        | false =>
          rw [window_close_pseudo D s ha]
          rfl
        | true => exact window_close_state D hn hz ho hk ha

def openTarget (f : Focus) (x0 y0 : Int) (placed : Option Point) : Option Point :=
  if x0 = UNDEF ∨ y0 = UNDEF then placed
  else (ancestors f.ctx).head?.map fun parent =>
    (short (x0 + parent.work.x0), short (y0 + parent.work.y0))

def moveTarget (f : Focus) (relative : Bool) (x0 y0 : Int) : Option Point :=
  (ancestors f.ctx).head?.map fun parent =>
    (if relative then short (x0 + parent.work.x0) else x0,
      if relative then short (y0 + parent.work.y0) else y0)

theorem client_open_cases (s : Server) (handle : Nat) (x0 y0 : Int)
    (placed : Option Point) (mouse : Point) :
    ((client_open D s handle x0 y0 placed mouse).2.tree.map Window.state = s.tree.map Window.state ∧
      ∀ f, s.windowLookup handle = some f → f.win.is_open = false → hasParent f.ctx = true →
        openTarget f x0 y0 placed = none) ∨
    ∃ f p, s.windowLookup handle = some f ∧ f.win.is_open = false ∧ hasParent f.ctx = true ∧
      openTarget f x0 y0 placed = some p ∧
      (client_open D s handle x0 y0 placed mouse).2.tree.map Window.state = f.openedAt p.1 p.2 := by
  unfold client_open
  cases hf : s.windowLookup handle with
  | none => exact .inl ⟨rfl, fun _ hg => by cases hg⟩
  | some f =>
    have hsome : ∀ P : Focus → Prop, P f → ∀ g, some f = some g → P g :=
      fun P hP g hg => Option.some.inj hg ▸ hP
    by_cases ho : f.win.is_open = true
    · simp only [ho, if_true]
      exact .inl ⟨trivial, hsome _ fun hc => absurd (ho.symm.trans hc) (by simp)⟩
    simp only [if_neg ho]
    generalize hg : (if f.win.flags.has W_CONTAINER then f.win else _) = win
    have hwin : win.state = f.win.state := by
      rw [← hg]
      split_ifs <;> rfl
    have hs : (s.setFocus { f with win }).1.tree.map Window.state = s.tree.map Window.state := by
      rw [focus_state (Server.windowLookup_zip hf).1]
      simp only [Server.setFocus, Focus.zip, map_zip, Forest.map, hwin]
    split
    next hp => exact .inl ⟨hs, hsome _ fun _ _ => hp⟩
    next p hp =>
      have hu := get_rectangle_tree (x0 = UNDEF ∨ y0 = UNDEF) (s.setFocus { f with win }).1
      generalize (if x0 = UNDEF ∨ y0 = UNDEF then get_rectangle_done _ else _) = u at hu ⊢
      rw [← hu] at hs
      have ho' : win.is_open = false := by
        have := congrArg WindowState.is_open hwin
        exact this.trans (Bool.not_eq_true _ ▸ ho)
      cases hk : hasParent f.ctx with
      | false =>
        have hop : window_open D u (s.setFocus { f with win }).2 p.1 p.2 =
            (-1, u, (s.setFocus { f with win }).2) := by
          simp [window_open, Server.setFocus, ho', hk]
        rw [hop]
        exact .inl ⟨hs, hsome _ fun _ hc => absurd (hk.symm.trans hc) (by simp)⟩
      | true =>
        have hop := window_open_state D u (f := (s.setFocus { f with win }).2) p.1 p.2 ho' hk
        have hz := window_open_zip D u (s.setFocus { f with win }).2 p.1 p.2 hu.symm
        have hopen : (s.setFocus { f with win }).2.openedAt p.1 p.2 = f.openedAt p.1 p.2 := by
          have hx : win.pos = f.win.pos := congrArg WindowState.pos hwin
          simp only [Focus.openedAt, Server.setFocus, hwin, hx]
        rw [hopen] at hop
        refine .inr ⟨f, p, rfl, by simpa using ho, hk, hp, ?_⟩
        split_ifs
        · exact hop
        · rw [w_changeActiveWindow_state, drawActive_state _ _ _ _ hz]
          exact hop

theorem client_move_cases (s : Server) (relative : Bool) (handle : Nat) (x0 y0 : Int) (mouse : Point) :
    (client_move D s relative handle x0 y0 mouse).2.tree.map Window.state = s.tree.map Window.state ∨
      ∃ f p, s.windowLookup handle = some f ∧ f.win.is_open = true ∧
        f.win.flags.has W_MOVE = true ∧ moveTarget f relative x0 y0 = some p ∧
        (client_move D s relative handle x0 y0 mouse).2.tree.map Window.state = f.movedTo p.1 p.2 := by
  unfold client_move
  cases hf : s.windowLookup handle with
  | none => exact .inl rfl
  | some f =>
    dsimp only
    by_cases ho : f.win.is_open = true
    · by_cases hm : f.win.flags.has W_MOVE = true
      · simp only [ho, hm, Bool.not_true, Bool.false_eq_true, if_false]
        split
        · exact .inl rfl
        next parent hp =>
          have hm : moveTarget f relative x0 y0 = some
              (if relative = true then short (x0 + parent.work.x0) else x0,
                if relative = true then short (y0 + parent.work.y0) else y0) := by
            rw [moveTarget, hp]
            rfl
          revert hm
          generalize (if relative = true then short (x0 + parent.work.x0) else x0) = x
          generalize (if relative = true then short (y0 + parent.work.y0) else y0) = y
          intro htarget
          have hk : hasParent f.ctx = true := by
            apply hasParent_iff.mpr
            intro hn
            simp [hn] at hp
          rw [w_changeActiveWindow_state]
          by_cases hpos : x = f.win.pos.x0 ∧ y = f.win.pos.y0
          · left
            simp [window_move, ho, hk, hpos]
          · exact .inr ⟨f, (x, y), rfl, ho, hm, htarget, window_move_state D s ho hk hpos⟩
      · left
        simp [ho, hm]
    · left
      simp [ho]

theorem w_topDown_paths (s : Server) (handle : Nat) :
    (statePaths (w_topDown D s handle).tree).Perm (statePaths s.tree) := by
  unfold w_topDown
  cases hf : s.windowLookup handle with
  | none => rfl
  | some f =>
    obtain ⟨hz, -⟩ := Server.windowLookup_zip hf
    dsimp only
    split
    · exact window_to_top_paths D hz
    · exact window_to_bottom_paths D hz

theorem window_close_around (s : Server) (f : Focus) :
    mapCtx Window.state (window_close D s f).2.2.ctx = mapCtx Window.state f.ctx ∧
      (window_close D s f).2.2.next.map Window.state = f.next.map Window.state := by
  unfold window_close
  split_ifs
  · exact ⟨rfl, rfl⟩
  · exact ⟨rfl, rfl⟩
  · exact ⟨rfl, rfl⟩
  · simp [Server.setFocus]

theorem window_delete_state (s : Server) (hk : hasParent f.ctx = true) :
    (window_delete D s f).2.tree.map Window.state = zip (mapCtx Window.state f.ctx) (f.next.map Window.state) := by
  obtain ⟨hc, hn⟩ := window_close_around D s f
  unfold window_delete
  simp only [hk, Bool.not_true, Bool.false_eq_true, if_false]
  rw [map_zip]
  split_ifs
  · rw [hc, hn]
  · rfl

def beforeDelete (D : Driver) (s : Server) (handle : Nat) (mouse : Point) (win : Window) : Server :=
  if win.is_open then (client_close D s handle mouse).2 else s

theorem beforeDelete_lookup {handle : Nat} (mouse : Point)
    (hn : s.ids.Nodup) (hf : s.windowLookup handle = some f) (hh : 2 ≤ handle) :
    ∃ g, (beforeDelete D s handle mouse f.win).windowLookup handle = some g ∧
      g.zip = (beforeDelete D s handle mouse f.win).tree ∧ mapCtx Window.state g.ctx = mapCtx Window.state f.ctx ∧
      (g.win.state = f.win.state ∨ g.win.state = f.win.state.close) ∧
      g.childs.map Window.state = f.childs.map Window.state ∧ g.next.map Window.state = f.next.map Window.state := by
  obtain ⟨hz, hid⟩ := Server.windowLookup_zip hf
  have hst := focus_state hz
  have hids : f.win.state.id = handle := hid
  unfold beforeDelete
  by_cases ho : f.win.is_open = true
  · rw [if_pos ho]
    rcases client_close_cases D s handle mouse hn with ⟨-, hs⟩ | ⟨f', hf', -, -, -, hs⟩
    · rw [hs]
      exact ⟨f, hf, hz, rfl, .inl rfl, rfl, rfl⟩
    · obtain rfl : f = f' := Option.some.inj (hf.symm.trans hf')
      split_ifs at hs
      · have hn' := closed_ids hz hs ▸ hn
        obtain ⟨g, hg, hgz, h1, h2, h3, h4⟩ := lookup_of_state hn' hs
        refine ⟨g, ?_, hgz, h1, .inr h2, h3, h4⟩
        rw [← hg, ← hids]
        rfl
      · have hn' := ids_of_state hs ▸ hn
        obtain ⟨g, hg, hgz, h1, h2, h3, h4⟩ := lookup_of_state hn' (hs.trans hst)
        refine ⟨g, ?_, hgz, h1, .inl h2, h3, h4⟩
        rw [← hg, ← hids]
  · rw [if_neg ho]
    exact ⟨f, hf, hz, rfl, .inl rfl, rfl, rfl⟩

theorem client_delete_eq (s : Server) (handle : Nat) (mouse : Point) (hn : s.ids.Nodup) :
    ((client_delete D s handle mouse).2 = s ∧ ∀ f, s.windowLookup handle = some f → 2 ≤ handle → f.win.cptr = none) ∨
    ∃ f g, s.windowLookup handle = some f ∧ 2 ≤ handle ∧ f.win.cptr ≠ none ∧
      (beforeDelete D s handle mouse f.win).windowLookup handle = some g ∧
      (client_delete D s handle mouse).2 = (window_delete D (beforeDelete D s handle mouse f.win) g).2 := by
  unfold client_delete
  by_cases hh : handle < 2
  · rw [if_pos hh]
    exact .inl ⟨rfl, fun _ _ h2 => by omega⟩
  rw [if_neg hh]
  cases hf : s.windowLookup handle with
  | none => exact .inl ⟨rfl, fun _ h1 => by cases h1⟩
  | some f =>
    dsimp only
    by_cases hc : f.win.cptr.isNone = true
    · rw [if_pos hc]
      refine .inl ⟨rfl, fun g hg _ => ?_⟩
      obtain rfl := Option.some.inj hg
      exact Option.isNone_iff_eq_none.mp hc
    · obtain ⟨g, hg, -⟩ := beforeDelete_lookup D mouse hn hf (by omega)
      rw [if_neg hc]
      refine .inr ⟨f, g, rfl, by omega, fun h => hc (by rw [h]; rfl), hg, ?_⟩
      unfold beforeDelete at hg ⊢
      simp only [hg]

theorem client_delete_state {handle : Nat} (mouse : Point)
    (hn : s.ids.Nodup) (hf : s.windowLookup handle = some f) (hh : 2 ≤ handle)
    (hc : f.win.cptr ≠ none) (hk : hasParent f.ctx = true) : (client_delete D s handle mouse).2.tree.map Window.state =
      zip (mapCtx Window.state f.ctx) (f.next.map Window.state) := by
  rcases client_delete_eq D s handle mouse hn with ⟨-, hnone⟩ | ⟨f', g, hf', -, -, hg, h⟩
  · exact absurd (hnone f hf hh) hc
  · obtain rfl : f = f' := Option.some.inj (hf.symm.trans hf')
    obtain ⟨g', hg', hz, hctx, -, -, hnext⟩ := beforeDelete_lookup D mouse hn hf hh
    obtain rfl : g = g' := Option.some.inj (hg.symm.trans hg')
    have hkk : hasParent g.ctx = hasParent f.ctx := hasParent_map hctx
    rw [h, window_delete_state D _ (hkk.trans hk), hctx, hnext]

end WWindowSystem
