import WWindowSystem.Server.ClientStates

namespace WWindowSystem

open Forest

inductive Act (D : Driver) (s : Server) : Server → Prop
  | draw (f : Focus) (win : Window) (hf : f.zip = s.tree) (hw : win.fixed = f.win.fixed) :
      Act D s (s.setFocus { f with win }).1
  | active (dashed : Bool) (f : Focus) (hf : f.zip = s.tree) : Act D s (drawActive D dashed s f)
  | place : Act D s (get_rectangle_done s)
  | pointer (mx my : Int) : Act D s (w_changeActiveWindow D s mx my)
  | open (f : Focus) (x y : Int) (hf : f.zip = s.tree) (ho : f.win.is_open = false) :
      Act D s (window_open D s f x y).2.1
  | close (f : Focus) (hf : f.zip = s.tree) (ho : f.win.is_open = true) (hh : 2 ≤ f.win.id) :
      Act D s (window_close D s f).2.1
  | move (f : Focus) (x y : Int) (hf : f.zip = s.tree) : Act D s (window_move D s f x y).2.1
  | to_top (f : Focus) (hf : f.zip = s.tree) : Act D s (window_to_top D s f).2.1
  | to_bottom (f : Focus) (hf : f.zip = s.tree) : Act D s (window_to_bottom D s f).2.1
  | resize (handle : Nat) (width height : Int) : Act D s (resizeWindow D s handle width height)
  | delete (f : Focus) (hf : f.zip = s.tree) (hh : 2 ≤ f.win.id) : Act D s (window_delete D s f).2
  | create (cptr : Client) (wwidth wheight : Int) (flags : Flags) (parent : Focus) (h : Int)
      (s' : Server) (hp : parent.zip = s.tree) (hm : cptr ∈ s.clients)
      (hc : createWindow D s cptr wwidth wheight flags parent = some (h, s')) : Act D s s'

abbrev Acts (D : Driver) : Server → Server → Prop := Relation.ReflTransGen (Act D)

theorem Act.acts {D : Driver} {s t : Server} (h : Act D s t) : Acts D s t := .single h

variable (D : Driver)

theorem client_close_acts (s : Server) (handle : Nat) (mouse : Point) :
    Acts D s (client_close D s handle mouse).2 := by
  unfold client_close
  split_ifs with hh
  · exact .refl
  · split
    · exact .refl
    next f hf =>
      obtain ⟨hz, hid⟩ := Server.windowLookup_zip hf
      split_ifs with ho
      · exact .refl
      · have hc := Act.close (D := D) f hz (by simpa using ho) (by omega)
        exact hc.acts.tail (Act.pointer mouse.1 mouse.2)

theorem client_open_acts (s : Server) (handle : Nat) (x0 y0 : Int)
    (placed : Option Point) (mouse : Point) : Acts D s (client_open D s handle x0 y0 placed mouse).2 := by
  unfold client_open
  split
  · exact .refl
  next f hf =>
    by_cases ho : f.win.is_open = true
    · rw [if_pos ho]
    rw [if_neg ho]
    dsimp only
    generalize hg : (if f.win.flags.has W_CONTAINER then f.win else _) = win
    have hwin : win.fixed = f.win.fixed := by
      rw [← hg]
      split_ifs <;> rfl
    have hdraw := Act.draw (D := D) f win (Server.windowLookup_zip hf).1 hwin
    split
    · exact hdraw.acts
    next p _ =>
      set t := (s.setFocus { f with win }).1
      have hu : Acts D t (if x0 = UNDEF ∨ y0 = UNDEF then get_rectangle_done t else t) := by
        split_ifs
        · exact Act.place.acts
        · exact .refl
      have hz := get_rectangle_tree (x0 = UNDEF ∨ y0 = UNDEF) t
      generalize (if x0 = UNDEF ∨ y0 = UNDEF then get_rectangle_done t else t) = u at hu hz ⊢
      have ho' : win.is_open = false := by
        have := congrArg (fun q => q.1.1.1) hwin
        exact this.trans (Bool.not_eq_true _ ▸ ho)
      have hzip : (s.setFocus { f with win }).2.zip = u.tree := hz.symm
      have hopen := Act.open (D := D) (s.setFocus { f with win }).2 p.1 p.2 hzip ho'
      have hall : Acts D s (window_open D u (s.setFocus { f with win }).2 p.1 p.2).2.1 :=
        (hdraw.acts.trans hu).tail hopen
      split_ifs
      · exact hall
      · apply Relation.ReflTransGen.tail _ (Act.pointer mouse.1 mouse.2)
        exact hall.tail (Act.active true _ (window_open_zip D u _ p.1 p.2 hzip))

theorem client_move_acts (s : Server) (relative : Bool) (handle : Nat) (x0 y0 : Int)
    (mouse : Point) : Acts D s (client_move D s relative handle x0 y0 mouse).2 := by
  unfold client_move
  split
  · exact .refl
  next f hf =>
    have hm : ∀ x y : Int, Acts D s (w_changeActiveWindow D (window_move D s f x y).2.1 mouse.1 mouse.2) :=
      fun x y => (Act.move f x y (Server.windowLookup_zip hf).1).acts.tail (Act.pointer mouse.1 mouse.2)
    split_ifs
    · exact .refl
    · exact .refl
    all_goals
      split
      · exact .refl
      · exact hm _ _

theorem w_topDown_acts (s : Server) (handle : Nat) : Acts D s (w_topDown D s handle) := by
  unfold w_topDown
  split
  · exact .refl
  next f hf =>
    obtain ⟨hz, -⟩ := Server.windowLookup_zip hf
    split
    · exact (Act.to_top f hz).acts
    · exact (Act.to_bottom f hz).acts

theorem client_resize_acts (s : Server) (handle : Nat) (width height : Int)
    (placed : Option Point) (mouse : Point) : Acts D s (client_resize D s handle width height placed mouse).2 := by
  unfold client_resize
  split
  · exact .refl
  next f _ =>
    split
    · exact .refl
    · dsimp only
      have hr : Acts D s (resizeWindow D (client_close D s f.win.id mouse).2 handle width height) :=
        (client_close_acts D s f.win.id mouse).tail (Act.resize handle width height)
      split_ifs
      · exact hr.trans (client_open_acts D _ handle _ _ placed mouse)
      · exact hr

theorem client_delete_acts (s : Server) (handle : Nat) (mouse : Point) :
    Acts D s (client_delete D s handle mouse).2 := by
  unfold client_delete
  split_ifs with hh
  · exact .refl
  · split
    · exact .refl
    next f hf =>
      dsimp only
      have hc : Acts D s (if f.win.is_open then (client_close D s handle mouse).2 else s) := by
        split_ifs
        · exact client_close_acts D s handle mouse
        · exact .refl
      generalize (if f.win.is_open then (client_close D s handle mouse).2 else s) = t at hc
      split_ifs
      · exact .refl
      · split
        · exact hc
        next g hg =>
          obtain ⟨hz, hid⟩ := Server.windowLookup_zip hg
          exact hc.tail (Act.delete g hz (by omega))

theorem killWindows_acts (mouse : Point) (cid : Nat) (l : List Nat) (s : Server) :
    Acts D s (l.foldl (killClientWindow D mouse cid) s) := by
  induction l generalizing s with
  | nil => exact .refl
  | cons id l ih =>
    refine Relation.ReflTransGen.trans ?_ (ih _)
    unfold killClientWindow
    split
    · exact .refl
    · split_ifs
      · exact client_delete_acts D s id mouse
      · exact .refl

theorem windowKillClient_acts (mouse : Point) (s : Server) (cid : Nat) :
    Acts D s (windowKillClient D mouse s cid) := by
  unfold windowKillClient
  split
  · exact .refl
  · exact killWindows_acts D mouse cid _ s

theorem createBelow_acts (s : Server) {cptr : Client} (hm : cptr ∈ s.clients)
    (wwidth wheight : Int) (flags : Flags) (parent : Nat) :
    Acts D s (createBelow D s cptr wwidth wheight flags parent).2 := by
  unfold createBelow
  split
  · exact .refl
  next f hf =>
    cases hc : createWindow D s cptr wwidth wheight flags f with
    | none => exact .refl
    | some r =>
      exact (Act.create cptr wwidth wheight flags f r.1 r.2 (Server.windowLookup_zip hf).1 hm hc).acts

theorem serve_cases (s : Server) (r : Request × Point) : Acts D s (serve D s r) ∨
    (∃ cid raddr uid, r.1 = .connect cid raddr uid ∧ serve D s r = createClient s cid raddr uid) ∨
    ∃ cid, r.1 = .disconnect cid ∧ serve D s r = { windowKillClient D r.2 s cid with
      clients := (windowKillClient D r.2 s cid).clients.filter fun c => c.id ≠ cid } := by
  obtain ⟨r, mouse⟩ := r
  have hby : ∀ (cid : Nat) (op : Client → Int × Server),
      (∀ cptr ∈ s.clients, Acts D s (op cptr).2) → Acts D s (byClient s cid op).2 := by
    intro cid op hop
    unfold byClient
    split
    · exact .refl
    next cptr hcptr => exact hop cptr (List.mem_of_find?_eq_some hcptr)
  cases r with
  | connect cid raddr uid => exact .inr (.inl ⟨cid, raddr, uid, rfl, rfl⟩)
  | disconnect cid => exact .inr (.inr ⟨cid, rfl, rfl⟩)
  | create cid width height flags =>
    exact .inl (hby cid _ fun _ hm => createBelow_acts D s hm _ _ _ _)
  | create2 cid width height flags handle =>
    left
    apply hby cid
    intro cptr hm
    unfold client_create2
    split_ifs
    · exact .refl
    · exact createBelow_acts D s hm width height flags handle
  | «open» handle x0 y0 placed => exact .inl (client_open_acts D s handle x0 y0 placed mouse)
  | close handle => exact .inl (client_close_acts D s handle mouse)
  | move relative handle x0 y0 => exact .inl (client_move_acts D s relative handle x0 y0 mouse)
  | topDown handle => exact .inl (w_topDown_acts D s handle)
  | resize handle width height placed =>
    exact .inl (client_resize_acts D s handle width height placed mouse)
  | delete handle => exact .inl (client_delete_acts D s handle mouse)

theorem Acts.keep {D : Driver} {inv : Server → Prop} (hstep : ∀ s t, inv s → Act D s t → inv t)
    {s t : Server} (h : Acts D s t) (hs : inv s) : inv t := by
  induction h with
  | refl => exact hs
  | tail _ ha ih => exact hstep _ _ ih ha

end WWindowSystem
