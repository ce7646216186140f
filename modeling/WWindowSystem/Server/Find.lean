import WWindowSystem.Server.Root

namespace WWindowSystem

open Forest

theorem findBelow_none (x y : Int) (found : Option Window) (t : Forest Window)
    (h : (x, y) ∉ roof t) : findBelow x y found t = found := by
  induction t generalizing found with
  | nil => rfl
  | node w cs ns _ ihn =>
    rw [roof_node, Set.mem_union, not_or] at h
    rw [findBelow, if_neg, ihn found h.2]
    intro hc
    rw [Bool.and_eq_true, rect_cont_point_iff] at hc
    rw [if_pos hc.1] at h
    exact h.1 hc.2

theorem findBelow_zip (x y : Int) (k : Context Window) (t : Forest Window)
    (hs : ∀ w ∈ around k, w.Sound) (h : (x, y) ∈ room k) :
    findBelow x y none (zip k t) = findBelow x y (ancestors k).head? t := by
  induction k generalizing t with
  | nil => rfl
  | cons c k ih =>
    have hsk : ∀ w ∈ around k, w.Sound := by
      intro w hw
      cases c <;> exact hs w (List.mem_cons_of_mem _ (List.mem_append_right _ hw))
    cases c with
    | prev s scs =>
      rw [room_prev, behind] at h
      have hk : (x, y) ∈ room k := by
        split_ifs at h
        · exact h.1
        · exact h
      rw [zip, ih _ hsk hk, findBelow, if_neg]
      · rfl
      · intro hc
        rw [Bool.and_eq_true, rect_cont_point_iff] at hc
        rw [if_pos hc.1] at h
        exact h.2 hc.2
    | parent p ns =>
      rw [room_parent, inside] at h
      split_ifs at h with ho
      · have hp : (x, y) ∈ p.pos.pts := (hs p List.mem_cons_self).work_sub h.2
        rw [zip, ih _ hsk h.1, findBelow, if_pos, if_neg]
        · rfl
        · simpa [rect_cont_point_iff] using h.2
        · rw [Bool.and_eq_true, rect_cont_point_iff]
          exact ⟨ho, hp⟩
      · exact absurd h (Set.notMem_empty _)

def Shows (f : Focus) (p : Point) : Prop :=
  f.win.is_open = true ∧ (∀ a ∈ ancestors f.ctx, a.is_open = true) ∧
    p ∈ region (room f.ctx) f.win (roof f.childs)

variable {k : Context Window}

theorem open_of_room {p : Point} (h : p ∈ room k) : ∀ a ∈ ancestors k, a.is_open = true := by
  intro a ha
  by_contra hc
  rw [room_closed k ⟨a, ha, by simpa using hc⟩] at h
  exact h

theorem findBelow_shows (x y : Int) (f : Focus) (hs : Sound f.zip) (h : Shows f (x, y)) :
    findBelow x y none f.zip = some f.win := by
  obtain ⟨ho, -, ⟨hr, hp⟩, hn⟩ := h
  rw [Focus.zip, findBelow_zip x y f.ctx _ (sound_zip.mp hs).2 hr, findBelow, if_pos]
  · split_ifs with hw
    · rfl
    · have hw : (x, y) ∈ f.win.work.pts := by simpa [rect_cont_point_iff] using hw
      exact findBelow_none x y _ f.childs fun hc => hn ⟨hc, hw⟩
  · rw [Bool.and_eq_true, rect_cont_point_iff]
    exact ⟨ho, hp⟩

theorem findBelow_exists (x y : Int) (k : Context Window) (t : Forest Window)
    (hr : (x, y) ∈ room k) (ht : (x, y) ∈ roof t) : ∃ f : Focus, f.zip = zip k t ∧ Shows f (x, y) := by
  induction t generalizing k with
  | nil => simp [roof_nil] at ht
  | node w cs ns ihc ihn =>
    by_cases hw : w.is_open = true ∧ (x, y) ∈ w.pos.pts
    · by_cases hc : (x, y) ∈ roof cs ∩ w.work.pts
      · have hrc : (x, y) ∈ room (.parent w ns :: k) := by
          rw [room_parent, inside, if_pos hw.1]
          exact ⟨hr, hc.2⟩
        exact ihc (.parent w ns :: k) hrc hc.1
      · exact ⟨⟨k, w, cs, ns⟩, rfl, hw.1, open_of_room hr, ⟨hr, hw.2⟩, hc⟩
    · have hrn : (x, y) ∈ room (.prev w cs :: k) := by
        rw [room_prev, behind]
        split_ifs with ho
        · exact ⟨hr, fun hp => hw ⟨ho, hp⟩⟩
        · exact hr
      refine ihn (.prev w cs :: k) hrn ?_
      rw [roof_node] at ht
      rcases ht with ht | ht
      · split_ifs at ht with ho
        · exact absurd ⟨ho, ht⟩ hw
        · exact absurd ht (Set.notMem_empty _)
      · exact ht

variable (s : Server)

theorem window_find_uncached (x y : Int) :
    (window_find s x y false).1 = (findBelow x y none s.tree).map Window.id := rfl

theorem window_find_shows {s : Server} (hv : Visible s.tree) {f : Focus} (hf : f.zip = s.tree)
    {x y : Int} (h : Shows f (x, y)) : (window_find s x y false).1 = some f.win.id := by
  rw [window_find_uncached, ← hf, findBelow_shows x y f (hf ▸ hv.sound) h]
  rfl

theorem window_find_cached {s : Server} (hv : Visible s.tree) (x y : Int) :
    (window_find s x y true).1 = (window_find s x y false).1 := by
  unfold window_find
  simp only [if_true]
  split
  next r hr =>
    simp only [findCached, Option.bind_eq_bind, Option.bind_eq_some_iff] at hr
    obtain ⟨id, -, f, hf, hr⟩ := hr
    obtain ⟨hz, rfl⟩ := Server.windowLookup_zip hf
    split_ifs at hr with ho
    rw [Option.bind_eq_some_iff] at hr
    obtain ⟨l, hl, hr⟩ := hr
    obtain rfl := Option.some.inj hr
    obtain ⟨r, hrl, -⟩ := Option.map_eq_some_iff.mp hl
    have hmem := List.mem_of_find?_eq_some hrl
    have hpt : (x, y) ∈ r.pts := rect_cont_point_iff.mp (by simpa using List.find?_some hrl)
    have ho : f.win.is_open = true := by simpa using ho
    have hv' : Visible (zip f.ctx (.node f.win f.childs f.next)) := by
      rw [← hz] at hv
      exact hv
    obtain ⟨-, -, ⟨he, -, -⟩, -⟩ := hv'.pieces
    have hreg := ((he.tiles ho).covers (x, y)).mpr ⟨r, hmem, hpt⟩
    have hfind := window_find_shows hv hz ⟨ho, open_of_room hreg.1.1, hreg⟩
    rw [window_find_uncached] at hfind
    simp [hfind]
  next => simp

def CacheLive (s : Server) : Prop := ∀ id, s.window_find_cache = some id → id ∈ s.ids

theorem CacheLive.congr {s s' : Server} (h : CacheLive s)
    (hc : s'.window_find_cache = s.window_find_cache) (hi : s'.ids = s.ids) : CacheLive s' := by
  intro id hid
  rw [hi]
  exact h id (hc ▸ hid)

theorem findBelow_mem (x y : Int) (found : Option Window) (t : Forest Window) {w : Window}
    (h : findBelow x y found t = some w) : w ∈ t.toList ∨ found = some w := by
  induction t generalizing found with
  | nil => exact .inr h
  | node v cs ns ihc ihn =>
    rw [findBelow] at h
    simp only [toList, List.mem_cons, List.mem_append]
    split_ifs at h
    · exact .inl (.inl (Option.some.inj h).symm)
    · rcases ihc _ h with hm | hm
      · exact .inl (.inr (.inl hm))
      · exact .inl (.inl (Option.some.inj hm).symm)
    · rcases ihn _ h with hm | hm
      · exact .inl (.inr (.inr hm))
      · exact .inr hm

theorem window_find_live (x y : Int) (usecache : Bool) (h : CacheLive s) :
    CacheLive (window_find s x y usecache).2 := by
  have hi : (window_find s x y usecache).2.ids = s.ids :=
    ids_congr ((window_find_reordered s x y usecache).map fun _ _ => rfl)
  intro id hid
  rw [hi]
  unfold window_find at hid
  split at hid
  next r hr =>
    cases usecache with
    | false => simp at hr
    | true =>
      simp only [if_true, findCached, Option.bind_eq_bind, Option.bind_eq_some_iff] at hr
      obtain ⟨id', -, f, -, hr⟩ := hr
      split_ifs at hr
      rw [Option.bind_eq_some_iff] at hr
      obtain ⟨l, -, hr⟩ := hr
      obtain rfl := Option.some.inj hr
      exact h id hid
  next =>
    cases usecache with
    | false => exact h id hid
    | true =>
      simp only [if_true, Option.map_eq_some_iff] at hid
      obtain ⟨w, hw, rfl⟩ := hid
      rcases findBelow_mem x y none s.tree hw with hm | hm
      · exact List.mem_map_of_mem hm
      · cases hm

theorem foldl_cache {f : Server → Window → Server}
    (hf : ∀ s w, (f s w).window_find_cache = s.window_find_cache) (l : List Window) (s : Server) :
    (l.foldl f s).window_find_cache = s.window_find_cache := by
  induction l generalizing s with
  | nil => rfl
  | cons w l ih => rw [List.foldl_cons, ih, hf]

theorem client_do_open_cache (w : Window) :
    (client_do_open s w).window_find_cache = s.window_find_cache := by
  unfold client_do_open Server.updateClient
  dsimp only
  split <;> split <;> rfl

theorem client_do_close_cache (w : Window) :
    (client_do_close s w).window_find_cache = s.window_find_cache := by
  unfold client_do_close Server.updateClient
  dsimp only
  split <;> split <;> split <;> split <;> rfl

variable (D : Driver)

theorem window_open_cache (s : Server) (f : Focus) (x y : Int) :
    (window_open D s f x y).2.1.window_find_cache = s.window_find_cache := by
  unfold window_open
  split_ifs
  · rfl
  · rfl
  · exact foldl_cache client_do_open_cache _ s

theorem window_close_cache (s : Server) (f : Focus) :
    (window_close D s f).2.1.window_find_cache = s.window_find_cache := by
  unfold window_close
  split_ifs
  · rfl
  · rfl
  · rfl
  · exact foldl_cache client_do_close_cache _ s

theorem window_move_cache (s : Server) (f : Focus) (x y : Int) :
    (window_move D s f x y).2.1.window_find_cache = s.window_find_cache := by
  unfold window_move
  split_ifs <;> rfl

theorem window_to_top_cache (s : Server) (f : Focus) :
    (window_to_top D s f).2.1.window_find_cache = s.window_find_cache := by
  unfold window_to_top
  split_ifs
  · rfl
  all_goals split <;> rfl

theorem window_to_bottom_cache (s : Server) (f : Focus) :
    (window_to_bottom D s f).2.1.window_find_cache = s.window_find_cache := by
  unfold window_to_bottom
  split
  · rfl
  · split_ifs <;> rfl

theorem window_delete_one_cache (w : Window) {id : Nat} :
    (window_delete_one s w).window_find_cache = some id ↔ s.window_find_cache = some id ∧ id ≠ w.id := by
  have h : (window_delete_one s w).window_find_cache =
      if s.window_find_cache = some w.id then none else s.window_find_cache := by
    unfold window_delete_one client_do_delete Server.updateClient
    dsimp only
    split_ifs <;> split <;> simp_all
  rw [h]
  split_ifs with hc
  · simp [hc, eq_comm]
  · constructor
    · rintro hs
      refine ⟨hs, ?_⟩
      rintro rfl
      exact hc hs
    · exact fun hs => hs.1

theorem deleted_cache (l : List Window) (s : Server) {id : Nat}
    (h : (l.foldl window_delete_one s).window_find_cache = some id) :
    s.window_find_cache = some id ∧ id ∉ l.map Window.id := by
  induction l generalizing s with
  | nil => exact ⟨h, by simp⟩
  | cons w l ih =>
    obtain ⟨hs, hn⟩ := ih _ h
    obtain ⟨hs, hne⟩ := (window_delete_one_cache s w).mp hs
    exact ⟨hs, by simpa using ⟨hne, by simpa using hn⟩⟩

theorem postorder_perm (t : Forest Window) : (postorder t).Perm t.toList := by
  induction t with
  | nil => rfl
  | node w cs ns ihc ihn =>
    exact List.perm_middle.trans ((ihc.append ihn).cons w)

theorem cutOff_live {s s' : Server} {w : Window} {cs ns : Forest Window}
    (h : CacheLive s) (hs : s.tree = zip k (.node w cs ns)) (ht : s'.tree = zip k ns) (hc : s'.window_find_cache =
      ((postorder (.node w cs .nil)).foldl window_delete_one s).window_find_cache) : CacheLive s' := by
  intro id hid
  rw [hc] at hid
  obtain ⟨hid, hn⟩ := deleted_cache _ s hid
  have hm := h id hid
  rw [((postorder_perm _).map Window.id).mem_iff] at hn
  rw [Server.ids, hs, ((toList_zip _ _).map Window.id).mem_iff] at hm
  rw [Server.ids, ht, ((toList_zip _ _).map Window.id).mem_iff]
  simp only [toList, List.map_append, List.map_cons, List.mem_append, List.mem_cons,
    List.append_nil] at hm hn ⊢
  tauto

theorem window_delete_live (s : Server) (f : Focus) (hf : f.zip = s.tree)
    (h : CacheLive s) : CacheLive (window_delete D s f).2 := by
  unfold window_delete
  split_ifs
  · exact h
  · have hc : CacheLive (window_close D s f).2.1 :=
      h.congr (window_close_cache D s f) (ids_congr (window_close_static D s f hf))
    exact cutOff_live hc (window_close_zip D s f hf).symm rfl rfl
  · exact cutOff_live h hf.symm rfl rfl

theorem drawActive_cache (dashed : Bool) (s : Server) (f : Focus) :
    (drawActive D dashed s f).window_find_cache = s.window_find_cache := by
  unfold drawActive
  dsimp only
  split_ifs <;> rfl

theorem drawHandle_cache (dashed : Bool) (s : Server) (handle : Nat) :
    (drawHandle D dashed s handle).window_find_cache = s.window_find_cache := by
  unfold drawHandle
  split
  · exact drawActive_cache D dashed s _
  · rfl

theorem w_changeActiveWindow_live (s : Server) (mx my : Int) (h : CacheLive s) :
    CacheLive (w_changeActiveWindow D s mx my) := by
  have hf := window_find_live s mx my true h
  have hids : (window_find s mx my true).2.ids = (w_changeActiveWindow D s mx my).ids := by
    rw [ids_congr (w_changeActiveWindow_redrawn D s mx my).static]
    exact ids_congr ((window_find_reordered s mx my true).map fun _ _ => rfl)
  refine hf.congr ?_ hids.symm
  unfold w_changeActiveWindow
  dsimp only
  split
  · rfl
  · split_ifs
    · rfl
    · rw [drawHandle_cache, drawHandle_cache]

theorem client_close_live (s : Server) (handle : Nat) (mouse : Point)
    (h : CacheLive s) : CacheLive (client_close D s handle mouse).2 := by
  unfold client_close
  split_ifs
  · exact h
  · split
    · exact h
    next f hf =>
      split_ifs
      · exact h
      · refine w_changeActiveWindow_live D _ _ _ (h.congr (window_close_cache D s f) ?_)
        exact ids_congr (window_close_static D s f (Server.windowLookup_zip hf).1)

theorem resizeWindow_live (s : Server) (handle : Nat) (width height : Int)
    (h : CacheLive s) : CacheLive (resizeWindow D s handle width height) := by
  refine h.congr ?_ (ids_congr (resizeWindow_static D s handle width height))
  unfold resizeWindow
  split <;> rfl

theorem client_open_live (s : Server) (handle : Nat) (x0 y0 : Int)
    (placed : Option Point) (mouse : Point) (h : CacheLive s) :
    CacheLive (client_open D s handle x0 y0 placed mouse).2 := by
  unfold client_open
  split
  · exact h
  next f hf =>
    by_cases ho : f.win.is_open = true
    · rw [if_pos ho]
      exact h
    · rw [if_neg ho]
      dsimp only
      generalize hw : (if f.win.flags.has W_CONTAINER = true then f.win else _) = win
      have hid : win.static = f.win.static := by
        rw [← hw]
        split_ifs <;> rfl
      have h1 : CacheLive (s.setFocus { f with win }).1 := by
        refine h.congr rfl (ids_congr ?_)
        rw [← (Server.windowLookup_zip hf).1]
        simp only [Server.setFocus, Focus.zip, map_zip, Forest.map, hid]
      split
      · exact h1
      next p hp =>
        obtain ⟨left, right, hu⟩ := get_rectangle_frame (x0 = UNDEF ∨ y0 = UNDEF)
          (s.setFocus { f with win }).1
        generalize (if x0 = UNDEF ∨ y0 = UNDEF then get_rectangle_done _ else _) = u at hu ⊢
        have hz : (s.setFocus { f with win }).2.zip = u.tree := by
          rw [hu]
          rfl
        have h1 : CacheLive u := by
          rw [hu]
          exact h1
        have h2 : CacheLive (window_open D u (s.setFocus { f with win }).2 p.1 p.2).2.1 :=
          h1.congr (window_open_cache D _ _ _ _)
            (ids_congr (window_open_static D _ _ _ _ hz))
        split_ifs
        · exact h2
        · refine w_changeActiveWindow_live D _ _ _ (h2.congr (drawActive_cache D true _ _) ?_)
          exact ids_congr (drawActive_static D true _ _ (window_open_zip D _ _ _ _ hz))

theorem client_resize_live (s : Server) (handle : Nat) (width height : Int)
    (placed : Option Point) (mouse : Point) (h : CacheLive s) :
    CacheLive (client_resize D s handle width height placed mouse).2 := by
  unfold client_resize
  split
  · exact h
  next f hf =>
    split
    · exact h
    · dsimp only
      have hr := resizeWindow_live D _ handle width height (client_close_live D s f.win.id mouse h)
      split_ifs
      · exact client_open_live D _ handle _ _ placed mouse hr
      · exact hr

end WWindowSystem
