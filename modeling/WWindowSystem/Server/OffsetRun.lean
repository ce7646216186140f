import WWindowSystem.Library.Run
import WWindowSystem.Server.Offsets

namespace WWindowSystem

open Forest Option

def Focus.away (f : Focus) (p : Point) : Nat × Point :=
  (f.win.id, (p.1 - f.win.pos.x0, p.2 - f.win.pos.y0))

def Request.displacement (s : Server) : Request → Option (Nat × Point)
  | .open handle x0 y0 placed => (s.windowLookup handle).bind fun f =>
    if f.win.is_open then none else (openTarget f x0 y0 placed).map f.away
  | .move relative handle x0 y0 => (s.windowLookup handle).bind fun f =>
    if f.win.is_open && f.win.flags.has W_MOVE then (moveTarget f relative x0 y0).map f.away else none
  | .resize handle _ _ placed => (s.windowLookup handle).bind fun f =>
    if decide (2 ≤ handle) && really_open f.ctx f.win then (resizeTarget f placed).map f.away
    else none
  | _ => none

def Request.resized : Request → Option Nat
  | .resize handle _ _ _ => some handle
  | _ => none

/-- A call on another window that does not displace a window above the closed parent of `w`; and if
it resizes the background, and that is the parent of `w`, the background has its frame already. -/
structure OffsetSafe (D : Driver) (w : Nat) (s : Server) (r : Request × Point) : Prop where
  elsewhere : r.1.Elsewhere w
  strands : ∀ q ∈ r.1.displacement s, ¬ Vanishes q.2 → ¬ Strands w q.1 (s.tree.map Window.state)
  framed : ∀ h ∈ r.1.resized, ∀ e ∈ paths [] (s.tree.map Window.state), e.1.id = w →
    ∀ p ∈ e.2.head?, p.id = h → p.cptr = none → p.Framed D

variable {s : Server}

theorem placed_put {f : Focus} {w : Nat} {c d : Point} {q : WindowState}
    (hf : f.zip = s.tree) (hw : f.win.id ≠ w)
    (hwork : ∀ e ∈ paths [] (s.tree.map Window.state), e.1.id = w → e.2.head? = some f.win.state →
      Vanishes (q.work.x0 - f.win.work.x0 - d.1, q.work.y0 - f.win.work.y0 - d.2))
    (hd : ¬ Vanishes d → ¬ Strands w f.win.id (s.tree.map Window.state))
    (h : Placed w c (s.tree.map Window.state)) : Placed w c (f.put q d) := by
  rw [focus_state hf] at hwork hd h
  exact placed_displaced hw hwork hd h

theorem vanishes_zero : Vanishes (0, 0) := ⟨Int.dvd_zero _, Int.dvd_zero _⟩

theorem vanishes_shift (w : Rec) (dx dy : Int) :
    Vanishes ((w.shift dx dy).x0 - w.x0 - dx, (w.shift dx dy).y0 - w.y0 - dy) := by
  have hx : (w.shift dx dy).x0 - w.x0 - dx = 0 := by
    simp only [Rec.shift]
    omega
  have hy : (w.shift dx dy).y0 - w.y0 - dy = 0 := by
    simp only [Rec.shift]
    omega
  rw [hx, hy]
  exact vanishes_zero

variable {w handle : Nat} {c : Point} (D : Driver)

theorem client_close_placed
    (hn : s.ids.Nodup) (hw : handle ≠ w) (mouse : Point) (h : Placed w c (s.tree.map Window.state)) :
    Placed w c ((client_close D s handle mouse).2.tree.map Window.state) := by
  rcases client_close_cases D s handle mouse hn with ⟨-, hs⟩ | ⟨f, hf, -, -, -, hs⟩
  · rw [hs]
    exact h
  · obtain ⟨hz, hid⟩ := Server.windowLookup_zip hf
    rw [hs]
    split_ifs
    · rw [closed_put]
      apply placed_put hz (hid ▸ hw) _ (fun hv => absurd vanishes_zero hv) h
      intro _ _ _ _
      have hx : f.win.state.close.work.x0 - f.win.work.x0 - 0 = 0 :=
        Int.sub_eq_zero.mpr (Int.sub_self _)
      have hy : f.win.state.close.work.y0 - f.win.work.y0 - 0 = 0 :=
        Int.sub_eq_zero.mpr (Int.sub_self _)
      exact ⟨⟨0, hx⟩, ⟨0, hy⟩⟩
    · exact h

theorem client_open_placed (x0 y0 : Int)
    (placed : Option Point) (mouse : Point) (hs : OffsetSafe D w s (.open handle x0 y0 placed, mouse))
    (h : Placed w c (s.tree.map Window.state)) :
    Placed w c ((client_open D s handle x0 y0 placed mouse).2.tree.map Window.state) := by
  rcases client_open_cases D s handle x0 y0 placed mouse with ⟨ht, -⟩ | ⟨f, p, hf, ho, -, htarget, ht⟩
  · rw [ht]
    exact h
  · obtain ⟨hz, hid⟩ := Server.windowLookup_zip hf
    rw [ht, openedAt_put]
    apply placed_put hz (hid ▸ hs.elsewhere) (fun _ _ _ _ => vanishes_shift f.win.work _ _) _ h
    apply hs.strands (f.away p)
    simp only [Request.displacement, hf, bind_some, ho, Bool.false_eq_true, if_false, htarget]
    rfl

theorem client_move_placed (relative : Bool)
    (x0 y0 : Int) (mouse : Point) (hs : OffsetSafe D w s (.move relative handle x0 y0, mouse))
    (h : Placed w c (s.tree.map Window.state)) :
    Placed w c ((client_move D s relative handle x0 y0 mouse).2.tree.map Window.state) := by
  rcases client_move_cases D s relative handle x0 y0 mouse with ht | ⟨f, p, hf, ho, hm, htarget, ht⟩
  · rw [ht]
    exact h
  · obtain ⟨hz, hid⟩ := Server.windowLookup_zip hf
    have hmove : f.win.state.move (p.1 - f.win.pos.x0) (p.2 - f.win.pos.y0) =
        { f.win.state with
          pos := f.win.pos.shift (p.1 - f.win.pos.x0) (p.2 - f.win.pos.y0)
          work := f.win.work.shift (p.1 - f.win.pos.x0) (p.2 - f.win.pos.y0) } := if_pos ho
    rw [ht, movedTo_put, hmove]
    apply placed_put hz (hid ▸ hs.elsewhere) (fun _ _ _ _ => vanishes_shift f.win.work _ _) _ h
    apply hs.strands (f.away p)
    simp only [Request.displacement, hf, bind_some, ho, hm, Bool.and_self, if_true, htarget]
    rfl

theorem client_resize_placed
    (hn : s.ids.Nodup) (hframed : s.Framed D) (width height : Int) (placed : Option Point)
    (mouse : Point) (hs : OffsetSafe D w s (.resize handle width height placed, mouse))
    (h : Placed w c (s.tree.map Window.state)) :
    Placed w c ((client_resize D s handle width height placed mouse).2.tree.map Window.state) := by
  rcases client_resize_cases D s handle width height placed mouse hn with
    ht | ⟨f, hf, hcases⟩
  · rw [ht]
    exact h
  obtain ⟨hz, hid⟩ := Server.windowLookup_zip hf
  -- the work area keeps its corner if the window is the parent of `w`
  have hcorner : ∀ e ∈ paths [] (s.tree.map Window.state), e.1.id = w →
      e.2.head? = some f.win.state → (f.win.state.resize D width height).work.x0 = f.win.work.x0 ∧
        (f.win.state.resize D width height).work.y0 = f.win.work.y0 := by
    intro e he hew hp
    have hfr : f.win.state.Framed D := by
      cases hc : f.win.state.cptr with
      | none => exact hs.framed handle rfl e he hew f.win.state hp hid hc
      | some _ =>
        apply hframed _ (focus_mem hz)
        rw [hc]
        exact some_ne_none _
    exact ⟨hfr.1.symm, hfr.2.symm⟩
  rcases hcases with ⟨b, ht, -⟩ | ⟨hh, hr, p, htarget, ht⟩
  · rw [ht]
    apply placed_put hz (hid ▸ hs.elsewhere) _ (fun hv => absurd vanishes_zero hv) h
    intro e he hew hp
    obtain ⟨hx, hy⟩ := hcorner e he hew hp
    change Vanishes ((f.win.state.resize D width height).work.x0 - f.win.work.x0 - 0,
      (f.win.state.resize D width height).work.y0 - f.win.work.y0 - 0)
    rw [hx, hy]
    constructor <;> simp
  · rw [ht]
    apply placed_put hz (hid ▸ hs.elsewhere) _ _ h
    · intro e he hew hp
      obtain ⟨hx, hy⟩ := hcorner e he hew hp
      have hv := vanishes_shift (f.win.state.resize D width height).work (p.1 - f.win.pos.x0)
        (p.2 - f.win.pos.y0)
      rw [hx, hy] at hv
      exact hv
    · apply hs.strands (f.away p)
      simp only [Request.displacement, hf, bind_some, hh, hr, decide_true, Bool.and_self, if_true,
        htarget]
      rfl

theorem serve_placed {w : Nat} (r : Request × Point)
    (hn : s.ids.Nodup) (hframed : s.Framed D) (hs : OffsetSafe D w s r)
    (h : Placed w c (s.tree.map Window.state)) : Placed w c ((serve D s r).tree.map Window.state) := by
  obtain ⟨r, mouse⟩ := r
  cases r with
  | «open» handle x0 y0 placed => exact client_open_placed D x0 y0 placed mouse hs h
  | close handle => exact client_close_placed D hn hs.elsewhere mouse h
  | move relative handle x0 y0 => exact client_move_placed D relative x0 y0 mouse hs h
  | topDown handle =>
    obtain ⟨e, he, hrest⟩ := h
    exact ⟨e, (w_topDown_paths D s handle).mem_iff.mpr he, hrest⟩
  | resize handle width height placed =>
    exact client_resize_placed D hn hframed width height placed mouse hs h
  | connect | disconnect | create | create2 | delete => exact hs.elsewhere.elim

def Server.offset (s : Server) (w : Nat) : Option Point :=
  (s.windowLookup w).bind fun f =>
    (ancestors f.ctx).head?.map fun parent => f.win.state.from parent.state

theorem placed_of_offset {w : Nat} (ho : s.IsOpen w)
    (hc : s.offset w = some c) : Placed w c (s.tree.map Window.state) := by
  obtain ⟨f, hf, ho⟩ := ho
  obtain ⟨hz, hid⟩ := Server.windowLookup_zip hf
  rw [Server.offset, hf, bind_some, map_eq_some_iff] at hc
  obtain ⟨parent, hp, hc⟩ := hc
  obtain ⟨rest, hrest⟩ : ∃ rest, ancestors f.ctx = parent :: rest := by
    cases ha : ancestors f.ctx with
    | nil =>
      rw [ha] at hp
      cases hp
    | cons a rest =>
      rw [ha] at hp
      cases hp
      exact ⟨rest, rfl⟩
  refine ⟨(f.win.state, (ancestors f.ctx).map Window.state), ?_, hid, ho, parent.state,
    rest.map Window.state, by rw [hrest]; rfl, hc⟩
  rw [← hz, Focus.zip, map_zip, ← ancestors_map]
  exact mem_paths_of_zip rfl

theorem offset_of_placed {w : Nat} (hn : s.ids.Nodup)
    (h : Placed w c (s.tree.map Window.state)) : s.offset w = some c := by
  obtain ⟨e, he, hid, -, p, rest, hp, hc⟩ := h
  obtain ⟨k, cs, ns, hz, hk⟩ := exists_zip_of_mem_paths (k := []) he
  obtain ⟨f, hf, -, hctx, hwin, -, -⟩ := lookup_of_state hn hz.symm
  have ha : (ancestors f.ctx).map Window.state = p :: rest := by
    rw [← ancestors_map, hctx, hk, hp]
  obtain ⟨parent, l, hl, hpar, -⟩ := List.map_eq_cons_iff.mp ha
  rw [hid] at hf
  rw [Server.offset, hf, bind_some, hl, List.head?_cons, map_some, hwin, hpar, hc]

theorem offset_kept (D : Driver) (d : Display) (screen : Pixmap) (colors : Colors)
    (l : List (Request × Point)) {w : Nat} {c : Point} {later : List (Request × Point)}
    (hv : (l.foldl (serve D) (window_init d screen colors)).IsVisible w)
    (hc : (l.foldl (serve D) (window_init d screen colors)).offset w = some c)
    (hl : AllSafe (serve D) (OffsetSafe D w) (l.foldl (serve D) (window_init d screen colors)) later) :
    (later.foldl (serve D) (l.foldl (serve D) (window_init d screen colors))).offset w = some c := by
  have hcount := served_counted D d screen colors l
  have hframed := served_framed D d screen colors l
  have hend := hl.invariant
    (fun s => s.Counted ∧ s.Framed D ∧ Placed w c (s.tree.map Window.state))
    (fun s r h hs => ⟨serve_counted D h.1 r, serve_framed D h.2.1 h.1 r,
      serve_placed D r h.1.nodup h.2.1 hs h.2.2⟩) ⟨hcount, hframed, placed_of_offset hv.isOpen hc⟩
  exact offset_of_placed hend.1.nodup hend.2.2

instance (p : Point) : Decidable (Vanishes p) := inferInstanceAs (Decidable (_ ∧ _))

instance (w u : Nat) (t : Forest WindowState) : Decidable (Strands w u t) :=
  inferInstanceAs (Decidable (∃ e ∈ paths [] t, _))

instance (D : Driver) (q : WindowState) : Decidable (q.Framed D) := inferInstanceAs (Decidable (_ ∧ _))

instance (handle : Nat) (r : Request) : Decidable (r.Elsewhere handle) :=
  match r with
  | .open h _ _ _ | .close h | .move _ h _ _ | .topDown h | .resize h _ _ _ =>
    inferInstanceAs (Decidable (h ≠ handle))
  | .connect .. | .disconnect .. | .create .. | .create2 .. | .delete .. => inferInstanceAs (Decidable False)

instance (D : Driver) (w : Nat) (s : Server) (r : Request × Point) : Decidable (OffsetSafe D w s r) :=
  decidable_of_iff (r.1.Elsewhere w ∧
      (∀ q ∈ r.1.displacement s, ¬ Vanishes q.2 → ¬ Strands w q.1 (s.tree.map Window.state)) ∧
      ∀ h ∈ r.1.resized, ∀ e ∈ paths [] (s.tree.map Window.state), e.1.id = w →
        ∀ p ∈ e.2.head?, p.id = h → p.cptr = none → p.Framed D)
    ⟨fun h => ⟨h.1, h.2.1, h.2.2⟩, fun h => ⟨h.1, h.2, h.3⟩⟩

def threeNested : Server :=
  [(.connect 1 0 0, (0, 0)), (.create 1 9 9 0, (0, 0)), (.create2 1 6 6 0 2, (0, 0)),
    (.create2 1 3 3 0 3, (0, 0)), (.open 2 0 0 none, (0, 0)), (.open 3 1 1 none, (0, 0)),
    (.open 4 2 2 none, (0, 0))].foldl (serve plain) (window_init vga (fun _ => 0) twoColors)

theorem offset_kept_reopened :
    ([(.close 3, (0, 0)), (.open 3 5 5 none, (0, 0)), (.close 2, (0, 0)), (.open 2 7 7 none, (0, 0)),
      (.resize 3 8 8 none, (0, 0))].foldl (serve plain) threeNested).offset 4 = some (2, 2) :=
  offset_kept plain vga (fun _ => 0) twoColors _ (by decide +kernel) (by decide +kernel)
    (by decide +kernel)

/-- Window 3 is closed when window 2 comes back elsewhere, and window 4 moves without it. -/
theorem offset_lost : threeNested.IsVisible 4 ∧ threeNested.offset 4 = some (2, 2) ∧
      ([(.close 3, (0, 0)), (.close 2, (0, 0)), (.open 2 7 7 none, (0, 0)),
        (.open 3 1 1 none, (0, 0))].foldl (serve plain) threeNested).IsVisible 4 ∧
      ([(.close 3, (0, 0)), (.close 2, (0, 0)), (.open 2 7 7 none, (0, 0)),
        (.open 3 1 1 none, (0, 0))].foldl (serve plain) threeNested).offset 4 = some (9, 9) := by
  decide +kernel

end WWindowSystem
