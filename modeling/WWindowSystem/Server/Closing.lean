import WWindowSystem.Server.CountersRun

namespace WWindowSystem

open Forest List

def Server.IsOpen (s : Server) (handle : Nat) : Prop :=
  ∃ f, s.windowLookup handle = some f ∧ f.win.is_open = true

def Server.IsVisible (s : Server) (handle : Nat) : Prop :=
  ∃ f, s.windowLookup handle = some f ∧ really_open f.ctx f.win = true

instance (s : Server) (handle : Nat) : Decidable (s.IsOpen handle) :=
  decidable_of_iff ((s.windowLookup handle).any fun f => f.win.is_open) (by
    rw [Option.any_eq_true]
    rfl)

instance (s : Server) (handle : Nat) : Decidable (s.IsVisible handle) :=
  decidable_of_iff ((s.windowLookup handle).any fun f => really_open f.ctx f.win) (by
    rw [Option.any_eq_true]
    rfl)

def Server.PseudoClosed (s : Server) (handle : Nat) : Prop :=
  ∃ f, s.windowLookup handle = some f ∧ f.win.is_open = true ∧
    ∃ a ∈ ancestors f.ctx, a.is_open = false

def Request.Elsewhere (handle : Nat) : Request → Prop
  | .open h _ _ _ | .close h | .move _ h _ _ | .topDown h | .resize h _ _ _ => h ≠ handle
  | _ => False

def Server.Shut (s : Server) (handle : Nat) : Prop :=
  ∀ m ∈ (s.tree.map Window.mark).toList, m.id = handle → m.is_open = false

variable {handle : Nat} {s : Server}

theorem lookup_mark {f : Focus} (hf : s.windowLookup handle = some f) :
    f.win.mark ∈ (s.tree.map Window.mark).toList ∧ f.win.mark.id = handle := by
  obtain ⟨hz, hid⟩ := Server.windowLookup_zip hf
  constructor
  · rw [toList_map]
    apply mem_map_of_mem
    rw [← hz]
    exact mem_zip.mpr (.inl mem_cons_self)
  · exact hid

theorem Server.Shut.not_open (h : s.Shut handle) : ¬ s.IsOpen handle := by
  rintro ⟨f, hf, ho⟩
  obtain ⟨hm, hid⟩ := lookup_mark hf
  exact Bool.false_ne_true ((h _ hm hid).symm.trans ho)

theorem Server.IsVisible.isOpen (h : s.IsVisible handle) : s.IsOpen handle := by
  obtain ⟨f, hf, ho⟩ := h
  rw [really_open, Bool.and_eq_true] at ho
  exact ⟨f, hf, ho.1⟩

theorem Server.Shut.congr {s s' : Server} (h : s.Shut handle)
    (ht : s'.tree.map Window.mark = s.tree.map Window.mark) : s'.Shut handle := by
  rw [Server.Shut, ht]
  exact h

theorem Server.Shut.marked {s s' : Server} {f : Focus} {b : Bool} (h : s.Shut handle)
    (hf : f.zip = s.tree) (hid : f.win.id ≠ handle) (ht : s'.tree.map Window.mark = f.marked b) : s'.Shut handle := by
  intro m hm hmid
  have hs := h m
  rw [ht, Focus.marked, mem_zip] at hm
  rw [focus_mark hf, Focus.marked, mem_zip] at hs
  simp only [toList, mem_cons] at hm hs
  rcases hm with (rfl | hm) | hm
  · exact absurd hmid hid
  · exact hs (.inl (.inr hm)) hmid
  · exact hs (.inr hm) hmid

variable (D : Driver)

theorem client_close_shut (hn : s.ids.Nodup) {h handle : Nat}
    (hne : h ≠ handle) (mouse : Point) (hs : s.Shut handle) : (client_close D s h mouse).2.Shut handle := by
  rcases client_close_mark D s h mouse hn with ⟨-, he⟩ | ⟨f, hf, -, -, -, ht⟩
  · rw [he]
    exact hs
  · obtain ⟨hz, hid⟩ := Server.windowLookup_zip hf
    exact hs.marked hz (hid ▸ hne) ht

theorem client_open_shut {h handle : Nat} (hne : h ≠ handle) (x0 y0 : Int)
    (placed : Option Point) (mouse : Point) (hs : s.Shut handle) :
    (client_open D s h x0 y0 placed mouse).2.Shut handle := by
  rcases client_open_mark D s h x0 y0 placed mouse with ht | ⟨f, hf, -, -, ht⟩
  · exact hs.congr ht
  · obtain ⟨hz, hid⟩ := Server.windowLookup_zip hf
    exact hs.marked hz (hid ▸ hne) ht

theorem client_resize_shut (hn : s.ids.Nodup) {h handle : Nat}
    (hne : h ≠ handle) (width height : Int) (placed : Option Point) (mouse : Point)
    (hs : s.Shut handle) : (client_resize D s h width height placed mouse).2.Shut handle := by
  unfold client_resize
  split
  · exact hs
  next f hf =>
    split
    · exact hs
    · obtain ⟨-, hid⟩ := Server.windowLookup_zip hf
      dsimp only
      have hc : (resizeWindow D (client_close D s f.win.id mouse).2 h width height).Shut handle := by
        apply Server.Shut.congr _ (resizeWindow_mark D _ h width height)
        exact client_close_shut D hn (hid ▸ hne) mouse hs
      split_ifs
      · exact client_open_shut D hne _ _ placed mouse hc
      · exact hc

theorem serve_shut (hn : s.ids.Nodup) (r : Request × Point)
    (hr : r.1.Elsewhere handle) (hs : s.Shut handle) : (serve D s r).Shut handle := by
  obtain ⟨r, mouse⟩ := r
  cases r with
  | «open» h x0 y0 placed => exact client_open_shut D hr x0 y0 placed mouse hs
  | close h => exact client_close_shut D hn hr mouse hs
  | move relative h x0 y0 => exact hs.congr (client_move_mark D s relative h x0 y0 mouse)
  | topDown h =>
    intro m hm
    apply hs m
    rw [marks_toList] at hm ⊢
    exact ((w_topDown_marks D s h).map _).mem_iff.mp hm
  | resize h width height placed => exact client_resize_shut D hn hr width height placed mouse hs
  | connect | disconnect | create | create2 | delete => exact hr.elim

theorem serve_all_shut (h : s.Counted)
    (l : List (Request × Point)) (hl : ∀ r ∈ l, r.1.Elsewhere handle) (hs : s.Shut handle) :
    (l.foldl (serve D) s).Shut handle := by
  induction l generalizing s with
  | nil => exact hs
  | cons r l ih =>
    rw [forall_mem_cons] at hl
    exact ih (serve_counted D h r) hl.2 (serve_shut D h.nodup r hl.1 hs)

def ClosedForGood (D : Driver) (s : Server) (handle : Nat) : Prop :=
  ¬ s.IsOpen handle ∧ ∀ later : List (Request × Point), (∀ r ∈ later, r.1.Elsewhere handle) →
    ¬ (later.foldl (serve D) s).IsVisible handle

theorem Server.Shut.forGood (h : s.Counted)
    (hs : s.Shut handle) : ClosedForGood D s handle := by
  refine ⟨hs.not_open, fun later hl hv => ?_⟩
  exact (serve_all_shut D h later hl hs).not_open hv.isOpen

theorem client_close_visible (h : s.Counted)
    (mouse : Point) (hp : ¬ s.PseudoClosed handle) (hr : (client_close D s handle mouse).1 = 0) :
    (client_close D s handle mouse).2.Shut handle := by
  rcases client_close_mark D s handle mouse h.nodup with ⟨hne, -⟩ | ⟨f, hf, hh, ho, -, ht⟩
  · exact absurd hr hne
  obtain ⟨hz, hid⟩ := Server.windowLookup_zip hf
  have hall : ∀ a ∈ ancestors f.ctx, a.is_open = true := by
    intro a ha
    rw [← Bool.not_eq_false]
    exact fun hc => hp ⟨f, hf, ho, a, ha, hc⟩
  have hpar := h.hasParent hz (h.client_of_handle hz (by omega))
  rw [hpar, all_eq_true.mpr hall] at ht
  change _ = f.marked false at ht
  intro m hm hmid
  have hn : ((f.marked false).toList.map Mark.id).Nodup := by
    rw [← ht, ← ids_mark]
    exact (client_close_counted D h handle mouse).nodup
  rw [ht] at hm
  have hself : { f.win.mark with is_open := false } ∈ (f.marked false).toList :=
    mem_zip.mpr (.inl mem_cons_self)
  have hme : m = { f.win.mark with is_open := false } := by
    apply inj_on_of_nodup_map hn hm hself
    exact hmid.trans hid.symm
  rw [hme]

theorem client_close_pseudo (h : s.Counted) (mouse : Point)
    (hp : s.PseudoClosed handle) :
    (client_close D s handle mouse).1 = 0 ∧ (client_close D s handle mouse).2.IsOpen handle := by
  obtain ⟨f, hf, ho, a, ha, hac⟩ := hp
  obtain ⟨hz, hid⟩ := Server.windowLookup_zip hf
  have hc : f.win.cptr ≠ none := by
    intro hn
    have hca := ((h.focus hz).server hn).2.2 a.owner (mem_map_of_mem ha)
    have hma : a.mark ∈ (s.tree.map Window.mark).toList := by
      rw [toList_map, ← hz]
      exact mem_map_of_mem (mem_zip.mpr (.inr (ancestors_subset _ ha)))
    exact Bool.false_ne_true (hac.symm.trans (h.server _ hma hca))
  obtain ⟨c, hc⟩ := Option.ne_none_iff_exists'.mp hc
  have hh : 2 ≤ handle := by
    rw [← hid]
    exact ((h.focus hz).client c hc).2.2
  have hr : (client_close D s handle mouse).1 = 0 := by
    unfold client_close
    rw [if_neg (by omega), hf]
    simp only [ho, Bool.not_true, Bool.false_eq_true, if_false]
  rcases client_close_mark D s handle mouse h.nodup with ⟨hne, -⟩ | ⟨g, hg, -, -, -, ht⟩
  · exact absurd hr hne
  obtain rfl : f = g := Option.some.inj (hf.symm.trans hg)
  have hall : ((ancestors f.ctx).all fun w => w.is_open) = false := by
    rw [all_eq_false]
    exact ⟨a, ha, by simp [hac]⟩
  rw [hall, Bool.and_false] at ht
  have hm : f.win.mark ∈ ((client_close D s handle mouse).2.tree.map Window.mark).toList := by
    rw [ht, Bool.not_false, ← ho, ← focus_mark hz]
    exact (lookup_mark hf).1
  rw [toList_map] at hm
  obtain ⟨w, hw, he⟩ := mem_map.mp hm
  obtain ⟨k, hk, -, rfl⟩ := lookup_of_mem (client_close_counted D h handle mouse).nodup hw
  have hkid : k.win.id = handle := (congrArg Mark.id he).trans hid
  rw [hkid] at hk
  exact ⟨hr, k, hk, (congrArg Mark.is_open he).trans ho⟩

theorem client_close_final (D : Driver) (d : Display) (screen : Pixmap) (colors : Colors)
    (l : List (Request × Point)) (handle : Nat) (mouse : Point) :
    ((client_close D (l.foldl (serve D) (window_init d screen colors)) handle mouse).1 = 0 → ClosedForGood D
        (client_close D (l.foldl (serve D) (window_init d screen colors)) handle mouse).2 handle) ↔
      ¬ (l.foldl (serve D) (window_init d screen colors)).PseudoClosed handle := by
  have h := served_counted D d screen colors l
  constructor
  · intro hc hp
    obtain ⟨hr, ho⟩ := client_close_pseudo D h mouse hp
    exact (hc hr).1 ho
  · intro hp hr
    exact (client_close_visible D h mouse hp hr).forGood D (client_close_counted D h handle mouse)

def nestedCalls : List (Request × Point) :=
  [(.connect 1 0 0, (0, 0)), (.create 1 4 4 0, (0, 0)), (.create2 1 2 2 0 2, (0, 0)),
    (.open 2 0 0 none, (0, 0)), (.open 3 0 0 none, (0, 0)), (.close 2, (0, 0))]

def nested : Server :=
  nestedCalls.foldl (serve plain) (window_init ⟨9, 9, by decide, by decide⟩ (fun _ => 0) twoColors)

/-- The inner window is closed with reply 0, and opening the outer one brings it back. -/
theorem client_close_revived :
    (client_close plain nested 3 (0, 0)).1 = 0 ∧ (client_close plain nested 3 (0, 0)).2.IsOpen 3 ∧
      (serve plain (client_close plain nested 3 (0, 0)).2 (.open 2 0 0 none, (0, 0))).IsVisible 3 := by
  decide +kernel

end WWindowSystem
