import Mathlib.Logic.Relation
import WWindowSystem.Server.Find

namespace WWindowSystem

open Forest

inductive Step (D : Driver) : Server → Server → Prop
  | create {s s' : Server} {h : Int} (cptr : Client) (wwidth wheight : Int) (flags : Flags)
      (parent : Focus) (hp : parent.zip = s.tree)
      (hc : createWindow D s cptr wwidth wheight flags parent = some (h, s')) : Step D s s'
  | open {s : Server} (f : Focus) (x y : Int) (hf : f.zip = s.tree) (hp : f.win.pos.Proper) :
      Step D s (window_open D s f x y).2.1
  | close {s : Server} (f : Focus) (hf : f.zip = s.tree) : Step D s (window_close D s f).2.1
  | move {s : Server} (f : Focus) (x y : Int) (hf : f.zip = s.tree) :
      Step D s (window_move D s f x y).2.1
  | to_top {s : Server} (f : Focus) (hf : f.zip = s.tree) : Step D s (window_to_top D s f).2.1
  | to_bottom {s : Server} (f : Focus) (hf : f.zip = s.tree) : Step D s (window_to_bottom D s f).2.1
  | delete {s : Server} (f : Focus) (hf : f.zip = s.tree) : Step D s (window_delete D s f).2
  | resize {s : Server} (handle : Nat) (width height : Int) (placed : Option Point) (mouse : Point)
      (hh : 2 ≤ handle)
      (hp : ∀ f, s.windowLookup handle = some f → f.win.is_open = true →
        (createBitmap D f.win width height 0 0).pos.Proper) :
      Step D s (client_resize D s handle width height placed mouse).2
  | find {s : Server} (x y : Int) (usecache : Bool) : Step D s (window_find s x y usecache).2

def Reachable (D : Driver) (s : Server) : Prop :=
  ∃ d screen colors, Relation.ReflTransGen (Step D) (window_init d screen colors) s

structure Server.Valid (s : Server) : Prop where
  visible : Visible s.tree
  nodup : s.ids.Nodup
  cache : CacheLive s
  root : ∃ d : Display, rootFrames s.tree = [(true, d.area, d.area)]

theorem window_init_valid (d : Display) (screen : Pixmap) (colors : Colors) : (window_init d screen colors).Valid where
  visible := by
    have hp : d.area.Proper := by
      have hw := d.width_pos
      have hh := d.height_pos
      simp only [Rec.Proper, Display.area]
      omega
    refine ⟨?_, ⟨?_, ⟨?_, trivial, trivial⟩, trivial⟩⟩
    · intro w hw
      simp only [window_init, toList, List.append_nil, List.mem_cons, List.not_mem_nil,
        or_false] at hw
      rcases hw with rfl | rfl
      · exact ⟨fun _ => hp, subset_rfl⟩
      · exact ⟨fun _ => hp, subset_rfl⟩
    · -- the background covers the root window
      have hr : region Set.univ (glob_rootwindow d)
          (roof (.node (glob_backgroundwindow d screen) .nil .nil)) = ∅ := by
        simp [region, roof_node, roof_nil, glob_rootwindow, glob_backgroundwindow]
      rw [Exact.empty_iff ⟨fun _ => hp, subset_rfl⟩ hr]
      exact ⟨rfl, fun _ => rfl⟩
    · have hr : region (inside Set.univ (glob_rootwindow d)) (glob_backgroundwindow d screen)
          (roof .nil) = d.area.pts := by
        simp [region, roof_nil, inside, glob_rootwindow, glob_backgroundwindow]
      refine ⟨fun _ => ?_, fun _ => ?_, fun h => absurd h (by simp [glob_backgroundwindow])⟩
      · rw [hr]
        exact Tiles.single (R := rect_create 0 0 d.width d.height) hp
      · rw [hr]
        exact ⟨fun _ => subset_rfl, fun _ => rfl⟩
  nodup := by simp [Server.ids, window_init, toList, glob_rootwindow, glob_backgroundwindow]
  cache id hid := by simp [window_init] at hid
  root := ⟨d, rfl⟩

theorem window_delete_nodup (D : Driver) (s : Server) (f : Focus) (hf : f.zip = s.tree)
    (hn : s.ids.Nodup) : (window_delete D s f).2.ids.Nodup := by
  unfold window_delete
  split_ifs
  · exact hn
  · have hnc : (window_close D s f).2.1.ids.Nodup := by
      rwa [ids_congr (window_close_static D s f hf)]
    rw [Server.ids, ← window_close_zip D s f hf] at hnc
    exact zip_next_nodup hnc
  · rw [Server.ids, ← hf] at hn
    exact zip_next_nodup hn

variable {cptr : Client} {wwidth wheight h : Int} {flags : Flags} {s s' : Server} {D : Driver} {parent : Focus}

theorem createWindow_nodup
    (hp : parent.zip = s.tree)
    (hc : createWindow D s cptr wwidth wheight flags parent = some (h, s')) (hn : s.ids.Nodup) :
    s'.ids.Nodup ∧ s.ids ⊆ s'.ids := by
  rcases createWindow_cases hc with ⟨-, rfl⟩ | ⟨id, tab, -, -, hnew⟩
  · exact ⟨hn, fun _ h => h⟩
  · have hperm := (toList_zip (.parent parent.win parent.next :: parent.ctx)
      (.node (newWindow D cptr.id wwidth wheight flags id tab.2) .nil parent.childs)).trans
      ((toList_zip (.parent parent.win parent.next :: parent.ctx) parent.childs).symm.cons _)
    have hp' : zip (.parent parent.win parent.next :: parent.ctx) parent.childs = s.tree := hp
    rw [hp'] at hperm
    have hids := hperm.map Window.id
    rw [List.map_cons, ← hnew.tree] at hids
    constructor
    · exact hids.nodup_iff.mpr (List.nodup_cons.mpr ⟨hnew.fresh, hn⟩)
    · intro i hi
      exact hids.mem_iff.mpr (List.mem_cons_of_mem _ hi)

theorem createWindow_live
    (hc : createWindow D s cptr wwidth wheight flags parent = some (h, s')) (hi : s.ids ⊆ s'.ids)
    (hl : CacheLive s) : CacheLive s' := by
  rcases createWindow_cases hc with ⟨-, rfl⟩ | ⟨id, tab, -, -, hnew⟩
  · exact hl
  · intro i hid
    rw [hnew.cache] at hid
    exact hi (hl i hid)

theorem step_valid (hs : Step D s s') (h : s.Valid) : s'.Valid := by
  obtain ⟨hv, hn, hl, d, hr⟩ := h
  cases hs with
  | create cptr wwidth wheight flags parent hp hc =>
    obtain ⟨hn', hi⟩ := createWindow_nodup hp hc hn
    exact ⟨createWindow_visible D s s' cptr wwidth wheight _ flags parent hp hv hc, hn',
      createWindow_live hc hi hl, d, (createWindow_root hp hc).trans hr⟩
  | «open» f x y hf hp =>
    have hi := ids_congr (window_open_static D s f x y hf)
    exact ⟨window_open_visible D s f x y hf hv hp, hi ▸ hn, hl.congr (window_open_cache D s f x y) hi,
      d, (window_open_root D s f x y hf).trans hr⟩
  | close f hf =>
    have hi := ids_congr (window_close_static D s f hf)
    exact ⟨window_close_visible D s f hf hv, hi ▸ hn, hl.congr (window_close_cache D s f) hi,
      d, (window_close_root D s f hf).trans hr⟩
  | move f x y hf =>
    have hi := ids_congr (window_move_static D s f x y hf)
    exact ⟨window_move_visible D s f x y hf hv, hi ▸ hn, hl.congr (window_move_cache D s f x y) hi,
      d, (window_move_root D s f x y hf).trans hr⟩
  | to_top f hf =>
    have hi : (window_to_top D s f).2.1.ids.Perm s.ids := by
      rw [ids_static, ids_static]
      exact (window_to_top_static D s f hf).map Prod.fst
    exact ⟨window_to_top_visible D s f hf hv, hi.nodup_iff.mpr hn,
      fun i h => hi.mem_iff.mpr (hl i (window_to_top_cache D s f ▸ h)),
      d, (window_to_top_root D s f hf).trans hr⟩
  | to_bottom f hf =>
    have hi : (window_to_bottom D s f).2.1.ids.Perm s.ids := by
      rw [ids_static, ids_static]
      exact (window_to_bottom_static D s f hf).map Prod.fst
    exact ⟨window_to_bottom_visible D s f hf hv, hi.nodup_iff.mpr hn,
      fun i h => hi.mem_iff.mpr (hl i (window_to_bottom_cache D s f ▸ h)),
      d, (window_to_bottom_root D s f hf).trans hr⟩
  | delete f hf =>
    exact ⟨window_delete_visible D s f hf hv, window_delete_nodup D s f hf hn,
      window_delete_live D s f hf hl, d, (window_delete_root D s f hf).trans hr⟩
  | resize handle width height placed mouse hh hp =>
    obtain ⟨h1, h2⟩ := client_resize_spec D s handle width height placed mouse hv hn hh hp
    exact ⟨h1, ids_congr h2 ▸ hn, client_resize_live D s handle width height placed mouse hl,
      d, (client_resize_root D s handle width height placed mouse hv).trans hr⟩
  | find x y usecache =>
    have hre := window_find_reordered s x y usecache
    have hi : (window_find s x y usecache).2.ids = s.ids := ids_congr (hre.map fun _ _ => rfl)
    exact ⟨hre.visible hv, hi ▸ hn, window_find_live s x y usecache hl, d,
      (rootFrames_congr (hre.map fun _ _ => rfl)).trans hr⟩

theorem reachable_valid {s : Server} (h : Reachable D s) : s.Valid := by
  obtain ⟨d, screen, colors, h⟩ := h
  induction h with
  | refl => exact window_init_valid d screen colors
  | tail _ hs ih => exact step_valid hs ih

def visibleRegion (f : Focus) : Set Point :=
  {p | p ∈ f.win.pos.pts ∧ (∀ a ∈ ancestors f.ctx, p ∈ a.work.pts) ∧
    (∀ s ∈ lefts f.ctx, s.is_open = true → p ∉ s.pos.pts) ∧
    ∀ c ∈ f.childs.roots, c.is_open = true → ¬ (p ∈ c.pos.pts ∧ p ∈ f.win.work.pts)}

theorem room_open {k : Context Window} (h : ∀ a ∈ ancestors k, a.is_open = true) :
    room k = {p | (∀ a ∈ ancestors k, p ∈ a.work.pts) ∧ ∀ s ∈ lefts k, s.is_open = true → p ∉ s.pos.pts} := by
  induction k with
  | nil => simp [room, ancestors, lefts]
  | cons c k ih =>
    cases c with
    | prev s scs =>
      rw [room_prev, behind, ih h]
      ext p
      split_ifs with ho
      · simp only [ancestors, lefts, List.forall_mem_cons, ho, Set.mem_sdiff, Set.mem_ofPred_eq]
        tauto
      · simp only [ancestors, lefts, List.forall_mem_cons, ho, Set.mem_ofPred_eq]
        tauto
    | parent a ns =>
      obtain ⟨ha, hk⟩ := List.forall_mem_cons.mp h
      rw [room_parent, inside, if_pos ha, ih hk]
      ext p
      simp only [ancestors, lefts, List.forall_mem_cons, Set.mem_inter_iff, Set.mem_ofPred_eq]
      tauto

theorem region_focus {f : Focus} (h : ∀ a ∈ ancestors f.ctx, a.is_open = true) :
    region (room f.ctx) f.win (roof f.childs) = visibleRegion f := by
  ext p
  rw [room_open h]
  simp only [region, visibleRegion, roof, Set.mem_sdiff, Set.mem_inter_iff, Set.mem_ofPred_eq]
  constructor
  · rintro ⟨⟨⟨ha, hs⟩, hp⟩, hn⟩
    exact ⟨hp, ha, hs, fun c hc ho hcp => hn ⟨⟨c, hc, ho, hcp.1⟩, hcp.2⟩⟩
  · rintro ⟨hp, ha, hs, hn⟩
    refine ⟨⟨⟨ha, hs⟩, hp⟩, ?_⟩
    rintro ⟨⟨c, hc, ho, hcp⟩, hw⟩
    exact hn c hc ho ⟨hcp, hw⟩

def vga : Display := ⟨640, 480, by decide, by decide⟩

def plain : Driver :=
  { face := fun _ _ => 0, frame := fun _ _ => [], gadgets := fun w => w.bitmap, titleHeight := 16 }

def twoColors : Colors :=
  { colorCount := 2, glob_sharedcolors := 2, colorRefs := fun _ => 0xf000000f, nextTable := 1
    tables := fun _ =>
      { win := none, colors := 2, red := fun _ => 0, green := fun _ => 0, blue := fun _ => 0
        used := fun _ => 0xc0 } }

def ShowsAt (f : Focus) (p : Point) : Prop :=
  f.win.is_open = true ∧ (∀ a ∈ ancestors f.ctx, a.is_open = true) ∧ p ∈ visibleRegion f

theorem showsAt_iff {f : Focus} {p : Point} : ShowsAt f p ↔ Shows f p := by
  unfold ShowsAt Shows
  constructor
  · rintro ⟨ho, ha, hp⟩
    exact ⟨ho, ha, by rwa [region_focus ha]⟩
  · rintro ⟨ho, ha, hp⟩
    exact ⟨ho, ha, by rwa [region_focus ha] at hp⟩

theorem shows_iff {f : Focus} (hv : Visible f.zip) {p : Point} : Shows f p ↔ ∃ r ∈ f.win.vis_recs, p ∈ r.pts := by
  obtain ⟨-, -, ⟨he, -, -⟩, -⟩ := Visible.pieces hv
  cases ho : f.win.is_open with
  | false => simp [Shows, ho, he.closed ho]
  | true =>
    rw [← (he.tiles ho).covers]
    exact ⟨fun h => h.2.2, fun h => ⟨ho, open_of_room h.1.1, h⟩⟩

theorem Shown.tiles {A : Set Point} {t : Forest Window} (h : Shown A t) (hs : Sound t) :
    Tiles (t.toList.flatMap Window.vis_recs) (A ∩ roof t) := by
  induction t generalizing A with
  | nil => simpa [toList, roof_nil] using Tiles.nil
  | node w cs ns ihc ihn =>
    obtain ⟨he, hc, hn⟩ := h
    obtain ⟨hw, hcs, hns⟩ := sound_node.mp hs
    have hc := ihc hc hcs
    have hn := ihn hn hns
    rw [toList, List.flatMap_cons, List.flatMap_append, roof_node]
    unfold inside at hc
    unfold behind at hn
    split_ifs at hc hn ⊢ with ho
    · -- the window without its children, the children inside, what is behind
      refine ((he.tiles ho).append (hc.append hn ?_) ?_).congr ?_
      · rintro p ⟨hp, -⟩ hq
        exact hq.1.2 (hw.work_sub hp.2)
      · rintro p ⟨⟨-, hp⟩, hr⟩ (hq | hq)
        · exact hr ⟨hq.2, hq.1.2⟩
        · exact hq.1.2 hp
      · ext p
        have := @hw.work_sub p
        simp only [region, Set.mem_union, Set.mem_inter_iff, Set.mem_sdiff]
        tauto
    · rw [Set.empty_inter] at hc
      rwa [he.closed (by simpa using ho), hc.eq_nil, Set.empty_union]

end WWindowSystem
