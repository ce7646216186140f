import WWindowSystem.Library.Footprint
import WWindowSystem.Server.Requests

namespace WWindowSystem

open Forest Set

def Window.vis (w : Window) : Set Point := {q | ∃ r ∈ w.vis_recs, q ∈ r.pts}

def Window.rel (w : Window) (q : Point) : Point := (q.1 - w.pos.x0, q.2 - w.pos.y0)

def Window.bounds (w : Window) : Set Point := {p | 0 ≤ p.1 ∧ p.1 < w.pos.w ∧ 0 ≤ p.2 ∧ p.2 < w.pos.h}

def Window.dirtyPts (w : Window) : Set Point := (w.dirty.shift w.pos.x0 w.pos.y0).pts

variable {w : Window}

theorem rel_mem_bounds {q : Point} : w.rel q ∈ w.bounds ↔ q ∈ w.pos.pts := by
  simp only [Window.bounds, Window.rel, mem_ofPred_eq, Rec.mem_pts]
  omega

def Fresh (g : Nat → Pixmap) (w : Window) : Prop := ∀ p ∈ w.bounds, w.bitmap p = g w.id p

structure Holds (g : Nat → Pixmap) (screen : Pixmap) (w : Window) : Prop where
  synced : ∀ q ∈ w.vis, q ∉ w.dirtyPts → screen q = g w.id (w.rel q)
  clean : w.is_open = true → w.is_hidden = false → w.dirty.w = 0
  stored : (w.is_open = false ∨ w.is_hidden = true ∨ w.is_dirty = false) → Fresh g w
  dirty : w.dirty.w = 0 ∨ w.dirty.Proper

structure Fit (w : Window) : Prop where
  sub : w.vis ⊆ w.pos.pts
  hidden : w.is_open = true → (w.is_hidden = false ↔ w.vis = w.pos.pts)
  closed : w.is_open = false → w.vis = ∅

theorem Exact.vis {A C : Set Point} (h : Exact A w C) (ho : w.is_open = true) : w.vis = region A w C := by
  ext q
  exact ((h.tiles ho).covers q).symm

theorem Exact.fit {A C : Set Point} (h : Exact A w C) : Fit w := by
  have hsub : region A w C ⊆ w.pos.pts := fun q hq => hq.1.2
  have hclosed : w.is_open = false → w.vis = ∅ := by
    intro ho
    simp [Window.vis, h.closed ho]
  refine ⟨?_, fun ho => ?_, hclosed⟩
  · cases ho : w.is_open with
    | false => simp [hclosed ho]
    | true => rwa [h.vis ho]
  · rw [h.vis ho, h.hidden ho]
    exact ⟨fun hs => Set.Subset.antisymm hsub hs, fun he => he.symm.subset⟩

theorem dirtyPts_empty (h : w.dirty.w = 0) : w.dirtyPts = ∅ := by
  ext q
  simp only [Window.dirtyPts, Rec.mem_pts, Rec.shift, h, mem_empty_iff_false, iff_false]
  omega

theorem Fit.shown (hf : Fit w) (ho : w.is_open = true) (hh : w.is_hidden = false) :
    w.vis = w.pos.pts := (hf.hidden ho).mp hh

theorem save_bitmap (hb : w.backing = .real) (screen : Pixmap) (l : List Rec)
    (bm : Pixmap) (p : Point) :
    l.foldl (fun bm rp => { w with bitmap := bm }.save screen rp) bm p =
      if l.any (fun rp => rect_cont_point rp (p.1 + w.pos.x0) (p.2 + w.pos.y0)) then
        screen (p.1 + w.pos.x0, p.2 + w.pos.y0) else bm p := by
  induction l generalizing bm with
  | nil => rfl
  | cons r l ih =>
    rw [List.foldl_cons, ih, List.any_cons]
    cases hl : l.any fun rp => rect_cont_point rp (p.1 + w.pos.x0) (p.2 + w.pos.y0) with
    | true => simp
    | false =>
      simp only [Bool.or_false, Bool.false_eq_true, if_false, Window.save, hb, bitblk]
      have hiff : rect_cont_point r (p.1 + w.pos.x0) (p.2 + w.pos.y0) = true ↔
          r.x0 - w.pos.x0 ≤ p.1 ∧ p.1 < r.x0 - w.pos.x0 + r.w ∧
            r.y0 - w.pos.y0 ≤ p.2 ∧ p.2 < r.y0 - w.pos.y0 + r.h := by
        rw [rect_cont_point_iff, Rec.mem_pts]
        omega
      by_cases hc : rect_cont_point r (p.1 + w.pos.x0) (p.2 + w.pos.y0) = true
      · rw [if_pos (hiff.mp hc), if_pos hc]
        congr 2 <;> omega
      · rw [if_neg fun h => hc (hiff.mpr h), if_neg hc]

variable {g : Nat → Pixmap} {screen : Pixmap}

theorem save_stored (hb : w.backing = .real)
    (h : Holds g screen w) (hf : Fit w) (ho : w.is_open = true) (hh : w.is_hidden = false) (p : Point)
    (hp : p ∈ w.bounds) :
    w.vis_recs.foldl (fun bm rp => { w with bitmap := bm }.save screen rp) w.bitmap p = g w.id p := by
  have hq : ((p.1 + w.pos.x0, p.2 + w.pos.y0) : Point) ∈ w.vis := by
    rw [hf.shown ho hh, ← rel_mem_bounds]
    simpa [Window.rel] using hp
  rw [save_bitmap hb, if_pos]
  · rw [h.synced _ hq (by simp [dirtyPts_empty (h.clean ho hh)])]
    simp [Window.rel]
  · obtain ⟨r, hr, hqr⟩ := hq
    exact List.any_eq_true.mpr ⟨r, hr, rect_cont_point_iff.mpr hqr⟩

variable (rect : Rec)

theorem window_save_contents_spec
    (hb : w.backing = .real) (h : Holds g screen w) (hf : Fit w) : Holds g screen (window_save_contents screen rect w) ∧
      ((∃ q, q ∈ w.pos.pts ∧ q ∈ rect.pts) → Fresh g (window_save_contents screen rect w)) := by
  unfold window_save_contents
  split_ifs with hc hi
  · have hs : Fresh g w := by
      refine h.stored ?_
      simp only [Bool.or_eq_true, Bool.not_eq_true'] at hc
      tauto
    exact ⟨⟨h.synced, h.clean, fun _ => hs, h.dirty⟩, fun _ => hs⟩
  · simp only [Bool.or_eq_true, Bool.not_eq_true', not_or, Bool.not_eq_false, Bool.not_eq_true] at hc
    have hs := save_stored hb h hf hc.1.1 hc.2
    exact ⟨⟨h.synced, h.clean, fun _ => hs, h.dirty⟩, fun _ => hs⟩
  · refine ⟨h, fun hm => absurd (rect_intersect_isSome.mpr hm) hi⟩

variable (D : Driver)

theorem redraw_frame (w : Window) (screen : Pixmap) (rp : Rec) (q : Point)
    (h : q ∉ rp.pts) : w.redraw D screen rp q = screen q := by
  rw [Rec.mem_pts] at h
  unfold Window.redraw
  cases w.backing with
  | null => rfl
  | dummy => simp only [bitblk, if_neg h]
  | real => simp only [bitblk, if_neg h]

theorem redraw_real {D : Driver} (hb : w.backing = .real) (screen : Pixmap) (rp : Rec)
    (q : Point) (h : q ∈ rp.pts) : w.redraw D screen rp q = w.bitmap (w.rel q) := by
  rw [Rec.mem_pts] at h
  rw [Window.redraw, hb]
  dsimp only
  rw [bitblk, if_pos (by omega), Window.rel]
  congr 2 <;> omega

theorem redrawList_frame (w : Window) (rect : Rec) (q : Point) (l : List Rec)
    (screen : Pixmap) (h : ∀ rp ∈ l, q ∈ rp.pts → q ∉ rect.pts) :
    l.foldl (fun scr rp => match rect_intersect rp rect with
      | some isect => w.redraw D scr isect
      | none => scr) screen q = screen q := by
  induction l generalizing screen with
  | nil => rfl
  | cons r l ih =>
    obtain ⟨hr, hl⟩ := List.forall_mem_cons.mp h
    rw [List.foldl_cons, ih _ hl]
    cases hi : rect_intersect r rect with
    | none => rfl
    | some isect =>
      apply redraw_frame
      rw [rect_intersect_pts hi]
      exact fun hq => hr hq.1 hq.2

theorem redrawList_real {D : Driver} (hb : w.backing = .real) (rect : Rec) (q : Point)
    (l : List Rec) (screen : Pixmap)
    (h : (∃ rp ∈ l, q ∈ rp.pts ∧ q ∈ rect.pts) ∨ screen q = w.bitmap (w.rel q)) :
    l.foldl (fun scr rp => match rect_intersect rp rect with
      | some isect => w.redraw D scr isect
      | none => scr) screen q = w.bitmap (w.rel q) := by
  induction l generalizing screen with
  | nil => simpa using h
  | cons r l ih =>
    rw [List.foldl_cons]
    apply ih
    by_cases hq : q ∈ r.pts ∧ q ∈ rect.pts
    · right
      cases hi : rect_intersect r rect with
      | none => exact absurd hq.2 (rect_intersect_none.mp hi q hq.1)
      | some isect =>
        apply redraw_real hb
        rw [rect_intersect_pts hi]
        exact hq
    · rcases h with ⟨rp, hrp, hp⟩ | h
      · rcases List.mem_cons.mp hrp with rfl | hrp
        · exact absurd hp hq
        · exact .inl ⟨rp, hrp, hp⟩
      · right
        cases hi : rect_intersect r rect with
        | none => exact h
        | some isect =>
          rw [← h]
          apply redraw_frame
          rw [rect_intersect_pts hi]
          exact hq

theorem redrawRect_frame (w : Window) (screen : Pixmap) (rect : Rec) (q : Point)
    (h : q ∈ w.vis → q ∉ rect.pts) : redrawRect D w screen rect q = screen q :=
  redrawList_frame D w rect q w.vis_recs screen fun rp hrp hq => h ⟨rp, hrp, hq⟩

theorem redrawRect_real {D : Driver} (hb : w.backing = .real) (screen : Pixmap) (rect : Rec) (q : Point)
    (h : (q ∈ w.vis ∧ q ∈ rect.pts) ∨ screen q = w.bitmap (w.rel q)) :
    redrawRect D w screen rect q = w.bitmap (w.rel q) := by
  apply redrawList_real hb
  refine h.imp ?_ id
  rintro ⟨⟨rp, hrp, hq⟩, hr⟩
  exact ⟨rp, hrp, hq, hr⟩

theorem redrawRects_frame (w : Window) (rects : List Rec) (screen : Pixmap) (q : Point)
    (h : q ∈ w.vis → q ∉ coverage rects) : rects.foldl (redrawRect D w) screen q = screen q := by
  induction rects generalizing screen with
  | nil => rfl
  | cons r rects ih =>
    rw [List.foldl_cons, ih, redrawRect_frame]
    · exact fun hv hq => h hv ⟨r, List.mem_cons_self, hq⟩
    · rintro hv ⟨r', hr', hq⟩
      exact h hv ⟨r', List.mem_cons_of_mem _ hr', hq⟩

theorem redrawRects_real {D : Driver} (hb : w.backing = .real) (rects : List Rec)
    (screen : Pixmap) (q : Point) (h : (q ∈ w.vis ∧ q ∈ coverage rects) ∨ screen q = w.bitmap (w.rel q)) :
    rects.foldl (redrawRect D w) screen q = w.bitmap (w.rel q) := by
  induction rects generalizing screen with
  | nil => simpa [coverage] using h
  | cons r rects ih =>
    rw [List.foldl_cons]
    apply ih
    by_cases hq : q ∈ r.pts
    · right
      apply redrawRect_real hb
      exact h.imp (fun hv => ⟨hv.1, hq⟩) id
    · rcases h with ⟨hv, r', hr', hr⟩ | h
      · rcases List.mem_cons.mp hr' with rfl | hr'
        · exact absurd hr hq
        · exact .inl ⟨hv, r', hr', hr⟩
      · right
        rw [redrawRect_frame D w screen r q fun _ => hq, h]

structure Pending (g : Nat → Pixmap) (R : Set Point) (screen : Pixmap) (w : Window) : Prop where
  synced : ∀ q ∈ w.vis, q ∉ w.dirtyPts → q ∉ R → screen q = g w.id (w.rel q)
  fresh : (∃ q ∈ w.vis, q ∈ R) → Fresh g w
  clean : w.is_open = true → w.is_hidden = false → w.dirty.w = 0 ∨ Fresh g w
  stored : (w.is_open = false ∨ w.is_hidden = true ∨ w.is_dirty = false) → Fresh g w
  dirty : w.dirty.w = 0 ∨ w.dirty.Proper

theorem window_redraw_frame (rects : List Rec) (screen : Pixmap) (w : Window)
    (q : Point) (h : q ∉ w.vis) : (window_redraw_contents_rect D rects screen w).1 q = screen q := by
  unfold window_redraw_contents_rect
  split_ifs
  · rfl
  · dsimp only
    split_ifs
    · refine (redrawRects_frame D { w with dirty := { w.dirty with w := 0, h := 0 } } rects _ q
        fun hv => absurd hv h).trans ?_
      exact redrawRect_frame D w screen _ q fun hv => absurd hv h
    · exact redrawRects_frame D w rects screen q fun hv => absurd hv h

variable {rects : List Rec}

theorem window_redraw_holds {D : Driver}
    (hb : w.backing = .real) (hf : Fit w) (h : Pending g (coverage rects) screen w) :
    Holds g (window_redraw_contents_rect D rects screen w).1 (window_redraw_contents_rect D rects screen w).2 := by
  unfold window_redraw_contents_rect
  split_ifs with ho
  · have ho : w.is_open = false := by simpa using ho
    have hv := hf.closed ho
    exact ⟨by simp [hv], fun h' => absurd (ho.symm.trans h') (by simp), h.stored, h.dirty⟩
  · have ho : w.is_open = true := by simpa using ho
    dsimp only
    have hbit : Fresh g w → ∀ q ∈ w.vis, w.bitmap (w.rel q) = g w.id (w.rel q) :=
      fun hs q hq => hs _ (rel_mem_bounds.mpr (hf.sub hq))
    by_cases hfl : (!w.is_hidden && decide (w.dirty.w > 0 ∧ w.dirty.h > 0)) = true
    · simp only [hfl, if_true]
      simp only [Bool.and_eq_true, Bool.not_eq_true', decide_eq_true_eq] at hfl
      have hs : Fresh g w := (h.clean ho hfl.1).resolve_left (by omega)
      refine ⟨fun q hq _ => ?_, fun _ _ => rfl, fun _ => hs, .inl rfl⟩
      -- the flush comes first, then the rectangles are redrawn
      by_cases hqd : q ∈ w.dirtyPts ∨ q ∈ coverage rects
      · refine (redrawRects_real (w := { w with dirty := { w.dirty with w := 0, h := 0 } }) hb rects
          _ q ?_).trans (hbit hs q hq)
        rcases hqd with hqd | hqd
        · exact .inr (redrawRect_real hb screen _ q (.inl ⟨hq, hqd⟩))
        · exact .inl ⟨hq, hqd⟩
      · rw [not_or] at hqd
        refine (redrawRects_frame D { w with dirty := { w.dirty with w := 0, h := 0 } } rects _ q
          fun _ => hqd.2).trans ?_
        refine (redrawRect_frame D w screen _ q fun _ => hqd.1).trans ?_
        exact h.synced q hq hqd.1 hqd.2
    · rw [Bool.not_eq_true] at hfl
      simp only [hfl, Bool.false_eq_true, if_false]
      refine ⟨fun q hq hqd => ?_, fun _ hh => ?_, h.stored, h.dirty⟩
      · by_cases hqr : q ∈ coverage rects
        · rw [redrawRects_real hb rects screen q (.inl ⟨hq, hqr⟩)]
          exact hbit (h.fresh ⟨q, hq, hqr⟩) q hq
        · rw [redrawRects_frame D w rects screen q fun _ => hqr]
          exact h.synced q hq hqd hqr
      · rw [hh, Bool.not_false, Bool.true_and, decide_eq_false_iff_not] at hfl
        rcases h.dirty with h0 | hp
        · exact h0
        · exact absurd hp hfl

theorem Holds.congr {screen screen' : Pixmap} (h : Holds g screen w)
    (hs : ∀ q ∈ w.vis, screen' q = screen q) : Holds g screen' w :=
  ⟨fun q hq hd => (hs q hq).trans (h.synced q hq hd), h.clean, h.stored, h.dirty⟩

variable {R : Set Point}

theorem Pending.congr {screen screen' : Pixmap}
    (h : Pending g R screen w) (hs : ∀ q ∈ w.vis, screen' q = screen q) : Pending g R screen' w :=
  ⟨fun q hq hd hR => (hs q hq).trans (h.synced q hq hd hR), h.fresh, h.clean, h.stored, h.dirty⟩

theorem vis_of_geom {w v : Window} (h : w.geom = v.geom) : w.vis = v.vis := by
  simp only [Window.geom, Prod.mk.injEq] at h
  simp only [Window.vis, h.2.2]

theorem Fit.congr {w v : Window} (h : w.geom = v.geom) (hw : Fit w) : Fit v := by
  have hv := vis_of_geom h
  simp only [Window.geom, Window.frame, Prod.mk.injEq] at h
  obtain ⟨⟨ho, hp, -⟩, hh, -⟩ := h
  refine ⟨?_, ?_, ?_⟩
  · rw [← hv, ← hp]; exact hw.sub
  · rw [← hv, ← hp, ← ho, ← hh]; exact hw.hidden
  · rw [← hv, ← ho]; exact hw.closed

theorem Window.Sound.congr {w v : Window} (h : w.geom = v.geom) (hw : w.Sound) : v.Sound := by
  simp only [Window.geom, Window.frame, Prod.mk.injEq] at h
  obtain ⟨⟨ho, hp, hwk⟩, -, -⟩ := h
  refine ⟨?_, ?_⟩
  · rw [← ho, ← hp]; exact hw.proper
  · rw [← hp, ← hwk]; exact hw.work_sub

def Ready (g : Nat → Pixmap) (rects : List Rec) (screen : Pixmap) (w : Window) : Prop :=
  Fit w ∧ (w.backing = .real → Pending g (coverage rects) screen w)

def HoldsReal (g : Nat → Pixmap) (screen : Pixmap) (w : Window) : Prop :=
  w.backing = .real → Holds g screen w

theorem redraw_local (g : Nat → Pixmap) (rects : List Rec) :
    Local (window_redraw_contents_rect D rects) Window.vis (Ready g rects) (HoldsReal g) where
  frame screen w := window_redraw_frame D rects screen w
  same screen w := vis_of_geom (window_redraw_geom D rects screen w)
  visit screen w h hb := by
    have hst := congrArg (fun p => p.2.2.2.1) (window_redraw_static D rects screen w)
    have hw : w.backing = .real := hst.symm.trans hb
    exact window_redraw_holds hw h.1 (h.2 hw)
  pre_congr _ _ _ hs h := ⟨h.1, fun hb => (h.2 hb).congr hs⟩
  post_congr _ _ _ hs h hb := (h hb).congr hs

variable {t : Forest Window} {A : Set Point}

theorem vis_subset (hs : Sound t) (h : Shown A t) :
    ∀ w ∈ t.toList, w.vis ⊆ A ∩ roof t := by
  induction t generalizing A with
  | nil => exact fun w hw => absurd hw List.not_mem_nil
  | node w cs ns ihc ihn =>
    obtain ⟨hsw, hsc, hsn⟩ := sound_node.mp hs
    obtain ⟨he, hc, hn⟩ := h
    rw [roof_node, toList]
    refine List.forall_mem_cons.mpr ⟨?_, List.forall_mem_append.mpr ⟨?_, ?_⟩⟩
    · cases ho : w.is_open with
      | false => simp [he.fit.closed ho]
      | true =>
        rw [he.vis ho]
        exact fun q hq => ⟨hq.1.1, .inl hq.1.2⟩
    · intro v hv q hq
      have := (ihc hsc hc v hv hq).1
      unfold inside at this
      split_ifs at this ⊢
      · exact ⟨this.1, .inl (hsw.work_sub this.2)⟩
      · exact absurd this (notMem_empty _)
    · intro v hv q hq
      obtain ⟨h1, h2⟩ := ihn hsn hn v hv hq
      refine ⟨?_, .inr h2⟩
      unfold behind at h1
      split_ifs at h1
      · exact h1.1
      · exact h1

theorem shown_separate (hs : Sound t) (h : Shown A t) :
    Separate Window.vis t.toList := by
  induction t generalizing A with
  | nil => exact .nil
  | node w cs ns ihc ihn =>
    obtain ⟨hsw, hsc, hsn⟩ := sound_node.mp hs
    obtain ⟨he, hc, hn⟩ := h
    have hvc := vis_subset hsc hc
    have hvn := vis_subset hsn hn
    refine List.pairwise_cons.mpr ⟨?_, List.pairwise_append.mpr ⟨ihc hsc hc, ihn hsn hn, ?_⟩⟩
    · cases ho : w.is_open with
      | false => simp [he.fit.closed ho]
      | true =>
        rw [he.vis ho]
        refine List.forall_mem_append.mpr ⟨fun v hv q hq hqv => ?_, fun v hv q hq hqv => ?_⟩
        · obtain ⟨h1, h2⟩ := hvc v hv hqv
          rw [inside, if_pos ho] at h1
          exact hq.2 ⟨h2, h1.2⟩
        · have h1 := (hvn v hv hqv).1
          rw [behind, if_pos ho] at h1
          exact h1.2 hq.1.2
    · intro v hv u hu q hqv hqu
      have h1 := (hvc v hv hqv).1
      have h2 := (hvn u hu hqu).1
      unfold inside at h1
      split_ifs at h1 with ho
      · rw [behind, if_pos ho] at h2
        exact h2.2 (hsw.work_sub h1.2)
      · exact h1

theorem vis_cover (hs : Sound t) (h : Shown A t) {q : Point}
    (hA : q ∈ A) (hr : q ∈ roof t) : ∃ w ∈ t.toList, q ∈ w.vis := by
  induction t generalizing A with
  | nil => simp [roof_nil] at hr
  | node w cs ns ihc ihn =>
    obtain ⟨hsw, hsc, hsn⟩ := sound_node.mp hs
    obtain ⟨he, hc, hn⟩ := h
    by_cases hw : w.is_open = true ∧ q ∈ w.pos.pts
    · by_cases hqc : q ∈ roof cs ∧ q ∈ w.work.pts
      · have hin : q ∈ inside A w := by
          rw [inside, if_pos hw.1]
          exact ⟨hA, hqc.2⟩
        obtain ⟨v, hv, hqv⟩ := ihc hsc hc hin hqc.1
        exact ⟨v, List.mem_cons_of_mem _ (List.mem_append_left _ hv), hqv⟩
      · refine ⟨w, List.mem_cons_self, ?_⟩
        rw [he.vis hw.1]
        exact ⟨⟨hA, hw.2⟩, hqc⟩
    · have hb : q ∈ behind A w := by
        unfold behind
        split_ifs with ho
        · exact ⟨hA, fun hp => hw ⟨ho, hp⟩⟩
        · exact hA
      rw [roof_node] at hr
      have hrn : q ∈ roof ns := by
        rcases hr with hr | hr
        · split_ifs at hr with ho
          · exact absurd ⟨ho, hr⟩ hw
          · exact absurd hr (notMem_empty _)
        · exact hr
      obtain ⟨v, hv, hqv⟩ := ihn hsn hn hb hrn
      exact ⟨v, List.mem_cons_of_mem _ (List.mem_append_right _ hv), hqv⟩

theorem shown_fit (h : Shown A t) : ∀ w ∈ t.toList, Fit w := by
  induction t generalizing A with
  | nil => exact fun w hw => absurd hw List.not_mem_nil
  | node w cs ns ihc ihn =>
    exact List.forall_mem_cons.mpr ⟨h.1.fit, List.forall_mem_append.mpr ⟨ihc h.2.1, ihn h.2.2⟩⟩

def Window.core (w : Window) : Window := { w with is_hidden := false, vis_recs := [] }

/-- The same window with other rectangles: it gains points of `G` only and loses points of `L` only. -/
structure Reshaped (G L : Set Point) (w w' : Window) : Prop where
  core : w'.core = w.core
  fit : Fit w
  fit' : Fit w'
  gain : w'.vis ⊆ w.vis ∪ G
  loss : w.vis ⊆ w'.vis ∪ L

variable {G L : Set Point}

theorem Reshaped.fresh {w w' : Window} (h : Reshaped G L w w') :
    Fresh g w' ↔ Fresh g w := by
  have hc := h.core
  simp only [Window.core, Window.mk.injEq] at hc
  simp only [Fresh, Window.bounds, hc]

theorem Reshaped.stored {w w' : Window}
    (hr : Reshaped G L w w') (h : Holds g screen w) (hn : (∃ q ∈ w.vis, q ∈ L) → Fresh g w)
    (hw : w'.is_open = false ∨ w'.is_hidden = true ∨ w'.is_dirty = false) : Fresh g w := by
  have hc := hr.core
  simp only [Window.core, Window.mk.injEq] at hc
  by_cases hst : w.is_open = false ∨ w.is_hidden = true ∨ w.is_dirty = false
  · exact h.stored hst
  · simp only [not_or, Bool.not_eq_false, Bool.not_eq_true] at hst
    obtain ⟨ho, hh, hd⟩ := hst
    have ho' : w'.is_open = true := by rw [← ho]; exact hc.2.2.2.1
    have hh' : w'.is_hidden = true := by
      have hd' : w'.is_dirty = w.is_dirty := by simp only [hc]
      rw [ho', hd', hd] at hw
      simpa using hw
    have hne : ¬ w'.vis = w'.pos.pts := by
      rw [← hr.fit'.hidden ho', hh']
      simp
    have hvis : w.vis = w'.pos.pts := by
      rw [hr.fit.shown ho hh]
      simp only [hc]
    apply hn
    by_contra hno
    push Not at hno
    refine hne (Set.Subset.antisymm hr.fit'.sub fun q hq => ?_)
    rw [← hvis] at hq
    exact (hr.loss hq).resolve_right (hno q hq)

theorem Reshaped.pending {G L R : Set Point} {w w' : Window}
    (hr : Reshaped G L w w') (h : Holds g screen w) (hG : G ⊆ R)
    (hn : (∃ q ∈ w.vis, q ∈ L ∨ q ∈ R) → Fresh g w) : Pending g R screen w' := by
  have hc := hr.core
  simp only [Window.core, Window.mk.injEq] at hc
  have hhid : ∀ q, q ∈ w'.vis → q ∉ w.vis → Fresh g w := by
    intro q hq hnq
    apply h.stored
    by_contra hst
    simp only [not_or, Bool.not_eq_false, Bool.not_eq_true] at hst
    obtain ⟨ho, hh, -⟩ := hst
    rw [hr.fit.shown ho hh] at hnq
    have := hr.fit'.sub hq
    simp only [hc] at this
    exact hnq this
  refine ⟨fun q hq hd hqR => ?_, ?_, fun ho hh => ?_, fun hst => ?_, ?_⟩
  · have hqw : q ∈ w.vis := (hr.gain hq).resolve_right fun hqG => hqR (hG hqG)
    simp only [Window.rel, Window.dirtyPts, hc] at hd ⊢
    exact h.synced q hqw hd
  · rintro ⟨q, hq, hqR⟩
    rw [hr.fresh]
    by_cases hqw : q ∈ w.vis
    · exact hn ⟨q, hqw, .inr hqR⟩
    · exact hhid q hq hqw
  · rw [hr.fresh]
    by_cases hhw : w.is_hidden = false
    · have := h.clean (hc.2.2.2.1 ▸ ho) hhw
      simp only [hc]
      exact .inl this
    · exact .inr (h.stored (.inr (.inl (by simpa using hhw))))
  · rw [hr.fresh]
    exact hr.stored h (fun ⟨q, hq, hqL⟩ => hn ⟨q, hq, .inl hqL⟩) hst
  · have := h.dirty
    simpa only [hc] using this

theorem Reshaped.holds {L : Set Point} {w w' : Window}
    (hr : Reshaped ∅ L w w') (h : Holds g screen w) (hn : (∃ q ∈ w.vis, q ∈ L) → Fresh g w) : Holds g screen w' := by
  have hc := hr.core
  simp only [Window.core, Window.mk.injEq] at hc
  have hsub : w'.vis ⊆ w.vis := fun q hq => (hr.gain hq).resolve_right (notMem_empty q)
  refine ⟨fun q hq hd => ?_, fun ho hh => ?_, fun hst => ?_, ?_⟩
  · simp only [Window.rel, Window.dirtyPts, hc] at hd ⊢
    exact h.synced q (hsub hq) hd
  · have ho' : w.is_open = true := hc.2.2.2.1 ▸ ho
    have hvis : w.vis = w.pos.pts := by
      refine Set.Subset.antisymm hr.fit.sub fun q hq => hsub ?_
      rw [hr.fit'.shown ho hh]
      simpa only [hc] using hq
    have := h.clean ho' ((hr.fit.hidden ho').mpr hvis)
    simpa only [hc] using this
  · rw [hr.fresh]
    exact hr.stored h hn hst
  · have := h.dirty
    simpa only [hc] using this

theorem frame_of_core {w v : Window} (h : w.core = v.core) : w.frame = v.frame := by
  simp only [Window.core, Window.mk.injEq] at h
  simp only [Window.frame, h]

theorem exact_reshaped {A A' C G L : Set Point} {w w' : Window} (hc : w'.core = w.core)
    (h : Exact A w C) (h' : Exact A' w' C) (hg : A' ⊆ A ∪ G) (hl : A ⊆ A' ∪ L) : Reshaped G L w w' := by
  have hf := frame_of_core hc
  simp only [Window.frame, Prod.mk.injEq] at hf
  obtain ⟨ho, hp, hwk⟩ := hf
  have hopen : w.is_open = true → w.vis = region A w C ∧ w'.vis = region A' w C := by
    intro hw
    refine ⟨h.vis hw, ?_⟩
    rw [h'.vis (ho.trans hw)]
    simp only [region, hp, hwk]
  refine ⟨hc, h.fit, h'.fit, ?_, ?_⟩
  · intro q hq
    cases hw : w.is_open with
    | false => simp [h'.fit.closed (ho.trans hw)] at hq
    | true =>
      obtain ⟨hv, hv'⟩ := hopen hw
      rw [hv'] at hq
      rw [hv]
      exact (hg hq.1.1).imp (fun hA => ⟨⟨hA, hq.1.2⟩, hq.2⟩) id
  · intro q hq
    cases hw : w.is_open with
    | false => simp [h.fit.closed hw] at hq
    | true =>
      obtain ⟨hv, hv'⟩ := hopen hw
      rw [hv] at hq
      rw [hv']
      exact (hl hq.1.1).imp (fun hA => ⟨⟨hA, hq.1.2⟩, hq.2⟩) id

theorem shown_reshaped {A A' G L : Set Point} {t t' : Forest Window}
    (hc : t'.map Window.core = t.map Window.core) (h : Shown A t) (h' : Shown A' t')
    (hg : A' ⊆ A ∪ G) (hl : A ⊆ A' ∪ L) : ∀ w' ∈ t'.toList, ∃ w ∈ t.toList, Reshaped G L w w' := by
  induction t generalizing A A' t' with
  | nil =>
    cases t' with
    | nil => exact fun w hw => absurd hw List.not_mem_nil
    | node => simp [Forest.map] at hc
  | node w cs ns ihc ihn =>
    cases t' with
    | nil => simp [Forest.map] at hc
    | node w' cs' ns' =>
      simp only [Forest.map, node.injEq] at hc
      obtain ⟨hcw, hcc, hcn⟩ := hc
      have hroof : roof cs' = roof cs := by
        refine roof_congr ?_
        have := congrArg (Forest.map Window.frame) hcc
        rw [map_map, map_map] at this
        exact this
      have hf := frame_of_core hcw
      have hin : inside A' w' ⊆ inside A w ∪ G ∧ inside A w ⊆ inside A' w' ∪ L := by
        rw [inside_congr hf]
        unfold inside
        split_ifs
        · exact ⟨fun q hq => (hg hq.1).imp (fun hA => ⟨hA, hq.2⟩) id,
            fun q hq => (hl hq.1).imp (fun hA => ⟨hA, hq.2⟩) id⟩
        · simp
      have hbe : behind A' w' ⊆ behind A w ∪ G ∧ behind A w ⊆ behind A' w' ∪ L := by
        rw [behind_congr hf]
        unfold behind
        split_ifs
        · exact ⟨fun q hq => (hg hq.1).imp (fun hA => ⟨hA, hq.2⟩) id,
            fun q hq => (hl hq.1).imp (fun hA => ⟨hA, hq.2⟩) id⟩
        · exact ⟨hg, hl⟩
      have he' := h'.1
      rw [hroof] at he'
      rw [toList, toList]
      refine List.forall_mem_cons.mpr ⟨?_, List.forall_mem_append.mpr ⟨?_, ?_⟩⟩
      · exact ⟨w, List.mem_cons_self, exact_reshaped hcw h.1 he' hg hl⟩
      · intro v' hv'
        obtain ⟨v, hv, hr⟩ := ihc hcc h.2.1 h'.2.1 hin.1 hin.2 v' hv'
        exact ⟨v, List.mem_cons_of_mem _ (List.mem_append_left _ hv), hr⟩
      · intro v' hv'
        obtain ⟨v, hv, hr⟩ := ihn hcn h.2.2 h'.2.2 hbe.1 hbe.2 v' hv'
        exact ⟨v, List.mem_cons_of_mem _ (List.mem_append_right _ hv), hr⟩

variable (recs : List Rec)

theorem window_rebuild_recs_core (k : Context Window) (w : Window)
    (cs : Forest Window) : (window_rebuild_recs recs k w cs).1.core = w.core := by
  unfold window_rebuild_recs window_build_recs
  split_ifs <;> rfl

theorem visit_rebuild_core (k : Context Window) (t : Forest Window) :
    (t.visit (window_rebuild_recs recs) k).map Window.core = t.map Window.core :=
  map_visit (window_rebuild_recs_core recs) k t

def Window.store (w : Window) : Nat × Backing × Pixmap × Int × Int × Rec :=
  (w.id, w.backing, w.bitmap, w.pos.w, w.pos.h, w.dirty)

theorem Fresh.store {w v : Window} (h : Fresh g w) (hs : v.store = w.store) : Fresh g v := by
  simp only [Window.store, Prod.mk.injEq] at hs
  simpa only [Fresh, Window.bounds, hs] using h

theorem store_of_core {w v : Window} (h : w.core = v.core) : w.store = v.store := by
  simp only [Window.core, Window.mk.injEq] at h
  simp only [Window.store, h]

theorem window_move_one_store (dx dy : Int) (w : Window) : (window_move_one dx dy w).store = w.store := by
  unfold window_move_one
  split_ifs <;> rfl

theorem Fresh.pending (screen : Pixmap)
    (h : Fresh g w) (hv : w.vis ⊆ R) (hd : w.dirty.w = 0 ∨ w.dirty.Proper) : Pending g R screen w :=
  ⟨fun _ hq _ hqR => absurd (hv hq) hqR, fun _ => h, fun _ _ => .inr h, fun _ => h, hd⟩

theorem Holds.fresh_of_unseen
    (h : Holds g screen w) (hf : Fit w) (hs : w.Sound) (hv : w.vis = ∅) : Fresh g w := by
  apply h.stored
  by_contra hst
  simp only [not_or, Bool.not_eq_false, Bool.not_eq_true] at hst
  obtain ⟨ho, hh, -⟩ := hst
  have := hf.shown ho hh
  rw [hv] at this
  exact hs.not_subset_empty ho this.symm.subset

theorem save_fresh
    (hb : w.backing = .real) (h : Holds g screen w) (hf : Fit w) (hs : w.Sound)
    (hv : w.vis ⊆ rect.pts) : Fresh g (window_save_contents screen rect w) := by
  obtain ⟨hsave, hmeet⟩ := window_save_contents_spec rect hb h hf
  by_cases hne : ∃ q, q ∈ w.vis
  · obtain ⟨q, hq⟩ := hne
    exact hmeet ⟨q, hf.sub hq, hv hq⟩
  · have hvis : w.vis = ∅ := by
      ext q
      simpa using fun hq => hne ⟨q, hq⟩
    have hg := (window_save_contents_geom screen rect w).symm
    exact hsave.fresh_of_unseen (hf.congr hg) (hs.congr hg) (vis_of_geom hg ▸ hvis)

def Guarded (g : Nat → Pixmap) (L : Set Point) (screen : Pixmap) (w : Window) : Prop :=
  w.backing = .real → Holds g screen w ∧ ((∃ q ∈ w.vis, q ∈ L) → Fresh g w)

theorem HoldsReal.guarded
    (h : HoldsReal g screen w) : Guarded g ∅ screen w :=
  fun hb => ⟨h hb, fun ⟨_, _, hq⟩ => absurd hq (notMem_empty _)⟩

theorem save_backing {rect : Rec} {b : Backing} :
    (window_save_contents screen rect w).backing = b ↔ w.backing = b := by
  have := congrArg (fun p => p.2.2.2.1) (window_save_contents_static screen rect w)
  dsimp only [Window.static] at this
  rw [this]

theorem save_guarded
    (h : HoldsReal g screen w) (hf : Fit w) : Guarded g rect.pts screen (window_save_contents screen rect w) := by
  intro hb
  have hb := save_backing.mp hb
  obtain ⟨h1, h2⟩ := window_save_contents_spec rect hb (h hb) hf
  refine ⟨h1, ?_⟩
  rintro ⟨q, hq, hqr⟩
  rw [vis_of_geom (window_save_contents_geom screen rect w)] at hq
  exact h2 ⟨q, hf.sub hq, hqr⟩

theorem map_save_guarded
    (hs : Shown A t) (h : ∀ w ∈ t.toList, HoldsReal g screen w) :
    ∀ w ∈ (t.map (window_save_contents screen rect)).toList, Guarded g rect.pts screen w := by
  intro w hw
  rw [toList_map] at hw
  obtain ⟨v, hv, rfl⟩ := List.mem_map.mp hw
  exact save_guarded rect (h v hv) (shown_fit hs v hv)

theorem backing_of_core {w v : Window} (h : w.core = v.core) : w.backing = v.backing := by
  simp only [Window.core, Window.mk.injEq] at h
  simp only [h]

theorem Reshaped.ready
    {w w' : Window} (hr : Reshaped G L w w') (h : Guarded g L screen w) (hG : G ⊆ coverage rects)
    (hn : w.backing = .real → (∃ q ∈ w.vis, q ∈ coverage rects) → Fresh g w) : Ready g rects screen w' := by
  refine ⟨hr.fit', fun hb => ?_⟩
  have hb := (backing_of_core hr.core).symm.trans hb
  obtain ⟨h1, h2⟩ := h hb
  refine hr.pending h1 hG ?_
  rintro ⟨q, hq, hL | hR⟩
  · exact h2 ⟨q, hq, hL⟩
  · exact hn hb ⟨q, hq, hR⟩

theorem Reshaped.holdsReal {L : Set Point} {w w' : Window}
    (hr : Reshaped ∅ L w w') (h : Guarded g L screen w) : HoldsReal g screen w' := by
  intro hb
  obtain ⟨h1, h2⟩ := h ((backing_of_core hr.core).symm.trans hb)
  exact hr.holds h1 h2

theorem ready_behind {B B' L : Set Point}
    {t t' : Forest Window} (hc : t'.map Window.core = t.map Window.core) (hs : Sound t)
    (h : Shown B t) (h' : Shown B' t') (hg : B' ⊆ B ∪ coverage rects) (hl : B ⊆ B' ∪ L)
    (hR : ∀ q ∈ B, q ∉ coverage rects) (hh : ∀ w ∈ t.toList, Guarded g L screen w) :
    ∀ w ∈ t'.toList, Ready g rects screen w := by
  intro w' hw'
  obtain ⟨w, hw, hr⟩ := shown_reshaped hc h h' hg hl w' hw'
  refine hr.ready (hh w hw) subset_rfl ?_
  rintro - ⟨q, hq, hqR⟩
  exact absurd hqR (hR q (vis_subset hs h w hw hq).1)

theorem holds_behind {B B' L : Set Point} {t t' : Forest Window}
    (hc : t'.map Window.core = t.map Window.core) (h : Shown B t) (h' : Shown B' t') (hg : B' ⊆ B)
    (hl : B ⊆ B' ∪ L) (hh : ∀ w ∈ t.toList, Guarded g L screen w) : ∀ w ∈ t'.toList, HoldsReal g screen w := by
  intro w' hw'
  obtain ⟨w, hw, hr⟩ := shown_reshaped hc h h' (hg.trans subset_union_left) hl w' hw'
  exact hr.holdsReal (hh w hw)

theorem parent_reshaped {A C C' G L : Set Point} {p p' : Window} (hc : p'.core = p.core)
    (h : Exact A p C) (h' : Exact A p' C') (hg : C ⊆ C' ∪ G) (hl : C' ⊆ C ∪ L) : Reshaped G L p p' := by
  have hf := frame_of_core hc
  simp only [Window.frame, Prod.mk.injEq] at hf
  obtain ⟨ho, hp, hwk⟩ := hf
  have hopen : p.is_open = true → p.vis = region A p C ∧ p'.vis = region A p C' := by
    intro hw
    refine ⟨h.vis hw, ?_⟩
    rw [h'.vis (ho.trans hw)]
    simp only [region, hp, hwk]
  have hclosed : p.is_open = false → p.vis = ∅ ∧ p'.vis = ∅ :=
    fun hw => ⟨h.fit.closed hw, h'.fit.closed (ho.trans hw)⟩
  refine ⟨hc, h.fit, h'.fit, fun q hq => ?_, fun q hq => ?_⟩
  all_goals
    cases hw : p.is_open with
    | false => simp [hclosed hw] at hq
    | true =>
      obtain ⟨hv, hv'⟩ := hopen hw
      have h1 := @hg q
      have h2 := @hl q
      simp only [hv, hv', region, mem_union, mem_sdiff, mem_inter_iff] at *
      tauto

def Stored (g : Nat → Pixmap) (w : Window) : Prop :=
  w.backing = .real → Fresh g w ∧ (w.dirty.w = 0 ∨ w.dirty.Proper)

theorem Stored.store {w v : Window} (h : Stored g w) (hs : v.store = w.store) : Stored g v := by
  intro hb
  have he := hs
  simp only [Window.store, Prod.mk.injEq] at he
  obtain ⟨hf, hd⟩ := h (he.2.1.symm.trans hb)
  exact ⟨hf.store hs, by rw [he.2.2.2.2.2]; exact hd⟩

theorem stored_map {t t' : Forest Window}
    (hc : t'.map Window.store = t.map Window.store) (h : ∀ w ∈ t.toList, Stored g w) : ∀ w ∈ t'.toList, Stored g w := by
  intro w hw
  obtain ⟨v, hv, he⟩ := mem_of_map_eq hc w hw
  exact (h v hv).store he

theorem Stored.ready (screen : Pixmap)
    (h : Stored g w) (hf : Fit w) (hv : w.vis ⊆ coverage rects) : Ready g rects screen w :=
  ⟨hf, fun hb => (h hb).1.pending screen hv (h hb).2⟩

theorem map_save_stored
    (hs : Sound t) (ht : Shown A t) (hA : A ⊆ rect.pts) (h : ∀ w ∈ t.toList, HoldsReal g screen w) :
    ∀ w ∈ (t.map (window_save_contents screen rect)).toList, Stored g w := by
  intro w hw hb
  rw [toList_map] at hw
  obtain ⟨v, hv, rfl⟩ := List.mem_map.mp hw
  have hb := save_backing.mp hb
  have hf := shown_fit ht v hv
  refine ⟨save_fresh rect hb (h v hv hb) hf (hs v hv) ?_, ?_⟩
  · exact fun q hq => hA (vis_subset hs ht v hv hq).1
  · exact (window_save_contents_spec rect hb (h v hv hb) hf).1.dirty

theorem painted_scan
    {l rest : List Window} (hd : Separate Window.vis (l ++ rest))
    (hl : ∀ w ∈ l, Ready g rects screen w) (hrest : ∀ w ∈ rest, HoldsReal g screen w) :
    ∀ w ∈ (scanList (window_redraw_contents_rect D rects) screen l).2 ++ rest,
      HoldsReal g (scanList (window_redraw_contents_rect D rects) screen l).1 w := by
  obtain ⟨hdl, -, hdr⟩ := List.pairwise_append.mp hd
  refine List.forall_mem_append.mpr ⟨(redraw_local D g rects).scanList l screen hdl hl, ?_⟩
  intro w hw hb
  refine (hrest w hw hb).congr fun q hq => ?_
  exact scanList_frame (window_redraw_frame D rects) l screen q fun v hv hqv => hdr v hv w hw q hqv hq

end WWindowSystem
