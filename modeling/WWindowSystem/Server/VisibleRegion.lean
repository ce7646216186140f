import WWindowSystem.Server.Window

namespace WWindowSystem

open Forest Set

def room : Context Window → Set Point
  | [] => Set.univ
  | .prev s _ :: k => if s.is_open then room k \ s.pos.pts else room k
  | .parent p _ :: k => if p.is_open then room k ∩ p.work.pts else ∅

def inside (A : Set Point) (w : Window) : Set Point := if w.is_open then A ∩ w.work.pts else ∅

def behind (A : Set Point) (w : Window) : Set Point := if w.is_open then A \ w.pos.pts else A

def roof (t : Forest Window) : Set Point := {p | ∃ c ∈ t.roots, c.is_open = true ∧ p ∈ c.pos.pts}

def region (A : Set Point) (w : Window) (C : Set Point) : Set Point :=
  (A ∩ w.pos.pts) \ (C ∩ w.work.pts)

structure Exact (A : Set Point) (w : Window) (C : Set Point) : Prop where
  tiles : w.is_open = true → Tiles w.vis_recs (region A w C)
  hidden : w.is_open = true → (w.is_hidden = false ↔ w.pos.pts ⊆ region A w C)
  closed : w.is_open = false → w.vis_recs = []

def Shown (A : Set Point) : Forest Window → Prop
  | .nil => True
  | .node w cs ns => Exact A w (roof cs) ∧ Shown (inside A w) cs ∧ Shown (behind A w) ns

structure Window.Sound (w : Window) : Prop where
  proper : w.is_open = true → w.pos.Proper
  work_sub : w.work.pts ⊆ w.pos.pts

def Sound (t : Forest Window) : Prop := ∀ w ∈ t.toList, w.Sound

def Window.frame (w : Window) : Bool × Rec × Rec := (w.is_open, w.pos, w.work)

def Window.geom (w : Window) : (Bool × Rec × Rec) × Bool × List Rec := (w.frame, w.is_hidden, w.vis_recs)

def CtxShown : Context Window → Set Point → Prop
  | [], _ => True
  | .prev s scs :: k, C =>
    Exact (room k) s (roof scs) ∧ Shown (inside (room k) s) scs ∧
      CtxShown k ((if s.is_open then s.pos.pts else ∅) ∪ C)
  | .parent p ns :: k, C =>
    Exact (room k) p C ∧ Shown (behind (room k) p) ns ∧
      CtxShown k ((if p.is_open then p.pos.pts else ∅) ∪ roof ns)

theorem room_prev (s : Window) (scs : Forest Window) (k : Context Window) :
    room (.prev s scs :: k) = behind (room k) s := rfl

theorem room_parent (p : Window) (ns : Forest Window) (k : Context Window) :
    room (.parent p ns :: k) = inside (room k) p := rfl

variable {w : Window}

theorem sound_node {cs ns : Forest Window} : Sound (.node w cs ns) ↔ w.Sound ∧ Sound cs ∧ Sound ns := by
  simp only [Sound, toList, List.forall_mem_cons, List.forall_mem_append]

variable {t u : Forest Window}

theorem sound_append : Sound (t.append u) ↔ Sound t ∧ Sound u := by
  simp only [Sound, toList_append, List.forall_mem_append]

theorem roof_nil : roof .nil = ∅ := by simp [roof, roots]

theorem roof_node (w : Window) (cs ns : Forest Window) :
    roof (.node w cs ns) = (if w.is_open then w.pos.pts else ∅) ∪ roof ns := by
  ext p
  cases h : w.is_open <;> simp [roof, roots, h]

theorem roof_append (t u : Forest Window) : roof (t.append u) = roof t ∪ roof u := by
  ext p
  simp only [roof, roots_append, List.mem_append, mem_ofPred_eq, mem_union, or_and_right,
    exists_or]

/-- The list of rectangles tiles `S`, and the flag tells whether something of `P` is missing. -/
structure Track (P S : Set Point) (r : List Rec × Bool) : Prop where
  tiles : Tiles r.1 S
  sub : S ⊆ P
  flag : r.2 = false ↔ P ⊆ S

variable {r : List Rec × Bool} {P S : Set Point}

theorem Track.subtract (h : Track P S r) {B : Rec}
    (hB : B.Proper) :
    Track P (S \ B.pts) ((rect_list_subtract r.1 B).1, r.2 || (rect_list_subtract r.1 B).2) where
  tiles := rect_list_subtract_tiles h.tiles hB
  sub _ hp := h.sub hp.1
  flag := by
    have hc := rect_list_subtract_cut h.tiles hB
    rw [Bool.or_eq_false_iff, h.flag, ← Bool.not_eq_true, hc]
    constructor
    · rintro ⟨hP, hn⟩ p hp
      exact ⟨hP hp, fun hpB => hn ⟨p, hP hp, hpB⟩⟩
    · intro hP
      refine ⟨fun p hp => (hP hp).1, ?_⟩
      rintro ⟨p, hpS, hpB⟩
      exact (hP (h.sub hpS)).2 hpB

theorem Track.clip (h : Track P S r) (B : Rec) :
    Track P (S ∩ B.pts) ((rect_list_clip r.1 B).1, r.2 || (rect_list_clip r.1 B).2) where
  tiles := rect_list_clip_tiles h.tiles
  sub _ hp := h.sub hp.1
  flag := by
    rw [Bool.or_eq_false_iff, h.flag, ← Bool.not_eq_true, rect_list_clip_cut h.tiles]
    constructor
    · rintro ⟨hP, hn⟩ p hp
      exact ⟨hP hp, not_not.mp fun hpB => hn ⟨p, hP hp, hpB⟩⟩
    · intro hP
      refine ⟨fun p hp => (hP hp).1, ?_⟩
      rintro ⟨p, hpS, hpB⟩
      exact hpB (hP (h.sub hpS)).2

theorem Track.congr {P S T : Set Point} (h : Track P S r) (hT : S = T) :
    Track P T r := hT ▸ h

variable (k : Context Window)

theorem clipToContext_track (hopen : ∀ a ∈ ancestors k, a.is_open = true)
    (hproper : ∀ s ∈ lefts k, s.is_open = true → s.pos.Proper) (r : List Rec × Bool)
    (h : Track P S r) : Track P (S ∩ room k) (clipToContext k r) := by
  induction k generalizing S r with
  | nil => simpa [clipToContext, room] using h
  | cons c k ih =>
    cases c with
    | prev s scs =>
      have hk : ∀ s ∈ lefts k, s.is_open = true → s.pos.Proper :=
        fun s hs => hproper s (List.mem_cons_of_mem _ hs)
      cases ho : s.is_open with
      | false =>
        simp only [clipToContext, room, ho, Bool.false_eq_true, if_false]
        exact ih hopen hk r h
      | true =>
        simp only [clipToContext, room, ho, if_true]
        refine (ih hopen hk _ (h.subtract (hproper s List.mem_cons_self ho))).congr ?_
        ext p
        simp only [mem_inter_iff, mem_sdiff]
        tauto
    | parent p ns =>
      have ho : p.is_open = true := hopen p List.mem_cons_self
      simp only [clipToContext, room, ho, if_true]
      refine (ih (fun a ha => hopen a (List.mem_cons_of_mem _ ha)) hproper _
        (h.clip p.work)).congr ?_
      ext p
      simp only [mem_inter_iff]
      tauto

theorem subtractChilds_track (work : Rec) (cs : Forest Window)
    (r : List Rec × Bool) (h : Track P S r) : Track P (S \ (roof cs ∩ work.pts)) (subtractChilds work cs r) := by
  induction cs generalizing S r with
  | nil => simpa [subtractChilds, roof_nil] using h
  | node c ds ns _ ihn =>
    rw [roof_node]
    cases ho : c.is_open with
    | false =>
      simp only [subtractChilds, ho, Bool.not_false, if_true, Bool.false_eq_true, if_false,
        empty_union]
      exact ihn r h
    | true =>
      simp only [subtractChilds, ho, Bool.not_true, Bool.false_eq_true, if_false, if_true]
      cases hi : rect_intersect c.pos work with
      | none =>
        refine (ihn r h).congr ?_
        ext p
        have := rect_intersect_none.mp hi p
        simp only [mem_sdiff, mem_inter_iff, mem_union]
        tauto
      | some clipped =>
        refine (ihn _ (h.subtract (rect_intersect_proper hi))).congr ?_
        ext p
        simp only [rect_intersect_pts hi, mem_sdiff, mem_inter_iff, mem_union]
        tauto

theorem room_closed (h : ∃ a ∈ ancestors k, a.is_open = false) : room k = ∅ := by
  induction k with
  | nil => simp [ancestors] at h
  | cons c k ih =>
    cases c with
    | prev s scs => simp only [room, ih h]; split_ifs <;> simp
    | parent p ns =>
      obtain ⟨a, ha, hc⟩ := h
      simp only [room]
      rcases List.mem_cons.mp ha with rfl | ha
      · simp [hc]
      · simp [ih ⟨a, ha, hc⟩]

theorem window_build_recs_exact (w : Window) (cs : Forest Window)
    (hw : w.is_open = true) (hp : w.pos.Proper) (hl : ∀ s ∈ lefts k, s.is_open = true → s.pos.Proper) :
    Exact (room k) (window_build_recs k w cs) (roof cs) := by
  unfold window_build_recs
  rw [if_neg (by simp [hw])]
  split_ifs with hc
  · have hr : room k = ∅ := room_closed k (by simpa [List.any_eq_true] using hc)
    have he : region (room k) { w with is_hidden := true, vis_recs := [] } (roof cs) = ∅ := by
      simp [region, hr]
    refine ⟨fun _ => he ▸ .nil, fun _ => ?_, fun hn => absurd (hw.symm.trans hn) (by simp)⟩
    obtain ⟨p, hp⟩ := hp.nonempty
    simp only [Bool.true_eq_false, false_iff]
    exact fun hs => (he ▸ hs hp : p ∈ (∅ : Set Point))
  · have ho : ∀ a ∈ ancestors k, a.is_open = true := by
      simpa [List.any_eq_true] using hc
    have h0 : Track w.pos.pts w.pos.pts
        ([rect_create w.pos.x0 w.pos.y0 w.pos.w w.pos.h], false) :=
      ⟨Tiles.single (R := rect_create w.pos.x0 w.pos.y0 w.pos.w w.pos.h) hp, subset_rfl, by simp⟩
    have h := subtractChilds_track w.work cs _ (clipToContext_track k ho hl _ h0)
    have he : (w.pos.pts ∩ room k) \ (roof cs ∩ w.work.pts) = region (room k) w (roof cs) := by
      rw [region, inter_comm]
    rw [he] at h
    exact ⟨fun _ => h.tiles, fun _ => h.flag, fun hn => absurd (hw.symm.trans hn) (by simp)⟩

theorem shown_zip (t : Forest Window) :
    Shown Set.univ (zip k t) ↔ Shown (room k) t ∧ CtxShown k (roof t) := by
  induction k generalizing t with
  | nil => simp [zip, room, CtxShown]
  | cons c k ih =>
    cases c with
    | prev s scs =>
      simp only [zip, ih, Shown, CtxShown, room_prev, roof_node]
      tauto
    | parent p ns =>
      simp only [zip, ih, Shown, CtxShown, room_parent, roof_node]
      tauto

theorem shown_append (A : Set Point) (t u : Forest Window) :
    Shown A (t.append u) ↔ Shown A t ∧ Shown (A \ roof t) u := by
  induction t generalizing A with
  | nil => simp [append, Shown, roof_nil]
  | node w cs ns _ ihn =>
    have hb : behind A w \ roof ns = A \ roof (.node w cs ns) := by
      rw [roof_node, ← Set.sdiff_sdiff]
      unfold behind
      split_ifs <;> simp
    simp only [append, Shown, ihn, hb]
    tauto

theorem room_past (t : Forest Window) : room (past k t) = room k \ roof t := by
  induction t generalizing k with
  | nil => simp [past, roof_nil]
  | node w cs ns _ ihn =>
    rw [past, ihn, room_prev, roof_node, ← Set.sdiff_sdiff]
    unfold behind
    split_ifs <;> simp

theorem roof_congr (h : t.map Window.frame = u.map Window.frame) : roof t = roof u := by
  induction t generalizing u with
  | nil =>
    cases u with
    | nil => rfl
    | node => simp [Forest.map] at h
  | node w cs ns _ ihn =>
    cases u with
    | nil => simp [Forest.map] at h
    | node v ds ms =>
      simp only [Forest.map, node.injEq, Window.frame, Prod.mk.injEq] at h
      obtain ⟨⟨ho, hp, -⟩, -, hn⟩ := h
      rw [roof_node, roof_node, ho, hp, ihn hn]

theorem Exact.congr {A C : Set Point} {w v : Window} (h : w.geom = v.geom) (hw : Exact A w C) : Exact A v C := by
  simp only [Window.geom, Window.frame, Prod.mk.injEq] at h
  obtain ⟨⟨ho, hp, hwk⟩, hh, hv⟩ := h
  have hr : region A v C = region A w C := by simp only [region, hp, hwk]
  refine ⟨?_, ?_, ?_⟩
  · rw [← ho, ← hv, hr]; exact hw.tiles
  · rw [← ho, ← hh, ← hp, hr]; exact hw.hidden
  · rw [← ho, ← hv]; exact hw.closed

theorem frame_of_geom (h : t.map Window.geom = u.map Window.geom) :
    t.map Window.frame = u.map Window.frame := by
  have := congrArg (Forest.map Prod.fst) h
  rw [Forest.map_map, Forest.map_map] at this
  exact this

theorem Shown.congr {A : Set Point}
    (h : t.map Window.geom = u.map Window.geom) (ht : Shown A t) : Shown A u := by
  induction t generalizing A u with
  | nil =>
    cases u with
    | nil => trivial
    | node => simp [Forest.map] at h
  | node w cs ns ihc ihn =>
    cases u with
    | nil => simp [Forest.map] at h
    | node v ds ms =>
      simp only [Forest.map, node.injEq] at h
      obtain ⟨hw, hc, hn⟩ := h
      have hr := roof_congr (frame_of_geom hc)
      have hf := hw
      simp only [Window.geom, Window.frame, Prod.mk.injEq] at hf
      obtain ⟨⟨ho, hp, hwk⟩, -, -⟩ := hf
      have hi : inside A w = inside A v := by simp only [inside, ho, hwk]
      have hb : behind A w = behind A v := by simp only [behind, ho, hp]
      exact ⟨hr ▸ ht.1.congr hw, ihc hc (hi ▸ ht.2.1), ihn hn (hb ▸ ht.2.2)⟩

theorem Sound.congr (h : t.map Window.frame = u.map Window.frame) (ht : Sound t) : Sound u := by
  intro v hv
  have hl : u.toList.map Window.frame = t.toList.map Window.frame := by
    rw [← toList_map, ← toList_map, h]
  have hm : v.frame ∈ t.toList.map Window.frame := hl ▸ List.mem_map_of_mem hv
  obtain ⟨w, hw, hf⟩ := List.mem_map.mp hm
  simp only [Window.frame, Prod.mk.injEq] at hf
  obtain ⟨ho, hp, hwk⟩ := hf
  obtain ⟨h1, h2⟩ := ht w hw
  refine ⟨?_, ?_⟩
  · rw [← ho, ← hp]; exact h1
  · rw [← hp, ← hwk]; exact h2

theorem room_congr {k l : Context Window} (h : mapCtx Window.frame k = mapCtx Window.frame l) : room k = room l := by
  induction k generalizing l with
  | nil =>
    cases l with
    | nil => rfl
    | cons c l => cases c <;> simp [mapCtx] at h
  | cons c k ih =>
    cases l with
    | nil => cases c <;> simp [mapCtx] at h
    | cons d l =>
      cases c <;> cases d <;>
        simp only [mapCtx, List.cons.injEq, Crumb.prev.injEq, Crumb.parent.injEq, Window.frame,
          Prod.mk.injEq, reduceCtorEq, false_and] at h
      all_goals
        obtain ⟨⟨⟨ho, hp, hwk⟩, -⟩, hk⟩ := h
        simp only [room, ho, hp, hwk, ih hk]

def AgreeOff (U A B : Set Point) : Prop := ∀ p, p ∉ U → (p ∈ A ↔ p ∈ B)

def Apart (w : Window) (U : Set Point) : Prop := ∀ p, p ∈ w.pos.pts → p ∉ U

theorem Exact.off {U A B C E : Set Point} (hw : Exact A w C) (hd : Apart w U)
    (hA : AgreeOff U A B) (hC : AgreeOff U C E) : Exact B w E := by
  have hr : region A w C = region B w E := by
    ext p
    have := hd p
    have := hA p
    have := hC p
    simp only [region, mem_sdiff, mem_inter_iff]
    tauto
  exact ⟨hr ▸ hw.tiles, hr ▸ hw.hidden, hw.closed⟩

/-- What must hold of a forest before `window_rebuild_recs` visits it, when at most the points of
`U` changed their owner. -/
def Stale (U A : Set Point) : Forest Window → Prop
  | .nil => True
  | .node w cs ns =>
    (w.is_open = false → w.vis_recs = []) ∧
      (w.is_open = true → Apart w U → Exact A w (roof cs) ∧ Shown (inside A w) cs) ∧
      (w.is_open = false ∨ ¬ Apart w U → Stale U (inside A w) cs) ∧ Stale U (behind A w) ns

def coverage (recs : List Rec) : Set Point := {p | ∃ r ∈ recs, p ∈ r.pts}

theorem any_intersect {recs : List Rec} :
    recs.any (fun rp => (rect_intersect w.pos rp).isSome) = true ↔ ¬ Apart w (coverage recs) := by
  simp only [List.any_eq_true, rect_intersect_isSome, Apart, coverage, mem_ofPred_eq]
  push Not
  constructor
  · rintro ⟨r, hr, p, hp, hq⟩
    exact ⟨p, hp, r, hr, hq⟩
  · rintro ⟨p, hp, r, hr, hq⟩
    exact ⟨r, hr, p, hp, hq⟩

theorem window_build_recs_frame (w : Window) (cs : Forest Window) :
    (window_build_recs k w cs).frame = w.frame := by
  unfold window_build_recs
  split_ifs <;> rfl

variable (recs : List Rec)

theorem window_rebuild_recs_frame (k : Context Window) (w : Window)
    (cs : Forest Window) : (window_rebuild_recs recs k w cs).1.frame = w.frame := by
  unfold window_rebuild_recs
  split_ifs
  · rfl
  · exact window_build_recs_frame k w cs
  · rfl

theorem inside_congr {A : Set Point} {w v : Window} (h : w.frame = v.frame) : inside A w = inside A v := by
  simp only [Window.frame, Prod.mk.injEq] at h
  simp only [inside, h.1, h.2.2]

theorem behind_congr {A : Set Point} {w v : Window} (h : w.frame = v.frame) : behind A w = behind A v := by
  simp only [Window.frame, Prod.mk.injEq] at h
  simp only [behind, h.1, h.2.1]

theorem window_rebuild_recs_exact (k : Context Window) (w : Window)
    (cs : Forest Window) (hw : w.Sound) (hl : ∀ s ∈ lefts k, s.is_open = true → s.pos.Proper)
    (hc : w.is_open = false → w.vis_recs = [])
    (hskip : w.is_open = true → Apart w (coverage recs) → Exact (room k) w (roof cs)) :
    Exact (room k) (window_rebuild_recs recs k w cs).1 (roof cs) := by
  unfold window_rebuild_recs
  cases ho : w.is_open with
  | false =>
    rw [if_pos (by rfl)]
    exact ⟨by simp [ho], by simp [ho], hc⟩
  | true =>
    rw [if_neg (by simp)]
    split_ifs with hi
    · exact window_build_recs_exact k w cs ho (hw.proper ho) hl
    · exact hskip ho (by rwa [any_intersect, not_not] at hi)

theorem visit_rebuild_frame (k : Context Window) (t : Forest Window) :
    (t.visit (window_rebuild_recs recs) k).map Window.frame = t.map Window.frame :=
  map_visit (fun k w cs => window_rebuild_recs_frame recs k w cs) k t

theorem visit_rebuild_shown (k : Context Window) (t : Forest Window)
    (hs : Sound t) (hl : ∀ s ∈ lefts k, s.is_open = true → s.pos.Proper) (ht : Stale (coverage recs) (room k) t) :
    Shown (room k) (t.visit (window_rebuild_recs recs) k) := by
  induction t generalizing k with
  | nil => trivial
  | node w cs ns ihc ihn =>
    obtain ⟨hw, hcs, hns⟩ := sound_node.mp hs
    obtain ⟨hc, hskip, hdown, hnext⟩ := ht
    have hf := window_rebuild_recs_frame recs k w cs
    have hexact := window_rebuild_recs_exact recs k w cs hw hl hc fun ho ha => (hskip ho ha).1
    simp only [Forest.visit]
    refine ⟨?_, ?_, ?_⟩
    · split_ifs
      · exact hexact
      · rw [roof_congr (visit_rebuild_frame recs _ cs)]
        exact hexact
    · split_ifs with hr
      · rw [inside_congr hf]
        obtain ⟨ho, ha⟩ : w.is_open = true ∧ Apart w (coverage recs) := by
          unfold window_rebuild_recs at hr
          split_ifs at hr with ho ha
          exact ⟨by simpa using ho, by rwa [any_intersect, not_not] at ha⟩
        exact (hskip ho ha).2
      · rw [← room_parent _ ns]
        refine ihc _ hcs hl ?_
        rw [room_parent, inside_congr hf]
        refine hdown ?_
        by_contra hn
        push Not at hn
        apply hr
        unfold window_rebuild_recs
        rw [if_neg (by simpa using hn.1), if_neg (by rw [any_intersect, not_not]; exact hn.2)]
    · refine ihn (.prev _ _ :: k) hns ?_ ?_
      · intro s hs ho
        rcases List.mem_cons.mp hs with rfl | hs
        · simp only [Window.frame, Prod.mk.injEq] at hf
          rw [hf.2.1]
          exact hw.proper (hf.1 ▸ ho)
        · exact hl s hs ho
      · rw [room_prev, behind_congr hf]
        exact hnext

variable {U A B : Set Point}

theorem AgreeOff.inside (h : AgreeOff U A B) (w : Window) :
    AgreeOff U (inside A w) (inside B w) := by
  intro p hp
  have := h p hp
  unfold WWindowSystem.inside
  split_ifs
  · simp only [mem_inter_iff, this]
  · rfl

theorem AgreeOff.behind (h : AgreeOff U A B) (w : Window) :
    AgreeOff U (behind A w) (behind B w) := by
  intro p hp
  have := h p hp
  unfold WWindowSystem.behind
  split_ifs
  · simp only [mem_sdiff, this]
  · exact this

theorem inside_apart (hw : w.Sound) (hd : Apart w U)
    (h : AgreeOff U A B) : inside A w = inside B w := by
  unfold inside
  split_ifs
  · ext p
    have h1 := hd p
    have h2 := @hw.work_sub p
    have h3 := h p
    simp only [mem_inter_iff]
    tauto
  · rfl

theorem Shown.stale {t : Forest Window} (hs : Sound t) (ht : Shown A t)
    (h : AgreeOff U A B) : Stale U B t := by
  induction t generalizing A B with
  | nil => trivial
  | node w cs ns ihc ihn =>
    obtain ⟨hw, hcs, hns⟩ := sound_node.mp hs
    obtain ⟨he, hc, hn⟩ := ht
    refine ⟨he.closed, fun _ hd => ⟨?_, ?_⟩, fun _ => ihc hcs hc (h.inside w), ihn hns hn (h.behind w)⟩
    · exact he.off hd h fun p _ => Iff.rfl
    · rwa [← inside_apart hw hd h]

theorem region_empty {A C : Set Point} (h : ∀ p, p ∈ A → p ∉ w.pos.pts) : region A w C = ∅ := by
  ext p
  have := h p
  simp only [region, mem_sdiff, mem_inter_iff, mem_empty_iff_false, iff_false]
  tauto

theorem Window.Sound.not_subset_empty (hw : w.Sound) (ho : w.is_open = true) : ¬ w.pos.pts ⊆ ∅ := by
  obtain ⟨p, hp⟩ := (hw.proper ho).nonempty
  exact fun h => h hp

theorem Exact.empty_iff {A C : Set Point} (hw : w.Sound) (h : region A w C = ∅) :
    Exact A w C ↔ w.vis_recs = [] ∧ (w.is_open = true → w.is_hidden = true) := by
  constructor
  · intro he
    cases ho : w.is_open with
    | false => exact ⟨he.closed ho, by simp⟩
    | true =>
      refine ⟨(h ▸ he.tiles ho).eq_nil, fun _ => ?_⟩
      have := he.hidden ho
      rw [h, iff_false_right (hw.not_subset_empty ho)] at this
      simpa using this
  · rintro ⟨hv, hh⟩
    refine ⟨fun _ => by rw [h, hv]; exact .nil, fun ho => ?_, fun _ => hv⟩
    rw [h, hh ho]
    simpa using hw.not_subset_empty ho

theorem window_move_one_sound (dx dy : Int) (hw : w.Sound) : (window_move_one dx dy w).Sound := by
  unfold window_move_one
  split_ifs with ho
  · refine ⟨fun _ => hw.proper ho, fun p hp => ?_⟩
    exact Rec.mem_shift.mpr (hw.work_sub (Rec.mem_shift.mp hp))
  · exact hw

theorem sound_map {f : Window → Window} (hf : ∀ w : Window, w.Sound → (f w).Sound) {t : Forest Window}
    (ht : Sound t) : Sound (t.map f) := by
  intro w hw
  rw [toList_map] at hw
  obtain ⟨v, hv, rfl⟩ := List.mem_map.mp hw
  exact hf v (ht v hv)

@[simp] theorem window_move_one_open (dx dy : Int) (w : Window) : (window_move_one dx dy w).is_open = w.is_open := by
  unfold window_move_one; split_ifs <;> rfl

@[simp] theorem window_move_one_hidden (dx dy : Int) (w : Window) :
    (window_move_one dx dy w).is_hidden = w.is_hidden := by
  unfold window_move_one; split_ifs <;> rfl

@[simp] theorem window_move_one_recs (dx dy : Int) (w : Window) : (window_move_one dx dy w).vis_recs = w.vis_recs := by
  unfold window_move_one; split_ifs <;> rfl

theorem inside_empty (w : Window) : inside ∅ w = ∅ := by simp [inside]

theorem behind_empty (w : Window) : behind ∅ w = ∅ := by simp [behind]

theorem Shown.move_empty {dx dy : Int} {t : Forest Window} (hs : Sound t) (ht : Shown ∅ t) :
    Shown ∅ (t.map (window_move_one dx dy)) := by
  induction t with
  | nil => trivial
  | node w cs ns ihc ihn =>
    obtain ⟨hw, hcs, hns⟩ := sound_node.mp hs
    rw [Shown, inside_empty, behind_empty] at ht
    rw [Forest.map, Shown, inside_empty, behind_empty]
    refine ⟨?_, ihc hcs ht.2.1, ihn hns ht.2.2⟩
    have := (Exact.empty_iff hw (region_empty (by simp))).mp ht.1
    rw [Exact.empty_iff (window_move_one_sound dx dy hw) (region_empty (by simp))]
    simpa using this

theorem Shown.move_stale {dx dy : Int} {t : Forest Window} (hs : Sound t)
    (ht : Shown A t) (hA : ∀ p, p ∈ A → (p.1 + dx, p.2 + dy) ∈ U) (hB : B ⊆ U) :
    Stale U B (t.map (window_move_one dx dy)) := by
  induction t generalizing A B with
  | nil => trivial
  | node w cs ns ihc ihn =>
    obtain ⟨hw, hcs, hns⟩ := sound_node.mp hs
    obtain ⟨he, hc, hn⟩ := ht
    have hiA : inside A w ⊆ A := by unfold inside; split_ifs <;> simp
    have hbA : behind A w ⊆ A := by
      unfold behind; split_ifs; exacts [sdiff_subset, subset_rfl]
    have hiB : inside B (window_move_one dx dy w) ⊆ B := by
      unfold inside; split_ifs <;> simp
    have hbB : behind B (window_move_one dx dy w) ⊆ B := by
      unfold behind; split_ifs; exacts [sdiff_subset, subset_rfl]
    refine ⟨?_, fun ho hd => ?_, fun _ => ?_, ?_⟩
    · simpa using he.closed
    · rw [window_move_one_open] at ho
      -- the window was outside of `A` and is now outside of `B`
      have hnA : ∀ p, p ∈ A → p ∉ w.pos.pts := by
        intro p hp hq
        refine hd (p.1 + dx, p.2 + dy) ?_ (hA p hp)
        rw [window_move_one, if_pos ho]
        exact Rec.mem_shift.mpr (by simpa using hq)
      have hnB : ∀ p, p ∈ B → p ∉ (window_move_one dx dy w).pos.pts := fun p hp hq => hd p hq (hB hp)
      have hiA0 : inside A w = ∅ := by
        ext p
        have h1 := hnA p
        have h2 := @hw.work_sub p
        simp only [inside, ho, if_true, mem_inter_iff, mem_empty_iff_false, iff_false]
        tauto
      have hiB0 : inside B (window_move_one dx dy w) = ∅ := by
        ext p
        have h1 := hnB p
        have h2 := @(window_move_one_sound dx dy hw).work_sub p
        simp only [inside, window_move_one_open, ho, if_true, mem_inter_iff,
          mem_empty_iff_false, iff_false]
        tauto
      refine ⟨?_, ?_⟩
      · have := (Exact.empty_iff hw (region_empty hnA)).mp he
        rw [Exact.empty_iff (window_move_one_sound dx dy hw) (region_empty hnB)]
        simpa using this
      · rw [hiB0]
        exact (hiA0 ▸ hc).move_empty hcs
    · exact ihc hcs hc (fun p hp => hA p (hiA hp)) (hiB.trans hB)
    · exact ihn hns hn (fun p hp => hA p (hbA hp)) (hbB.trans hB)

end WWindowSystem
