import WWindowSystem.Graph.Circle

namespace WWindowSystem.Graph

structure Borders where
  dxi : Int
  dyi : Int
  dxo : Int
  canvas : Canvas

def halves (x0 y0 dxi dyi dxo : Int) (s : Canvas) : Canvas :=
  (((s.draw (.hline (x0 - dxo) (y0 - dyi) (x0 - dxi))).draw (.hline (x0 + dxi) (y0 - dyi) (x0 + dxo))).draw
    (.hline (x0 - dxo) (y0 + dyi) (x0 - dxi))).draw (.hline (x0 + dxi) (y0 + dyi) (x0 + dxo))

def bordersTurn (n : Nat) (x0 y0 : Int) (outi outo : Int → Int → Option Bool) (s : Borders) : Borders ⊕ Option Borders :=
  if s.dxi > 0 then
    let dyi := s.dyi + 1
    match (runLoop (shrinkTurn fun dx => outi dx dyi) n s.dxi).join with
    | none => .inr none
    | some dxi =>
      match longs [x0 - s.dxo, x0 - dxi, x0 + dxi, x0 + s.dxo, y0 - dyi, y0 + dyi] with
      | none => .inr none
      | some _ =>
        match (runLoop (shrinkTurn fun dx => outo dx dyi) n s.dxo).join with
        | none => .inr none
        | some dxo => .inl ⟨dxi, dyi, dxo, halves x0 y0 dxi dyi s.dxo s.canvas⟩
  else .inr (some s)

def capTurn (n : Nat) (x0 y0 : Int) (out : Int → Int → Option Bool) (s : Rows) : Rows ⊕ Option Rows :=
  if s.dx > 0 then rowsTurn n x0 y0 out s else .inr (some s)

def firstRows (n : Nat) (x0 y0 dxi dyi dxo : Int) (outi outo : Int → Int → Option Bool) (t : Canvas) : Option Rows :=
  if dxi > 0 ∧ dyi > 0 then do
    longs [x0 - dxi, x0 + dxi]
    let t := (t.draw (.hline (x0 - dxo) y0 (x0 - dxi))).draw (.hline (x0 + dxi) y0 (x0 + dxo))
    let b ← (runLoop (bordersTurn n x0 y0 outi outo) n ⟨dxi, 0, dxo, t⟩).join
    return ⟨b.dxo, b.dyi, b.canvas⟩
  else some ⟨dxo, 0, t.draw (.hline (x0 - dxo) y0 (x0 + dxo))⟩

def tellipse (n : Nat) (linewidth x0 y0 rx ry : Int) (s : Canvas) : Option Canvas := do
  let th := linewidth / 2
  let dxo := rx + th
  let dyo := ry + th
  if dxo = 0 ∨ dyo = 0 then return s
  longs ([x0 - dxo, x0 - dxo - 1, y0 - dyo, y0 - dyo - 1, dxo + dxo, dxo + dxo + 2, dyo + dyo, dyo + dyo + 2, x0 + dxo] ++
    boxValues (x0 - dxo - 1) (y0 - dyo - 1) (dxo + dxo + 2) (dyo + dyo + 2) s.glob_clip0)
  let t := unclipped s (x0 - dxo - 1) (y0 - dyo - 1) (dxo + dxo + 2) (dyo + dyo + 2)
  let dxi := rx - th
  let dyi := ry - th
  longs [dxi * dxi, dyi * dyi, dxi * dxi * (dyi * dyi), dxo * dxo, dyo * dyo, dxo * dxo * (dyo * dyo)]
  let outi := ellipseOut (dxi * dxi) (dyi * dyi) (dxi * dxi * (dyi * dyi))
  let outo := ellipseOut (dxo * dxo) (dyo * dyo) (dxo * dxo * (dyo * dyo))
  let e ← firstRows n x0 y0 dxi dyi dxo outi outo t
  let e ← (runLoop (capTurn n x0 y0 outo) n e).join
  return { e.canvas with glob_clip0 := s.glob_clip0 }

def Canvas.Within (inside : Int → Int → Prop) (x0 y0 : Int) (s : Canvas) : Prop :=
  ∀ p, s.hits p ≤ 1 ∧ (0 < s.hits p → inside (p.1 - x0) (p.2 - y0))

variable {inside : Int → Int → Prop} {n : Nat} {x0 y0 rx ry : Int} {out : Int → Int → Option Bool}

theorem Rows.Drawn.within {s : Rows} (h : s.Drawn inside x0 y0) : s.canvas.Within inside x0 y0 := by
  intro p
  rcases h.rows p with ⟨hc, -, hin⟩ | ⟨hc, -⟩
  · exact ⟨hc.le, fun _ => hin⟩
  · exact ⟨by omega, fun hpos => by omega⟩

theorem cap_run (hs : Spread inside) {s : Rows} (h : s.Drawn inside x0 y0) (hrx : s.dx ≤ rx) (hry : ∀ v, inside 0 v ↔ |v| ≤ ry)
    (hone : ∀ v, inside 1 v → |v| < ry)
    (hout : ∀ d e, 0 ≤ d → d ≤ rx → 0 ≤ e → e ≤ ry → ∃ b, out d e = some b ∧ (b = true ↔ ¬ inside d e))
    (hx : -2 ^ 63 ≤ x0 - rx ∧ x0 + rx < 2 ^ 63) (hy : -2 ^ 63 ≤ y0 - ry ∧ y0 + ry < 2 ^ 63)
    (hn : rx.toNat < n) (hm : ry.toNat < n) :
    ∃ t : Rows, runLoop (capTurn n x0 y0 out) n s = some (some t) ∧ t.Drawn inside x0 y0 := by
  have hloop : ∃ r, runLoop (capTurn n x0 y0 out) n s = some r ∧ ∃ t : Rows, r = some t ∧ t.Drawn inside x0 y0 := by
    apply runLoop_spec (fun s : Rows => s.Drawn inside x0 y0 ∧ s.dx ≤ rx) (fun s => (ry - s.dy).toNat) _ _ _ ⟨h, hrx⟩
    · have := h.nonneg
      omega
    · rintro s s' ⟨hd, hle⟩ hturn
      unfold capTurn at hturn
      split_ifs at hturn with h0
      obtain ⟨t, ht, hdrawn, htx, hlt⟩ := rows_turn hs hd hle hry hone hout hx hy hn (by omega)
      rw [ht] at hturn
      obtain rfl := Sum.inl.inj hturn
      exact ⟨⟨hdrawn, htx⟩, hlt⟩
    · rintro s r ⟨hd, hle⟩ hturn
      unfold capTurn at hturn
      split_ifs at hturn with h0
      · obtain ⟨t, ht, -⟩ := rows_turn hs hd hle hry hone hout hx hy hn (by omega)
        rw [ht] at hturn
        cases hturn
      · obtain rfl := Sum.inr.inj hturn
        exact ⟨s, rfl, hd⟩
  obtain ⟨_, hr, t, rfl, ht⟩ := hloop
  exact ⟨t, hr, ht⟩

theorem hits_le_draw (s : Canvas) (c : Stroke) (p : Point) : s.hits p ≤ (s.draw c).hits p := by
  rw [Canvas.hits_draw]
  omega

theorem cap_hits {s : Rows} {t : Rows} {p : Point} {k : Nat} (h : runLoop (capTurn n x0 y0 out) n s = some (some t))
    (hk : k ≤ s.canvas.hits p) : k ≤ t.canvas.hits p := by
  have hkeep : ∀ r : Option Rows, runLoop (capTurn n x0 y0 out) n s = some r → ∀ t ∈ r, k ≤ t.canvas.hits p := by
    intro r hr
    apply runLoop_keeps (fun s : Rows => k ≤ s.canvas.hits p) _ _ _ hr hk
    · intro s s' hs hturn
      simp only [capTurn, rowsTurn] at hturn
      split_ifs at hturn
      split at hturn
      · cases hturn
      · split at hturn
        · cases hturn
        · obtain rfl := Sum.inl.inj hturn
          exact (hs.trans (hits_le_draw _ _ p)).trans (hits_le_draw _ _ p)
    · intro s r hs hturn
      have hend : Sum.inr (some s) = (Sum.inr r : Rows ⊕ Option Rows) → ∀ t ∈ r, k ≤ t.canvas.hits p := by
        intro heq
        obtain rfl := Sum.inr.inj heq
        simpa using hs
      simp only [capTurn, rowsTurn] at hturn
      split_ifs at hturn
      · exact hend hturn
      · split at hturn
        · cases hturn
          simp
        · split at hturn
          · cases hturn
            simp
          · cases hturn
      · exact hend hturn
  exact hkeep _ h t rfl

structure Borders.Measured (insidei insideo : Int → Int → Prop) (s : Borders) : Prop where
  nonneg : 0 ≤ s.dyi
  inner : Extent insidei s.dxi s.dyi
  outer : Extent insideo s.dxo s.dyi
  twice : s.dxi = 0 → ∃ p, 2 ≤ s.canvas.hits p

theorem halves_twice (x0 y0 dyi : Int) {dxo : Int} (h : 0 ≤ dxo) (s : Canvas) : ∃ p, 2 ≤ (halves x0 y0 0 dyi dxo s).hits p := by
  refine ⟨(x0, y0 - dyi), ?_⟩
  have hleft : (Stroke.hline (x0 - dxo) (y0 - dyi) (x0 - 0)).passes (x0, y0 - dyi) = true := by
    simp only [Stroke.passes, Bool.decide_and, Bool.and_eq_true, decide_eq_true_eq, true_and]
    omega
  have hright : (Stroke.hline (x0 + 0) (y0 - dyi) (x0 + dxo)).passes (x0, y0 - dyi) = true := by
    simp only [Stroke.passes, Bool.decide_and, Bool.and_eq_true, decide_eq_true_eq, true_and]
    omega
  rw [halves]
  refine le_trans ?_ ((hits_le_draw _ _ _).trans (hits_le_draw _ _ _))
  rw [Canvas.hits_draw, Canvas.hits_draw, if_pos hleft, if_pos hright]
  omega

variable {rxi ryi rxo ryo : Int} {outi outo : Int → Int → Option Bool} {insidei insideo : Int → Int → Prop}

theorem borders_run (hsi : Spread insidei) (hso : Spread insideo) {s : Borders} (h : s.Measured insidei insideo)
    (hdxi : s.dxi ≤ rxi) (hdxo : s.dxo ≤ rxo) (hri : ∀ v, insidei 0 v ↔ |v| ≤ ryi) (hro : ∀ v, insideo 0 v ↔ |v| ≤ ryo)
    (hle : ryi ≤ ryo) (hone : ∀ v, insidei 1 v → |v| < ryi)
    (houti : ∀ d e, 0 ≤ d → d ≤ rxi → 0 ≤ e → e ≤ ryi → ∃ b, outi d e = some b ∧ (b = true ↔ ¬ insidei d e))
    (houto : ∀ d e, 0 ≤ d → d ≤ rxo → 0 ≤ e → e ≤ ryo → ∃ b, outo d e = some b ∧ (b = true ↔ ¬ insideo d e))
    (hni : rxi.toNat < n) (hno : rxo.toNat < n) {b : Option Borders}
    (hb : runLoop (bordersTurn n x0 y0 outi outo) n s = some b) : ∀ t ∈ b, ∃ p, 2 ≤ t.canvas.hits p := by
  apply runLoop_keeps (fun s : Borders => s.Measured insidei insideo ∧ s.dxi ≤ rxi ∧ s.dxo ≤ rxo) _ _ _ hb ⟨h, hdxi, hdxo⟩
  · rintro s s' ⟨hm, hi, ho⟩ hturn
    simp only [bordersTurn] at hturn
    split_ifs at hturn with h0
    have hdy := hm.nonneg
    -- the hole is wider than one column, so it has another row
    have hin : insidei 1 s.dyi := hsi _ _ _ _ (by
      rw [abs_of_nonneg hm.inner.nonneg, abs_of_nonneg (by decide : (0 : Int) ≤ 1)]
      omega) le_rfl hm.inner.last
    have hlt := hone _ hin
    rw [abs_of_nonneg hdy] at hlt
    have hnext : |s.dyi + 1| = s.dyi + 1 := abs_of_nonneg (by omega)
    obtain ⟨d, hd, hext, hdle⟩ := shrink_row (n := n) hsi hm.inner hdy ((hri _).mpr (by rw [hnext]; omega))
      (fun d h0 hd => houti d (s.dyi + 1) h0 (by omega) (by omega) (by omega)) (by omega)
    obtain ⟨e, he, heext, hele⟩ := shrink_row (n := n) hso hm.outer hdy ((hro _).mpr (by rw [hnext]; omega))
      (fun d h0 hd => houto d (s.dyi + 1) h0 (by omega) (by omega) (by omega)) (by omega)
    simp only [hd, he, Option.join_some] at hturn
    split at hturn
    · cases hturn
    · obtain rfl := Sum.inl.inj hturn
      refine ⟨⟨by simp only; omega, hext, heext, ?_⟩, by simp only; omega, by simp only; omega⟩
      rintro rfl
      exact halves_twice x0 y0 (s.dyi + 1) hm.outer.nonneg s.canvas
  · rintro s r ⟨hm, hi, ho⟩ hturn
    simp only [bordersTurn] at hturn
    split_ifs at hturn with h0
    · split at hturn
      · cases hturn
        simp
      · split at hturn
        · cases hturn
          simp
        · split at hturn
          · cases hturn
            simp
          · cases hturn
    · obtain rfl := Sum.inr.inj hturn
      have := hm.inner.nonneg
      simpa using hm.twice (by omega)

variable {cl : Option Rec} {linewidth : Int}

theorem thick_run (hcl : ClipShorts cl) (hc : Center x0 y0) (hl : 1 < linewidth ∧ linewidth ≤ 32767)
    (hx : 0 ≤ rx ∧ rx ≤ 32767) (hy : 0 ≤ ry ∧ ry ≤ 32767) : ∃ t : Canvas, (∀ p, t.hits p = 0) ∧
      tellipse n linewidth x0 y0 rx ry ⟨cl, []⟩ =
        (firstRows n x0 y0 (rx - linewidth / 2) (ry - linewidth / 2) (rx + linewidth / 2)
          (ellipseOut ((rx - linewidth / 2) * (rx - linewidth / 2)) ((ry - linewidth / 2) * (ry - linewidth / 2))
            ((rx - linewidth / 2) * (rx - linewidth / 2) * ((ry - linewidth / 2) * (ry - linewidth / 2))))
          (ellipseOut ((rx + linewidth / 2) * (rx + linewidth / 2)) ((ry + linewidth / 2) * (ry + linewidth / 2))
            ((rx + linewidth / 2) * (rx + linewidth / 2) * ((ry + linewidth / 2) * (ry + linewidth / 2)))) t).bind fun e =>
        (runLoop (capTurn n x0 y0 (ellipseOut ((rx + linewidth / 2) * (rx + linewidth / 2))
          ((ry + linewidth / 2) * (ry + linewidth / 2))
          ((rx + linewidth / 2) * (rx + linewidth / 2) * ((ry + linewidth / 2) * (ry + linewidth / 2))))) n e).join.bind
        fun e => some { e.canvas with glob_clip0 := cl } := by
  obtain ⟨th, hth⟩ : ∃ th, th = linewidth / 2 := ⟨_, rfl⟩
  have hth1 : 1 ≤ th ∧ th ≤ 16383 := by omega
  obtain ⟨hx1, hx2, hy1, hy2⟩ := hc
  have hbox : longs ([x0 - (rx + th), x0 - (rx + th) - 1, y0 - (ry + th), y0 - (ry + th) - 1, rx + th + (rx + th),
      rx + th + (rx + th) + 2, ry + th + (ry + th), ry + th + (ry + th) + 2, x0 + (rx + th)] ++
      boxValues (x0 - (rx + th) - 1) (y0 - (ry + th) - 1) (rx + th + (rx + th) + 2) (ry + th + (ry + th) + 2) cl) = some () := by
    have hends : ∀ z ∈ [x0 - (rx + th), x0 - (rx + th) - 1, y0 - (ry + th), y0 - (ry + th) - 1, rx + th + (rx + th),
        rx + th + (rx + th) + 2, ry + th + (ry + th), ry + th + (ry + th) + 2, x0 + (rx + th)], -2 ^ 63 ≤ z ∧ z < 2 ^ 63 := by
      simp only [List.forall_mem_cons, List.not_mem_nil, false_imp_iff, implies_true, and_true]
      omega
    apply longs_eq
    intro z hz
    rcases List.mem_append.mp hz with hz | hz
    · exact hends z hz
    · exact boxValues_longs hcl (by omega) (by omega) (by omega) (by omega) z hz
  have hsquares : longs [(rx - th) * (rx - th), (ry - th) * (ry - th), (rx - th) * (rx - th) * ((ry - th) * (ry - th)),
      (rx + th) * (rx + th), (ry + th) * (ry + th), (rx + th) * (rx + th) * ((ry + th) * (ry + th))] = some () := by
    have hsq : ∀ {d : Int}, -49150 ≤ d → d ≤ 49150 → d * d ≤ 2415722500 := by
      intro d h1 h2
      rcases le_total 0 d with h0 | h0
      · exact square_thick h0 h2
      · rw [← neg_mul_neg]
        exact square_thick (by omega) (by omega)
    have hprod : ∀ {d e : Int}, -49150 ≤ d → d ≤ 49150 → -49150 ≤ e → e ≤ 49150 → d * d * (e * e) ≤ 5835715197006250000 := by
      intro d e h1 h2 h3 h4
      calc d * d * (e * e) ≤ 2415722500 * (e * e) := mul_le_mul_of_nonneg_right (hsq h1 h2) (mul_self_nonneg e)
        _ ≤ 2415722500 * 2415722500 := mul_le_mul_of_nonneg_left (hsq h3 h4) (by decide)
        _ = 5835715197006250000 := by decide
    have h1 := hsq (d := rx - th) (by omega) (by omega)
    have h2 := hsq (d := ry - th) (by omega) (by omega)
    have h3 := hsq (d := rx + th) (by omega) (by omega)
    have h4 := hsq (d := ry + th) (by omega) (by omega)
    have h5 := hprod (d := rx - th) (e := ry - th) (by omega) (by omega) (by omega) (by omega)
    have h6 := hprod (d := rx + th) (e := ry + th) (by omega) (by omega) (by omega) (by omega)
    have n1 := mul_self_nonneg (rx - th)
    have n2 := mul_self_nonneg (ry - th)
    have n3 := mul_self_nonneg (rx + th)
    have n4 := mul_self_nonneg (ry + th)
    have n5 := mul_nonneg n1 n2
    have n6 := mul_nonneg n3 n4
    apply longs_eq
    simp only [List.forall_mem_cons, List.not_mem_nil, false_imp_iff, implies_true, and_true]
    omega
  refine ⟨unclipped ⟨cl, []⟩ (x0 - (rx + th) - 1) (y0 - (ry + th) - 1) (rx + th + (rx + th) + 2) (ry + th + (ry + th) + 2),
    fun p => by rw [Canvas.hits, unclipped_calls]; rfl, ?_⟩
  rw [← hth]
  simp only [tellipse, ← hth, if_neg (show ¬ (rx + th = 0 ∨ ry + th = 0) by omega), hbox, hsquares, Option.bind_eq_bind,
    Option.bind_some]
  rfl

/-- The ring is drawn well exactly when there is no hole in it. -/
theorem tellipse_exact_iff (cl : Option Rec) (hcl : ClipShorts cl) (linewidth x0 y0 rx ry : Int) (hc : Center x0 y0)
    (hl : 1 < linewidth ∧ linewidth ≤ 32767) (hx : 0 ≤ rx ∧ rx ≤ 32767) (hy : 0 ≤ ry ∧ ry ≤ 32767) :
    (∃ m, ∀ n ≥ m, ∃ s, tellipse n linewidth x0 y0 rx ry ⟨cl, []⟩ = some s ∧
      s.Within (InEllipse (rx + linewidth / 2) (ry + linewidth / 2)) x0 y0) ↔ rx ≤ linewidth / 2 ∨ ry ≤ linewidth / 2 := by
  have hth : 1 ≤ linewidth / 2 ∧ linewidth / 2 ≤ 16383 := by omega
  constructor
  · rintro ⟨m, hall⟩
    by_contra hhole
    obtain ⟨s, hs, hwithin⟩ := hall (max m 49151) (le_max_left _ _)
    obtain ⟨t, -, ht⟩ := thick_run (n := max m 49151) hcl hc hl hx hy
    rw [ht] at hs
    generalize linewidth / 2 = th at hs hhole hth
    obtain ⟨e, he, hs⟩ := Option.bind_eq_some_iff.mp hs
    obtain ⟨f, hf, hs⟩ := Option.bind_eq_some_iff.mp hs
    obtain rfl := Option.some.inj hs
    have htwice : ∃ p, 2 ≤ e.canvas.hits p := by
      unfold firstRows at he
      rw [if_pos (by omega)] at he
      simp only [Option.bind_eq_bind] at he
      obtain ⟨-, -, he⟩ := Option.bind_eq_some_iff.mp he
      obtain ⟨b, hb, he⟩ := Option.bind_eq_some_iff.mp he
      obtain rfl := Option.some.inj he
      refine borders_run (ellipse_spread (rx - th) (ry - th)) (ellipse_spread (rx + th) (ry + th)) ?_ (le_refl (rx - th)) (le_refl (rx + th))
        (ellipse_zero (by omega) (by omega)) (ellipse_zero (by omega) (by omega)) (by omega) (fun v => ellipse_one (by omega) (by omega) v)
        (fun d e h1 h2 h3 h4 => ellipseOut_iff (by omega) (by omega) h1 h2 h3 h4)
        (fun d e h1 h2 h3 h4 => ellipseOut_iff (by omega) (by omega) h1 h2 h3 h4) (by omega) (by omega)
        (Option.join_eq_some_iff.mp hb) b rfl
      exact ⟨le_rfl, ellipse_extent (by omega) (by omega), ellipse_extent (by omega) (by omega), fun h => by simp only at h; omega⟩
    obtain ⟨p, hp⟩ := htwice
    have := cap_hits (Option.join_eq_some_iff.mp hf) hp
    have hone := (hwithin p).1
    rw [Canvas.hits_clip] at hone
    omega
  · intro hsolid
    refine ⟨49151, fun n hn => ?_⟩
    obtain ⟨t, ht, hrun⟩ := thick_run (n := n) hcl hc hl hx hy
    obtain ⟨hx1, hx2, hy1, hy2⟩ := hc
    rw [hrun]
    generalize linewidth / 2 = th at hsolid hth ⊢
    have hstart := rows_start x0 y0 (ellipse_spread (rx + th) (ry + th)) (ellipse_extent (by omega) (by omega)) ht
    obtain ⟨e, he, hdrawn⟩ := cap_run (n := n) (ellipse_spread (rx + th) (ry + th)) hstart (le_refl (rx + th))
      (ellipse_zero (by omega) (by omega)) (fun v => ellipse_one (by omega) (by omega) v)
      (fun d e h1 h2 h3 h4 => ellipseOut_iff (by omega) (by omega) h1 h2 h3 h4) (by omega) (by omega) (by omega) (by omega)
    refine ⟨{ e.canvas with glob_clip0 := cl }, ?_, fun p => by rw [Canvas.hits_clip]; exact hdrawn.within p⟩
    rw [firstRows, if_neg (by omega), Option.bind_some, he, Option.join_some, Option.bind_some]

theorem tellipse_exact_thin :
    (∃ m, ∀ n ≥ m, ∃ s, tellipse n 8 10 (-4) 3 20 ⟨none, []⟩ = some s ∧ s.Within (InEllipse (3 + 8 / 2) (20 + 8 / 2)) 10 (-4)) ↔
      (3 : Int) ≤ 8 / 2 ∨ (20 : Int) ≤ 8 / 2 :=
  tellipse_exact_iff none (fun _ h => nomatch h) 8 10 (-4) 3 20 (by unfold Center; omega) (by decide) (by decide) (by decide)

/-- The first row under the middle one: a point is drawn twice, and one outside of the ellipse. -/
theorem tellipse_not_exact : ∃ m, ∀ n ≥ m, ∃ s, tellipse n 2 10 10 2 2 ⟨none, []⟩ = some s ∧ s.hits (10, 11) = 2 ∧
    s.hits (7, 11) = 1 ∧ ¬ InEllipse (2 + 2 / 2) (2 + 2 / 2) (7 - 10) (11 - 10) := by
  refine ⟨6, fun n hn => ?_⟩
  obtain ⟨k, rfl⟩ : ∃ k, n = k + 6 := ⟨n - 6, by omega⟩
  exact ⟨_, rfl, by decide, by decide, by unfold InEllipse; decide⟩

end WWindowSystem.Graph
