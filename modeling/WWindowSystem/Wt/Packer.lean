import Mathlib.Algebra.Order.Ring.Int
import Mathlib.Tactic.Linarith

namespace WWindowSystem.Packer

open List

inductive fill_style_t
  | FillNone | FillX | FillY | FillBoth
  deriving DecidableEq

inductive anchor_type_t
  | AnchorCenter | AnchorN | AnchorNE | AnchorE | AnchorSE | AnchorS | AnchorSW | AnchorW | AnchorNW
  deriving DecidableEq

inductive side_t
  | SideTop | SideBottom | SideRight | SideLeft
  deriving DecidableEq

open fill_style_t anchor_type_t side_t

def IS_VERT (s : side_t) : Bool := s = SideTop || s = SideBottom

structure rect_t where
  x : Int
  y : Int
  w : Int
  h : Int
  deriving DecidableEq

structure packer_info_t where
  fill : fill_style_t
  anchor : anchor_type_t
  side : side_t
  padx : Int
  pady : Int
  ipadx : Int
  ipady : Int
  expand : Int
  parcel : rect_t
  wd : Int
  ht : Int
  deriving DecidableEq

/-- A child with the answer of its `query_minsize` and the geometry that it was given last. -/
structure widget_t where
  geom_info : Option packer_info_t
  minsize : Int × Int
  geometry : rect_t
  deriving DecidableEq

def default_info : packer_info_t := ⟨FillNone, AnchorCenter, SideTop, 0, 0, 0, 0, 0, ⟨0, 0, 0, 0⟩, 0, 0⟩

def widget_t.info (w : widget_t) : packer_info_t := w.geom_info.getD default_info

def packer_info_t.padded_wd (p : packer_info_t) : Int := p.wd + 2 * (p.padx + p.ipadx)

def packer_info_t.padded_ht (p : packer_info_t) : Int := p.ht + 2 * (p.pady + p.ipady)

def wt_minsize (w : widget_t) : widget_t :=
  { w with geom_info := some { w.info with wd := w.minsize.1, ht := w.minsize.2 } }

def get_space_one (space : Int × Int) (w : widget_t) : (Int × Int) × widget_t :=
  let w := wt_minsize w
  let wd := w.info.padded_wd
  let ht := w.info.padded_ht
  match w.info.side with
  | SideTop | SideBottom => (if space.1 < wd then (wd, space.2 + ht) else (space.1, space.2 + ht), w)
  | SideLeft | SideRight => (if space.2 < ht then (space.1 + wd, ht) else (space.1 + wd, space.2), w)

def get_space : List widget_t → (Int × Int) × List widget_t
  | [] => ((0, 0), [])
  | w :: ws =>
    let rest := get_space ws
    let one := get_space_one rest.1 w
    (one.1, one.2 :: rest.2)

/-- The loop over the siblings of the same direction: what is left of the space, the number of children that
expand, and the siblings behind. -/
def overRun (isvert : Bool) : List widget_t → Int → Int → Int × Int × List widget_t
  | [], i, exp_space => (exp_space, i, [])
  | w :: ws, i, exp_space =>
    if isvert ≠ IS_VERT w.info.side then (exp_space, i, w :: ws)
    else
      overRun isvert ws (if w.info.expand ≠ 0 then i + 1 else i)
        (exp_space - if isvert then w.info.padded_ht else w.info.padded_wd)

def get_expand_space (space : rect_t) (w : widget_t) (ws : List widget_t) : Int :=
  let isvert := IS_VERT w.info.side
  let r := overRun isvert (w :: ws) 0 (if isvert then space.h else space.w)
  let exp_space :=
    if r.2.2 ≠ [] ∧ r.2.1 > 0 then r.1 - if isvert then (get_space r.2.2).1.2 else (get_space r.2.2).1.1 else r.1
  if r.2.1 > 0 ∧ exp_space > 0 then exp_space.tdiv r.2.1 else 0

def widget_t.cut (w : widget_t) (parcel : rect_t) : widget_t := { w with geom_info := some { w.info with parcel } }

def cutOff (space : rect_t) (w : widget_t) (exp_space : Int) : rect_t × widget_t :=
  let wd := w.info.padded_wd
  let ht := w.info.padded_ht
  match w.info.side with
  | SideTop =>
    let ht := ht + exp_space
    ({ space with y := space.y + ht, h := space.h - ht }, w.cut ⟨space.x, space.y, max wd space.w, ht⟩)
  | SideBottom =>
    let ht := ht + exp_space
    ({ space with h := space.h - ht }, w.cut ⟨space.x, space.y + space.h - ht, max wd space.w, ht⟩)
  | SideLeft =>
    let wd := wd + exp_space
    ({ space with x := space.x + wd, w := space.w - wd }, w.cut ⟨space.x, space.y, wd, max ht space.h⟩)
  | SideRight =>
    let wd := wd + exp_space
    ({ space with w := space.w - wd }, w.cut ⟨space.x + space.w - wd, space.y, wd, max ht space.h⟩)

def get_parcel (space : rect_t) (w : widget_t) (ws : List widget_t) : rect_t × widget_t :=
  cutOff space w (if w.info.expand ≠ 0 then get_expand_space space w ws else 0)

def place_widget (w : widget_t) : widget_t :=
  let p := w.info
  let wd := if p.fill = FillX ∨ p.fill = FillBoth then p.parcel.w - 2 * p.padx else p.wd + 2 * p.ipadx
  let ht := if p.fill = FillY ∨ p.fill = FillBoth then p.parcel.h - 2 * p.pady else p.ht + 2 * p.ipady
  let x :=
    match p.anchor with
    | AnchorSW | AnchorW | AnchorNW => p.parcel.x + p.padx
    | AnchorN | AnchorCenter | AnchorS => p.parcel.x + (p.parcel.w - wd).tdiv 2
    | AnchorNE | AnchorE | AnchorSE => p.parcel.x + p.parcel.w - wd - p.padx
  let y :=
    match p.anchor with
    | AnchorNW | AnchorN | AnchorNE => p.parcel.y + p.pady
    | AnchorW | AnchorCenter | AnchorE => p.parcel.y + (p.parcel.h - ht).tdiv 2
    | AnchorSW | AnchorS | AnchorSE => p.parcel.y + p.parcel.h - ht - p.pady
  { w with geometry := ⟨x, y, wd, ht⟩ }

def packIn : rect_t → List widget_t → List widget_t
  | _, [] => []
  | space, w :: ws =>
    let r := get_parcel space w ws
    place_widget r.2 :: packIn r.1 ws

def pack_widgets (w h : Int) (childs : List widget_t) : List widget_t :=
  let needed := get_space childs
  packIn ⟨0, 0, max w needed.1.1, max h needed.1.2⟩ needed.2

def rect_t.Apart (a b : rect_t) : Prop := a.x + a.w ≤ b.x ∨ b.x + b.w ≤ a.x ∨ a.y + a.h ≤ b.y ∨ b.y + b.h ≤ a.y

def rect_t.Inside (a b : rect_t) : Prop := b.x ≤ a.x ∧ a.x + a.w ≤ b.x + b.w ∧ b.y ≤ a.y ∧ a.y + a.h ≤ b.y + b.h

instance (a b : rect_t) : Decidable (a.Apart b) := inferInstanceAs (Decidable (_ ∨ _))

instance (a b : rect_t) : Decidable (a.Inside b) := inferInstanceAs (Decidable (_ ∧ _))

def widget_t.parcel (w : widget_t) : rect_t := w.info.parcel

def widget_t.padded (w : widget_t) : Int × Int :=
  (w.minsize.1 + 2 * (w.info.padx + w.info.ipadx), w.minsize.2 + 2 * (w.info.pady + w.info.ipady))

structure Parcels (area : rect_t) (ws : List widget_t) : Prop where
  apart : ws.Pairwise fun v w => v.parcel.Apart w.parcel
  inside : ∀ w ∈ ws, w.parcel.Inside area
  enough : ∀ w ∈ ws, w.padded.1 ≤ w.parcel.w ∧ w.padded.2 ≤ w.parcel.h

structure widget_t.Sane (w : widget_t) : Prop where
  padx : 0 ≤ w.info.padx
  pady : 0 ≤ w.info.pady
  ipadx : 0 ≤ w.info.ipadx
  ipady : 0 ≤ w.info.ipady
  wd : 0 ≤ w.minsize.1
  ht : 0 ≤ w.minsize.2

def widget_t.wish (w : widget_t) : (Int × Int) × packer_info_t :=
  (w.minsize, { w.info with parcel := ⟨0, 0, 0, 0⟩, wd := 0, ht := 0 })

variable {w v : widget_t} {ws vs : List widget_t} {space area : rect_t}

def widget_t.Noted (w : widget_t) : Prop := w.minsize = (w.info.wd, w.info.ht)

theorem wish_fields (h : v.wish = w.wish) : v.minsize = w.minsize ∧ v.padded = w.padded ∧ v.info.side = w.info.side ∧
    v.info.expand = w.info.expand ∧ v.info.padx = w.info.padx ∧ v.info.pady = w.info.pady ∧
    v.info.ipadx = w.info.ipadx ∧ v.info.ipady = w.info.ipady := by
  obtain ⟨hm, hi⟩ := Prod.mk.inj h
  simp only [packer_info_t.mk.injEq] at hi
  obtain ⟨-, -, hside, hpx, hpy, hix, hiy, hexp, -⟩ := hi
  refine ⟨hm, ?_, hside, hexp, hpx, hpy, hix, hiy⟩
  rw [widget_t.padded, widget_t.padded, hm, hpx, hpy, hix, hiy]

theorem sane_of_wish (h : v.wish = w.wish) (hs : w.Sane) : v.Sane := by
  obtain ⟨hm, -, -, -, hpx, hpy, hix, hiy⟩ := wish_fields h
  exact ⟨hpx ▸ hs.padx, hpy ▸ hs.pady, hix ▸ hs.ipadx, hiy ▸ hs.ipady, hm ▸ hs.wd, hm ▸ hs.ht⟩

theorem padded_nonneg (hs : w.Sane) : 0 ≤ w.padded.1 ∧ 0 ≤ w.padded.2 := by
  obtain ⟨h1, h2, h3, h4, h5, h6⟩ := hs
  simp only [widget_t.padded]
  omega

@[simp] theorem minsize_wish (w : widget_t) : (wt_minsize w).wish = w.wish := rfl

theorem minsize_noted (w : widget_t) : (wt_minsize w).Noted := rfl

theorem noted_padded (h : w.Noted) : w.padded = (w.info.padded_wd, w.info.padded_ht) := by
  rw [widget_t.padded, h, packer_info_t.padded_wd, packer_info_t.padded_ht]

@[simp] theorem get_space_one_snd (space : Int × Int) (w : widget_t) : (get_space_one space w).2 = wt_minsize w := by
  simp only [get_space_one]
  split <;> rfl

theorem get_space_wish (ws : List widget_t) : (get_space ws).2.map widget_t.wish = ws.map widget_t.wish := by
  induction ws with
  | nil => rfl
  | cons w ws ih => simp only [get_space, map_cons, get_space_one_snd, minsize_wish, ih]

theorem get_space_noted (ws : List widget_t) : ∀ w ∈ (get_space ws).2, w.Noted := by
  induction ws with
  | nil => simp [get_space]
  | cons w ws ih =>
    simp only [get_space, get_space_one_snd, forall_mem_cons]
    exact ⟨minsize_noted w, ih⟩

def needs (ws : List widget_t) : Int × Int := (get_space ws).1

theorem needs_cons (w : widget_t) (ws : List widget_t) : needs (w :: ws) =
    if IS_VERT w.info.side then (max (needs ws).1 w.padded.1, (needs ws).2 + w.padded.2)
    else ((needs ws).1 + w.padded.1, max (needs ws).2 w.padded.2) := by
  have hside : (wt_minsize w).info.side = w.info.side := rfl
  have hwd : (wt_minsize w).info.padded_wd = w.padded.1 := rfl
  have hht : (wt_minsize w).info.padded_ht = w.padded.2 := rfl
  simp only [needs, get_space, get_space_one, hside, hwd, hht]
  cases w.info.side <;> simp only [IS_VERT, reduceCtorEq, decide_true, decide_false, Bool.or_true, Bool.or_false,
    Bool.false_eq_true, if_true, if_false] <;> split_ifs with h <;> ext <;> simp only <;> omega

theorem needs_of_wish (h : ws.map widget_t.wish = vs.map widget_t.wish) : needs ws = needs vs := by
  induction ws generalizing vs with
  | nil =>
    cases vs with
    | nil => rfl
    | cons v vs => cases h
  | cons w ws ih =>
    cases vs with
    | nil => cases h
    | cons v vs =>
      rw [map_cons, map_cons, List.cons.injEq] at h
      obtain ⟨-, hp, hside, -⟩ := wish_fields h.1
      rw [needs_cons, needs_cons, ih h.2, hp, hside]

theorem needs_nonneg (hs : ∀ w ∈ ws, w.Sane) : 0 ≤ (needs ws).1 ∧ 0 ≤ (needs ws).2 := by
  induction ws with
  | nil => decide
  | cons w ws ih =>
    rw [forall_mem_cons] at hs
    obtain ⟨h1, h2⟩ := ih hs.2
    have hp := padded_nonneg hs.1
    rw [needs_cons]
    split_ifs <;> simp only <;> omega

def along (isvert : Bool) (size : Int × Int) : Int := if isvert then size.2 else size.1

theorem overRun_spec (isvert : Bool) (hn : ∀ w ∈ ws, w.Noted) (i e : Int) :
    (overRun isvert ws i e).1 - along isvert (needs (overRun isvert ws i e).2.2) = e - along isvert (needs ws) ∧
      i ≤ (overRun isvert ws i e).2.1 := by
  induction ws generalizing i e with
  | nil => exact ⟨rfl, le_rfl⟩
  | cons w ws ih =>
    rw [forall_mem_cons] at hn
    rw [overRun]
    by_cases hside : isvert ≠ IS_VERT w.info.side
    · rw [if_pos hside]
      exact ⟨rfl, le_rfl⟩
    · rw [if_neg hside]
      obtain ⟨h1, h2⟩ := ih hn.2 (if w.info.expand ≠ 0 then i + 1 else i)
        (e - if isvert then w.info.padded_ht else w.info.padded_wd)
      rw [not_not] at hside
      have hi : i ≤ if w.info.expand ≠ 0 then i + 1 else i := by split_ifs <;> omega
      refine ⟨?_, hi.trans h2⟩
      rw [h1, needs_cons, ← hside, noted_padded hn.1]
      cases isvert <;> simp only [along, Bool.false_eq_true, if_true, if_false] <;> omega

theorem expand_le (hn : ∀ v ∈ w :: ws, v.Noted)
    (hfit : along (IS_VERT w.info.side) (needs (w :: ws)) ≤ along (IS_VERT w.info.side) (space.w, space.h)) :
    0 ≤ get_expand_space space w ws ∧ get_expand_space space w ws ≤
      along (IS_VERT w.info.side) (space.w, space.h) - along (IS_VERT w.info.side) (needs (w :: ws)) := by
  obtain ⟨h1, -⟩ := overRun_spec (IS_VERT w.info.side) hn 0 (along (IS_VERT w.info.side) (space.w, space.h))
  have hrest : ∀ r : Int × Int × List widget_t,
      (if r.2.2 ≠ [] ∧ r.2.1 > 0 then r.1 - along (IS_VERT w.info.side) (needs r.2.2) else r.1) =
        r.1 - along (IS_VERT w.info.side) (needs r.2.2) ∨ r.2.1 ≤ 0 := by
    intro r
    by_cases hr : r.2.2 = []
    · rw [hr]
      left
      rw [if_neg (by simp)]
      cases IS_VERT w.info.side <;> simp [along, needs, get_space]
    · by_cases hi : r.2.1 > 0
      · exact .inl (if_pos ⟨hr, hi⟩)
      · exact .inr (not_lt.mp hi)
  have hdef : get_expand_space space w ws =
      let r := overRun (IS_VERT w.info.side) (w :: ws) 0 (along (IS_VERT w.info.side) (space.w, space.h))
      let e := if r.2.2 ≠ [] ∧ r.2.1 > 0 then r.1 - along (IS_VERT w.info.side) (needs r.2.2) else r.1
      if r.2.1 > 0 ∧ e > 0 then e.tdiv r.2.1 else 0 := by
    unfold get_expand_space along
    cases IS_VERT w.info.side <;> rfl
  rw [hdef]
  simp only
  split_ifs with hi h2 h2
  · obtain ⟨hi, hpos⟩ := h2
    have hsmall := Int.tdiv_le_self (b := (overRun (IS_VERT w.info.side) (w :: ws) 0
      (along (IS_VERT w.info.side) (space.w, space.h))).2.1) (Int.le_of_lt hpos)
    exact ⟨Int.tdiv_nonneg (by omega) (by omega), by omega⟩
  · exact ⟨le_rfl, by omega⟩
  · rcases hrest (overRun (IS_VERT w.info.side) (w :: ws) 0 (along (IS_VERT w.info.side) (space.w, space.h))) with he | he
    · rw [if_neg hi] at he
      have hsmall := Int.tdiv_le_self (b := (overRun (IS_VERT w.info.side) (w :: ws) 0
        (along (IS_VERT w.info.side) (space.w, space.h))).2.1) (Int.le_of_lt h2.2)
      exact ⟨Int.tdiv_nonneg (by omega) (by omega), by omega⟩
    · omega
  · exact ⟨le_rfl, by omega⟩

theorem cut_parcel (w : widget_t) (p : rect_t) : (w.cut p).parcel = p := rfl

theorem cutOff_wish (space : rect_t) (w : widget_t) (e : Int) : (cutOff space w e).2.wish = w.wish := by
  simp only [cutOff]
  split <;> rfl

theorem cutOff_noted {e : Int} (h : w.Noted) : (cutOff space w e).2.Noted := by
  simp only [cutOff]
  split <;> exact h

theorem place_wish (w : widget_t) : (place_widget w).wish = w.wish := rfl

theorem place_parcel (w : widget_t) : (place_widget w).parcel = w.parcel := rfl

theorem packIn_wish (space : rect_t) (ws : List widget_t) : (packIn space ws).map widget_t.wish = ws.map widget_t.wish := by
  induction ws generalizing space with
  | nil => rfl
  | cons w ws ih => rw [packIn, map_cons, map_cons, ih, place_wish, get_parcel, cutOff_wish]

structure Cut (space rest part : rect_t) : Prop where
  rest_inside : rest.Inside space
  part_inside : part.Inside space
  apart : part.Apart rest

def rect_t.Room (space : rect_t) (ws : List widget_t) : Prop := (needs ws).1 ≤ space.w ∧ (needs ws).2 ≤ space.h

theorem cutOff_parcel {e : Int} (hs : ∀ v ∈ w :: ws, v.Sane) (hn : w.Noted) (hroom : space.Room (w :: ws)) (he : 0 ≤ e)
    (hle : e ≤ along (IS_VERT w.info.side) (space.w, space.h) - along (IS_VERT w.info.side) (needs (w :: ws))) :
    Cut space (cutOff space w e).1 (cutOff space w e).2.parcel ∧ (cutOff space w e).1.Room ws ∧
      w.padded.1 ≤ (cutOff space w e).2.parcel.w ∧ w.padded.2 ≤ (cutOff space w e).2.parcel.h := by
  obtain ⟨hw, hh⟩ := padded_nonneg (hs w mem_cons_self)
  obtain ⟨hr1, hr2⟩ := needs_nonneg fun v hv => hs v (mem_cons_of_mem w hv)
  rw [noted_padded hn] at hw hh ⊢
  rw [rect_t.Room, needs_cons, noted_padded hn] at hroom
  rw [needs_cons, noted_padded hn] at hle
  simp only [cutOff]
  cases hside : w.info.side <;>
    simp only [hside, IS_VERT, along, reduceCtorEq, decide_true, decide_false, Bool.or_true, Bool.or_false, Bool.false_eq_true,
      if_true, if_false] at hroom hle <;>
    refine ⟨⟨?_, ?_, ?_⟩, ?_, ?_, ?_⟩ <;>
    simp only [rect_t.Room, rect_t.Inside, rect_t.Apart, cut_parcel] at hroom ⊢ <;> omega

theorem get_parcel_cut (hs : ∀ v ∈ w :: ws, v.Sane) (hn : ∀ v ∈ w :: ws, v.Noted) (hroom : space.Room (w :: ws)) :
    Cut space (get_parcel space w ws).1 (get_parcel space w ws).2.parcel ∧ (get_parcel space w ws).1.Room ws ∧
      w.padded.1 ≤ (get_parcel space w ws).2.parcel.w ∧ w.padded.2 ≤ (get_parcel space w ws).2.parcel.h := by
  have hfit : along (IS_VERT w.info.side) (needs (w :: ws)) ≤ along (IS_VERT w.info.side) (space.w, space.h) := by
    unfold along
    split_ifs
    · exact hroom.2
    · exact hroom.1
  apply cutOff_parcel hs (hn w mem_cons_self) hroom
  · split_ifs
    · exact (expand_le hn hfit).1
    · exact le_rfl
  · split_ifs
    · exact (expand_le hn hfit).2
    · omega

theorem inside_trans {a b c : rect_t} (h : a.Inside b) (h' : b.Inside c) : a.Inside c := by
  unfold rect_t.Inside at *
  omega

theorem apart_inside {a b c : rect_t} (h : a.Apart c) (h' : b.Inside c) : a.Apart b := by
  unfold rect_t.Inside at h'
  unfold rect_t.Apart at *
  omega

theorem packIn_parcels (hs : ∀ v ∈ ws, v.Sane) (hn : ∀ v ∈ ws, v.Noted) (hroom : space.Room ws) :
    Parcels space (packIn space ws) := by
  induction ws generalizing space with
  | nil => exact ⟨List.Pairwise.nil, by simp [packIn], by simp [packIn]⟩
  | cons w ws ih =>
    obtain ⟨hcut, hrest, henough⟩ := get_parcel_cut hs hn hroom
    have hih := ih (fun v hv => hs v (mem_cons_of_mem w hv)) (fun v hv => hn v (mem_cons_of_mem w hv)) hrest
    rw [packIn]
    constructor
    · rw [pairwise_cons]
      exact ⟨fun v hv => apart_inside hcut.apart (hih.inside v hv), hih.apart⟩
    · rw [forall_mem_cons]
      exact ⟨hcut.part_inside, fun v hv => inside_trans (hih.inside v hv) hcut.rest_inside⟩
    · rw [forall_mem_cons]
      have hwish : (place_widget (get_parcel space w ws).2).padded = w.padded := (wish_fields (cutOff_wish space w _)).2.1
      refine ⟨?_, hih.enough⟩
      rw [hwish, place_parcel]
      exact henough

theorem placed {a n pad size : Int} (hpad : 0 ≤ pad) (hsize : size + 2 * pad ≤ n) :
    (a ≤ a + pad ∧ a + pad + size ≤ a + n) ∧ (a ≤ a + (n - size).tdiv 2 ∧ a + (n - size).tdiv 2 + size ≤ a + n) ∧
      a ≤ a + n - size - pad ∧ a + n - size - pad + size ≤ a + n := by
  rw [Int.tdiv_eq_ediv_of_nonneg (by omega)]
  omega

theorem place_inside (hs : w.Sane) (hn : w.Noted) (hw : w.padded.1 ≤ w.parcel.w) (hh : w.padded.2 ≤ w.parcel.h) :
    (place_widget w).geometry.Inside w.parcel := by
  obtain ⟨h1, h2, h3, h4, -, -⟩ := hs
  obtain ⟨hwd, hht⟩ := Prod.ext_iff.mp hn
  simp only [widget_t.padded, widget_t.parcel] at hwd hht hw hh ⊢
  simp only [place_widget, rect_t.Inside]
  refine and_assoc.mp ⟨?_, ?_⟩
  · have hsize : (if w.info.fill = FillX ∨ w.info.fill = FillBoth then w.info.parcel.w - 2 * w.info.padx
        else w.info.wd + 2 * w.info.ipadx) + 2 * w.info.padx ≤ w.info.parcel.w := by split_ifs <;> omega
    obtain ⟨hstart, hmiddle, hend⟩ := placed (a := w.info.parcel.x) h1 hsize
    cases w.info.anchor <;> first | exact hstart | exact hmiddle | exact hend
  · have hsize : (if w.info.fill = FillY ∨ w.info.fill = FillBoth then w.info.parcel.h - 2 * w.info.pady
        else w.info.ht + 2 * w.info.ipady) + 2 * w.info.pady ≤ w.info.parcel.h := by split_ifs <;> omega
    obtain ⟨hstart, hmiddle, hend⟩ := placed (a := w.info.parcel.y) h2 hsize
    cases w.info.anchor <;> first | exact hstart | exact hmiddle | exact hend

theorem packIn_placed (hs : ∀ v ∈ ws, v.Sane) (hn : ∀ v ∈ ws, v.Noted) (hroom : space.Room ws) :
    ∀ v ∈ packIn space ws, v.geometry.Inside v.parcel := by
  induction ws generalizing space with
  | nil => simp [packIn]
  | cons w ws ih =>
    obtain ⟨-, hrest, hw, hh⟩ := get_parcel_cut hs hn hroom
    have hwish : (get_parcel space w ws).2.wish = w.wish := cutOff_wish space w _
    rw [packIn, forall_mem_cons, place_parcel]
    refine ⟨?_, ih (fun v hv => hs v (mem_cons_of_mem w hv)) (fun v hv => hn v (mem_cons_of_mem w hv)) hrest⟩
    rw [← (wish_fields hwish).2.1] at hw hh
    exact place_inside (sane_of_wish hwish (hs w mem_cons_self)) (cutOff_noted (hn w mem_cons_self)) hw hh

theorem cutOff_least (ws : List widget_t) (hn : w.Noted) (hpos : 0 < w.padded.1 ∧ 0 < w.padded.2) (hin : (cutOff space w 0).2.parcel.Inside space) :
    0 ≤ (cutOff space w 0).1.w ∧ 0 ≤ (cutOff space w 0).1.h ∧
      (∀ p : rect_t, 0 < p.w → 0 < p.h → p.Inside space → (cutOff space w 0).2.parcel.Apart p →
        p.Inside (cutOff space w 0).1) ∧ ((cutOff space w 0).1.Room ws → space.Room (w :: ws)) := by
  rw [noted_padded hn] at hpos
  simp only [rect_t.Room, needs_cons, noted_padded hn]
  simp only [cutOff] at hin ⊢
  cases hside : w.info.side <;>
    simp only [hside, IS_VERT, reduceCtorEq, decide_true, decide_false, Bool.or_true, Bool.or_false, Bool.false_eq_true,
      if_true, if_false, rect_t.Inside, rect_t.Apart, cut_parcel, add_zero] at hin hpos ⊢ <;>
    refine ⟨?_, ?_, ?_, ?_⟩ <;> intros <;> omega

theorem packIn_least (hn : ∀ v ∈ ws, v.Noted) (hexp : ∀ v ∈ ws, v.info.expand = 0)
    (hpos : ∀ v ∈ ws, 0 < v.padded.1 ∧ 0 < v.padded.2) (hw : 0 ≤ space.w) (hh : 0 ≤ space.h)
    (hp : Parcels space (packIn space ws)) : space.Room ws := by
  induction ws generalizing space with
  | nil => exact ⟨hw, hh⟩
  | cons w ws ih =>
    rw [forall_mem_cons] at hn hexp hpos
    have hcut : get_parcel space w ws = cutOff space w 0 := by rw [get_parcel, if_neg (not_not.mpr hexp.1)]
    rw [packIn, hcut] at hp
    have hin := hp.inside _ mem_cons_self
    rw [place_parcel] at hin
    obtain ⟨hw', hh', hother, hroom⟩ := cutOff_least ws hn.1 hpos.1 hin
    have hapart := pairwise_cons.mp hp.apart
    apply hroom
    refine ih hn.2 hexp.2 hpos.2 hw' hh' ⟨hapart.2, ?_, fun v hv => hp.enough v (mem_cons_of_mem _ hv)⟩
    intro v hv
    -- the child has the size that it asks for
    have hwish : v.wish ∈ ws.map widget_t.wish := packIn_wish (cutOff space w 0).1 ws ▸ mem_map_of_mem hv
    obtain ⟨u, hu, hwish⟩ := mem_map.mp hwish
    have hv' := hpos.2 u hu
    rw [(wish_fields hwish).2.1] at hv'
    obtain ⟨h1, h2⟩ := hp.enough v (mem_cons_of_mem _ hv)
    exact hother v.parcel (by omega) (by omega) (hp.inside v (mem_cons_of_mem _ hv)) (hapart.1 v hv)

theorem noted_needs (ws : List widget_t) : needs (get_space ws).2 = needs ws := needs_of_wish (get_space_wish ws)

def packArea (w h : Int) (ws : List widget_t) : rect_t := ⟨0, 0, max w (get_space ws).1.1, max h (get_space ws).1.2⟩

structure Packed (area : rect_t) (childs ws : List widget_t) : Prop where
  wishes : ws.map widget_t.wish = childs.map widget_t.wish
  parcels : Parcels area ws
  placed : ∀ v ∈ ws, v.geometry.Inside v.parcel

theorem packed_room (hs : ∀ v ∈ ws, v.Sane) (hroom : space.Room ws) : Packed space ws (packIn space (get_space ws).2) := by
  have hs' : ∀ v ∈ (get_space ws).2, v.Sane := by
    intro v hv
    have hwish : v.wish ∈ ws.map widget_t.wish := get_space_wish ws ▸ mem_map_of_mem hv
    obtain ⟨u, hu, hwish⟩ := mem_map.mp hwish
    exact sane_of_wish hwish.symm (hs u hu)
  have hroom' : space.Room (get_space ws).2 := by rwa [rect_t.Room, noted_needs]
  exact ⟨by rw [packIn_wish, get_space_wish], packIn_parcels hs' (get_space_noted ws) hroom',
    packIn_placed hs' (get_space_noted ws) hroom'⟩

/-- The needed size is the least one when no child expands and none asks for an empty parcel. -/
theorem pack_widgets_packed (w h : Int) (ws : List widget_t) (hs : ∀ v ∈ ws, v.Sane) :
    Packed (packArea w h ws) ws (pack_widgets w h ws) ∧
      ((∀ v ∈ ws, v.info.expand = 0 ∧ 0 < v.padded.1 ∧ 0 < v.padded.2) →
        ∀ W H, 0 ≤ W → 0 ≤ H → Parcels ⟨0, 0, W, H⟩ (packIn ⟨0, 0, W, H⟩ (get_space ws).2) →
          (get_space ws).1.1 ≤ W ∧ (get_space ws).1.2 ≤ H) := by
  refine ⟨packed_room hs ⟨le_max_right _ _, le_max_right _ _⟩, ?_⟩
  intro hpos W H hW hH hp
  have hmem : ∀ v ∈ (get_space ws).2, v.info.expand = 0 ∧ 0 < v.padded.1 ∧ 0 < v.padded.2 := by
    intro v hv
    have hwish : v.wish ∈ ws.map widget_t.wish := get_space_wish ws ▸ List.mem_map_of_mem hv
    obtain ⟨u, hu, hwish⟩ := List.mem_map.mp hwish
    obtain ⟨-, hpad, -, hexp, -⟩ := wish_fields hwish
    rw [← hpad, ← hexp]
    exact hpos u hu
  have hroom := packIn_least (get_space_noted ws) (fun v hv => (hmem v hv).1) (fun v hv => (hmem v hv).2) hW hH hp
  rwa [rect_t.Room, noted_needs] at hroom

def plain_child (side : side_t) (size : Int × Int) : widget_t :=
  ⟨some ⟨FillNone, AnchorCenter, side, 0, 0, 0, 0, 0, ⟨0, 0, 0, 0⟩, 0, 0⟩, size, ⟨0, 0, 0, 0⟩⟩

theorem plain_sane {side : side_t} {size : Int × Int} (hw : 0 ≤ size.1) (hh : 0 ≤ size.2) : (plain_child side size).Sane := by
  constructor <;> first | exact hw | exact hh | exact le_rfl

theorem pack_widgets_two : Packed (packArea 3 2 [plain_child SideLeft (5, 1), plain_child SideTop (2, 3)])
      [plain_child SideLeft (5, 1), plain_child SideTop (2, 3)]
      (pack_widgets 3 2 [plain_child SideLeft (5, 1), plain_child SideTop (2, 3)]) ∧
      ((∀ v ∈ [plain_child SideLeft (5, 1), plain_child SideTop (2, 3)],
          v.info.expand = 0 ∧ 0 < v.padded.1 ∧ 0 < v.padded.2) → ∀ W H, 0 ≤ W → 0 ≤ H →
          Parcels ⟨0, 0, W, H⟩ (packIn ⟨0, 0, W, H⟩ (get_space [plain_child SideLeft (5, 1), plain_child SideTop (2, 3)]).2) →
          (get_space [plain_child SideLeft (5, 1), plain_child SideTop (2, 3)]).1.1 ≤ W ∧
            (get_space [plain_child SideLeft (5, 1), plain_child SideTop (2, 3)]).1.2 ≤ H) := by
  apply pack_widgets_packed 3 2
  simp only [List.forall_mem_cons, List.not_mem_nil, false_imp_iff, implies_true, and_true]
  exact ⟨plain_sane (by decide) (by decide), plain_sane (by decide) (by decide)⟩

/-- Two children without height may lie on each other. -/
theorem needed_not_least : ¬ ∀ ws : List widget_t, (∀ v ∈ ws, v.Sane) → (∀ v ∈ ws, v.info.expand = 0) →
    ∀ W H, 0 ≤ W → 0 ≤ H → Parcels ⟨0, 0, W, H⟩ (packIn ⟨0, 0, W, H⟩ (get_space ws).2) →
      (get_space ws).1.1 ≤ W ∧ (get_space ws).1.2 ≤ H := by
  intro hall
  have hsane : ∀ v ∈ [plain_child SideLeft (5, 0), plain_child SideRight (5, 0)], v.Sane := by
    simp only [List.forall_mem_cons, List.not_mem_nil, false_imp_iff, implies_true, and_true]
    exact ⟨plain_sane (by decide) (by decide), plain_sane (by decide) (by decide)⟩
  have h := hall _ hsane (by decide) 5 0 (by decide) (by decide) ⟨by decide, by decide, by decide⟩
  exact absurd h.1 (by decide)

end WWindowSystem.Packer
