import Mathlib.Data.List.TakeWhile
import WWindowSystem.Wt.Vt

namespace WWindowSystem

open BitVec

def Six (a : Byte) : Prop := a &&& 0x3f = a

structure Vt.Whole (s : Vt) : Prop where
  realized : s.is_realized = true
  colors : (s.Colors : Int) ≤ MAX_COLORS
  hist : 0 ≤ s.curhistsize ∧ s.curhistsize ≤ s.histsize
  room : s.histsize < s.screenht
  offs : 0 ≤ s.offs ∧ s.offs < s.screenht
  six : Six s.curattr
  masked : s.curattr &&& (s.font_mask ||| s.style_mask) = s.curattr
  plain : s.Colors = 0 → s.curfg = 0 ∧ s.curbg = 0 ∧ ∀ p, (s.screen p).bg = 0

structure Blur (s t : Vt) : Prop where
  empty : s.outbuf = []
  bottom : s.curoffs = s.offs
  whole : s.Whole
  same : ∃ touched curvis outx outy, t = { s with touched, curvis, outx, outy }

variable {s t : Vt}

theorem Six.and {a : Byte} (h : Six a) (b : Byte) : Six (a &&& b) := by
  unfold Six at h ⊢
  rw [BitVec.and_assoc, BitVec.and_comm b, ← BitVec.and_assoc, h]

theorem or_and (a b m : Byte) : (a ||| b) &&& m = (a &&& m) ||| (b &&& m) := by
  apply eq_of_getLsbD_eq
  intro i _
  simp only [getLsbD_and, getLsbD_or, Bool.and_or_distrib_right]

theorem Six.or {a b : Byte} (h : Six a) (h' : Six b) : Six (a ||| b) := by
  unfold Six at h h' ⊢
  rw [or_and, h, h']

theorem xor_and (a b m : Byte) : (a ^^^ b) &&& m = (a &&& m) ^^^ (b &&& m) := by
  apply eq_of_getLsbD_eq
  intro i _
  simp only [getLsbD_and, getLsbD_xor, Bool.and_xor_distrib_right]

theorem Six.xor {a b : Byte} (h : Six a) (h' : Six b) : Six (a ^^^ b) := by
  unfold Six at h h' ⊢
  rw [xor_and, h, h']

theorem six_reverse : Six VT_REVERSE := by
  unfold Six
  decide

theorem Blur.empty' (h : Blur s t) : t.outbuf = [] := by
  obtain ⟨_, _, _, _, rfl⟩ := h.same
  exact h.empty

theorem Blur.refl (h : s.outbuf = []) (hb : s.curoffs = s.offs) (hw : s.Whole) : Blur s s :=
  ⟨h, hb, hw, _, _, _, _, rfl⟩

theorem Vt.Whole.stored_bg (h : s.Whole) (c : Byte) : s.Colors = 0 → (s.stored c).bg = 0 :=
  fun hc => (h.plain hc).2.1

theorem Vt.Whole.screen (h : s.Whole) {screen : Int → vtchar_t} (touched : List Access)
    (hs : s.Colors = 0 → ∀ p, (screen p).bg = 0) : ({ s with screen, touched } : Vt).Whole :=
  ⟨h.realized, h.colors, h.hist, h.room, h.offs, h.six, h.masked, fun hc =>
    ⟨(h.plain hc).1, (h.plain hc).2.1, hs hc⟩⟩

theorem touch_blur (h : Blur s t) (size index : Int) : Blur (s.touch size index) (t.touch size index) := by
  obtain ⟨_, _, _, _, rfl⟩ := h.same
  exact ⟨h.empty, h.bottom, h.whole.screen _ fun hc => (h.whole.plain hc).2.2, _, _, _, _, rfl⟩

theorem put_blur (h : Blur s t) (vcp : Int) {v : vtchar_t} (hv : s.Colors = 0 → v.bg = 0) :
    Blur (s.put vcp v) (t.put vcp v) := by
  obtain ⟨_, _, _, _, rfl⟩ := h.same
  refine ⟨h.empty, h.bottom, h.whole.screen _ fun hc p => ?_, _, _, _, _, rfl⟩
  rw [Function.update_apply]
  split_ifs
  · exact hv hc
  · exact (h.whole.plain hc).2.2 p

theorem Blur.stored (h : Blur s t) (c : Byte) : t.stored c = s.stored c := by
  obtain ⟨_, _, _, _, rfl⟩ := h.same
  rfl

theorem Blur.screen_pos (h : Blur s t) (x y : Int) : vt_screen_pos t x y = vt_screen_pos s x y := by
  obtain ⟨_, _, _, _, rfl⟩ := h.same
  rfl

theorem Blur.screen_nl (h : Blur s t) (vcp : Int) : vt_screen_nl t vcp = vt_screen_nl s vcp := by
  obtain ⟨_, _, _, _, rfl⟩ := h.same
  rfl

theorem Blur.screen_pl (h : Blur s t) (vcp : Int) : vt_screen_pl t vcp = vt_screen_pl s vcp := by
  obtain ⟨_, _, _, _, rfl⟩ := h.same
  rfl

theorem Blur.size (h : Blur s t) :
    t.wd = s.wd ∧ t.ht = s.ht ∧ t.curx = s.curx ∧ t.cury = s.cury ∧ t.screen_size = s.screen_size := by
  obtain ⟨_, _, _, _, rfl⟩ := h.same
  exact ⟨rfl, rfl, rfl, rfl, rfl⟩

variable (n : Nat)

theorem blankCells_blur (h : Blur s t) (vcp : Int) :
    Blur (blankCells n s vcp).1 (blankCells n t vcp).1 ∧ (blankCells n t vcp).2 = (blankCells n s vcp).2 := by
  induction n generalizing s t vcp with
  | zero => exact ⟨h, rfl⟩
  | succ n ih =>
    unfold blankCells
    rw [h.stored]
    exact ih (put_blur h vcp (h.whole.stored_bg DEF_BGCHAR)) (vcp + 1)

theorem blankRows_blur (h : Blur s t) (vcp : Int) :
    Blur (blankRows n s vcp).1 (blankRows n t vcp).1 ∧ (blankRows n t vcp).2 = (blankRows n s vcp).2 := by
  induction n generalizing s t vcp with
  | zero => exact ⟨h, rfl⟩
  | succ n ih =>
    unfold blankRows
    dsimp only
    rw [h.size.1]
    obtain ⟨h1, h2⟩ := blankCells_blur s.wd.toNat h vcp
    rw [h2, h1.screen_nl]
    exact ih h1 _

theorem copyCells_blur (d : Int) (n : Nat) (h : Blur s t) (vcp1 vcp2 : Int) :
    Blur (copyCells d n s vcp1 vcp2).1 (copyCells d n t vcp1 vcp2).1 ∧
      (copyCells d n t vcp1 vcp2).2 = (copyCells d n s vcp1 vcp2).2 := by
  induction n generalizing s t vcp1 vcp2 with
  | zero => exact ⟨h, rfl⟩
  | succ n ih =>
    have hv : t.screen vcp1 = s.screen vcp1 := by
      obtain ⟨_, _, _, _, rfl⟩ := h.same
      rfl
    unfold copyCells
    rw [h.size.2.2.2.2, hv]
    exact ih (put_blur (touch_blur h _ vcp1) vcp2 fun hc => (h.whole.plain hc).2.2 vcp1) _ _

theorem copyRowsBack_blur (h : Blur s t) (vcp1 vcp2 : Int) :
    Blur (copyRowsBack n s vcp1 vcp2) (copyRowsBack n t vcp1 vcp2) := by
  induction n generalizing s t vcp1 vcp2 with
  | zero => exact h
  | succ n ih =>
    unfold copyRowsBack
    dsimp only
    rw [h.size.1]
    obtain ⟨h1, h2⟩ := copyCells_blur (-1) s.wd.toNat h vcp1 vcp2
    rw [h2, h1.screen_pl, h1.screen_pl]
    exact ih h1 _ _

theorem copyRows_blur (h : Blur s t) (vcp1 vcp2 : Int) :
    Blur (copyRows n s vcp1 vcp2) (copyRows n t vcp1 vcp2) := by
  induction n generalizing s t vcp1 vcp2 with
  | zero => exact h
  | succ n ih =>
    unfold copyRows
    dsimp only
    rw [h.size.1]
    obtain ⟨h1, h2⟩ := copyCells_blur 1 s.wd.toNat h vcp1 vcp2
    rw [h2, h1.screen_nl, h1.screen_nl]
    exact ih h1 _ _

theorem move_blur (h : Blur s t) (curx cury : Int) : Blur { s with curx, cury } { t with curx, cury } := by
  obtain ⟨_, _, _, _, rfl⟩ := h.same
  exact ⟨h.empty, h.bottom, ⟨h.whole.realized, h.whole.colors, h.whole.hist, h.whole.room, h.whole.offs, h.whole.six,
    h.whole.masked, h.whole.plain⟩, _, _, _, _, rfl⟩

theorem row_blur (h : Blur s t) {x x' : Int} (hx : x' = x) : Blur { s with curx := x } { t with curx := x' } := by
  have hm := move_blur h x s.cury
  subst hx
  obtain ⟨_, _, _, _, rfl⟩ := h.same
  exact hm

variable {y y' : Int}

theorem column_blur (h : Blur s t) (hy : y' = y) : Blur { s with cury := y } { t with cury := y' } := by
  have hm := move_blur h s.curx y
  subst hy
  obtain ⟨_, _, _, _, rfl⟩ := h.same
  exact hm

theorem Blur.flush (h : Blur s t) : vt_flush s = s ∧ vt_flush t = t := by
  constructor
  · unfold vt_flush
    rw [if_pos h.empty]
  · unfold vt_flush
    rw [if_pos h.empty']

theorem vt_clear_screen_blur (h : Blur s t) : Blur (vt_clear_screen s) (vt_clear_screen t) := by
  unfold vt_clear_screen
  dsimp only
  rw [h.flush.1, h.flush.2, h.screen_pos, h.size.2.1]
  exact (blankRows_blur _ h _).1

theorem vt_clear_eop_blur (h : Blur s t) : Blur (vt_clear_eop s) (vt_clear_eop t) := by
  unfold vt_clear_eop
  dsimp only
  obtain ⟨e1, e2, e3, e4, -⟩ := h.size
  rw [h.flush.1, h.flush.2, h.screen_pos, e1, e2, e3, e4]
  obtain ⟨h1, h2⟩ := blankCells_blur (s.wd - s.curx).toNat h (vt_screen_pos s s.curx s.cury)
  rw [h2, h1.screen_nl]
  exact (blankRows_blur _ h1 _).1

theorem vt_clear_sop_blur (h : Blur s t) : Blur (vt_clear_sop s) (vt_clear_sop t) := by
  unfold vt_clear_sop
  dsimp only
  obtain ⟨-, -, e3, e4, -⟩ := h.size
  rw [h.flush.1, h.flush.2, h.screen_pos, e3, e4]
  obtain ⟨h1, h2⟩ := blankRows_blur s.cury.toNat h (vt_screen_pos s 0 0)
  rw [h2]
  exact (blankCells_blur _ h1 _).1

theorem vt_clear_eol_blur (h : Blur s t) : Blur (vt_clear_eol s) (vt_clear_eol t) := by
  unfold vt_clear_eol
  dsimp only
  obtain ⟨e1, -, e3, e4, -⟩ := h.size
  rw [h.flush.1, h.flush.2, h.screen_pos, e1, e3, e4]
  exact (blankCells_blur _ h _).1

theorem vt_clear_sol_blur (h : Blur s t) : Blur (vt_clear_sol s) (vt_clear_sol t) := by
  unfold vt_clear_sol
  dsimp only
  obtain ⟨-, -, e3, e4, -⟩ := h.size
  rw [h.flush.1, h.flush.2, h.screen_pos, e3, e4]
  exact (blankCells_blur _ h _).1

theorem blankRow_blur (h : Blur s t) (hy : y' = y) :
    Blur (blankCells s.wd.toNat s (vt_screen_pos s 0 y)).1 (blankCells t.wd.toNat t (vt_screen_pos t 0 y')).1 := by
  rw [h.screen_pos, h.size.1, hy]
  exact (blankCells_blur _ h _).1

theorem downRows_blur (h : Blur s t) :
    Blur (copyRowsBack (s.ht - 1 - s.cury).toNat s (vt_screen_pos s (s.wd - 1) (s.ht - 2))
        (vt_screen_pos s (s.wd - 1) (s.ht - 1)))
      (copyRowsBack (t.ht - 1 - t.cury).toNat t (vt_screen_pos t (t.wd - 1) (t.ht - 2))
        (vt_screen_pos t (t.wd - 1) (t.ht - 1))) := by
  obtain ⟨e1, e2, -, e4, -⟩ := h.size
  rw [h.screen_pos, h.screen_pos, e1, e2, e4]
  exact copyRowsBack_blur _ h _ _

theorem vt_insert_line_blur (h : Blur s t) : Blur (vt_insert_line s) (vt_insert_line t) := by
  unfold vt_insert_line
  dsimp only
  rw [h.flush.1, h.flush.2]
  refine row_blur ?_ rfl
  by_cases hy : s.cury < s.ht - 1
  · have hy' : t.cury < t.ht - 1 := by
      rw [h.size.2.1, h.size.2.2.2.1]
      exact hy
    rw [if_pos hy, if_pos hy']
    have hd := downRows_blur h
    exact blankRow_blur hd hd.size.2.2.2.1
  · have hy' : ¬ t.cury < t.ht - 1 := by
      rw [h.size.2.1, h.size.2.2.2.1]
      exact hy
    rw [if_neg hy, if_neg hy']
    exact blankRow_blur h h.size.2.2.2.1

theorem vt_delete_line_blur (h : Blur s t) : Blur (vt_delete_line s) (vt_delete_line t) := by
  unfold vt_delete_line
  dsimp only
  rw [h.flush.1, h.flush.2]
  refine row_blur ?_ rfl
  by_cases hy : s.cury < s.ht - 1
  · have hy' : t.cury < t.ht - 1 := by
      rw [h.size.2.1, h.size.2.2.2.1]
      exact hy
    rw [if_pos hy, if_pos hy']
    have hd : Blur (copyRows (s.ht - (s.cury + 1)).toNat s (vt_screen_pos s 0 (s.cury + 1)) (vt_screen_pos s 0 s.cury))
        (copyRows (t.ht - (t.cury + 1)).toNat t (vt_screen_pos t 0 (t.cury + 1)) (vt_screen_pos t 0 t.cury)) := by
      rw [h.screen_pos, h.screen_pos, h.size.2.1, h.size.2.2.2.1]
      exact copyRows_blur _ h _ _
    exact blankRow_blur hd (by rw [hd.size.2.1])
  · have hy' : ¬ t.cury < t.ht - 1 := by
      rw [h.size.2.1, h.size.2.2.2.1]
      exact hy
    rw [if_neg hy, if_neg hy']
    exact blankRow_blur h (by rw [h.size.2.1])

theorem vt_rev_index_blur (h : Blur s t) : Blur (vt_rev_index s) (vt_rev_index t) := by
  unfold vt_rev_index
  dsimp only
  rw [h.flush.1, h.flush.2]
  by_cases hy : s.cury - 1 < 0
  · have hy' : t.cury - 1 < 0 := by
      rw [h.size.2.2.2.1]
      exact hy
    rw [if_pos hy, if_pos hy']
    have hd := downRows_blur (column_blur h (y := 0) rfl)
    exact blankRow_blur hd hd.size.2.2.2.1
  · have hy' : ¬ t.cury - 1 < 0 := by
      rw [h.size.2.2.2.1]
      exact hy
    rw [if_neg hy, if_neg hy']
    exact column_blur h (by rw [h.size.2.2.2.1])

def Vt.turned (s : Vt) : Vt :=
  let offs := if s.offs + 1 ≥ s.screenht then s.offs + 1 - s.screenht else s.offs + 1
  { s with
    offs, curoffs := offs
    curhistsize := if s.curhistsize < s.histsize then s.curhistsize + 1 else s.curhistsize }

theorem turned_blur (h : Blur s t) : Blur s.turned t.turned := by
  obtain ⟨_, _, _, _, rfl⟩ := h.same
  obtain ⟨h0, h1⟩ := h.whole.hist
  obtain ⟨h2, h3⟩ := h.whole.offs
  refine ⟨h.empty, rfl, ⟨h.whole.realized, h.whole.colors, ?_, h.whole.room, ?_, h.whole.six, h.whole.masked, h.whole.plain⟩,
    _, _, _, _, rfl⟩
  · unfold Vt.turned
    dsimp only
    constructor
    · split_ifs <;> omega
    · split_ifs <;> omega
  · unfold Vt.turned
    dsimp only
    constructor
    · split_ifs <;> omega
    · split_ifs <;> omega

theorem vt_scroll_blur (h : Blur s t) : Blur (vt_scroll s) (vt_scroll t) := by
  have ht := turned_blur h
  unfold vt_scroll
  dsimp only
  rw [h.flush.1, h.flush.2]
  exact blankRow_blur ht (by rw [h.size.2.1])

theorem nextRow_blur (h : Blur s t) : Blur s.nextRow t.nextRow := by
  have hnext : t.cury + 1 = s.cury + 1 := by rw [h.size.2.2.2.1]
  unfold Vt.nextRow
  dsimp only
  by_cases hy : s.cury + 1 ≥ s.ht
  · have hy' : t.cury + 1 ≥ t.ht := by
      rw [hnext, h.size.2.1]
      exact hy
    rw [if_pos hy, if_pos hy']
    exact column_blur (vt_scroll_blur (column_blur h hnext)) (by rw [h.size.2.1])
  · have hy' : ¬ t.cury + 1 ≥ t.ht := by
      rw [hnext, h.size.2.1]
      exact hy
    rw [if_neg hy, if_neg hy']
    exact column_blur h hnext

theorem attr_blur (h : Blur s t) (bgmode : Byte) {curattr : Byte} (h6 : Six curattr)
    (hm : curattr &&& (s.font_mask ||| s.style_mask) = curattr) :
    Blur { s with bgmode, curattr } { t with bgmode, curattr } := by
  obtain ⟨_, _, _, _, rfl⟩ := h.same
  exact ⟨h.empty, h.bottom, ⟨h.whole.realized, h.whole.colors, h.whole.hist, h.whole.room, h.whole.offs, h6, hm, h.whole.plain⟩,
    _, _, _, _, rfl⟩

theorem bgmode_blur (h : Blur s t) (bgmode : Byte) : Blur { s with bgmode } { t with bgmode } := by
  have ha := attr_blur h bgmode h.whole.six h.whole.masked
  obtain ⟨_, _, _, _, rfl⟩ := h.same
  exact ha

variable {attr attr' : Byte}

theorem vt_setattr_blur (h : Blur s t) (h6 : Six attr) (ha : attr' = attr) :
    Blur (vt_setattr s attr) (vt_setattr t attr') := by
  unfold vt_setattr
  dsimp only
  rw [h.flush.1, h.flush.2, ha]
  have ha := attr_blur h s.bgmode (h6.and (s.font_mask ||| s.style_mask)) (by
    rw [BitVec.and_assoc, BitVec.and_self])
  obtain ⟨_, _, _, _, rfl⟩ := h.same
  exact ha

theorem color_blur (h : Blur s t) (hc : s.Colors ≠ 0) (curfg curbg : BitVec 4) :
    Blur { s with curfg, curbg } { t with curfg, curbg } := by
  obtain ⟨_, _, _, _, rfl⟩ := h.same
  exact ⟨h.empty, h.bottom, ⟨h.whole.realized, h.whole.colors, h.whole.hist, h.whole.room, h.whole.offs, h.whole.six,
    h.whole.masked, fun h0 => absurd h0 hc⟩, _, _, _, _, rfl⟩

def typed (stored : Byte → vtchar_t) (screen : Int → vtchar_t) (vcp : Int) : List Byte → Int → vtchar_t
  | [] => screen
  | c :: cs => typed stored (Function.update screen vcp (stored c)) (vcp + 1) cs

def Vt.flushed (s : Vt) : Int → vtchar_t :=
  typed s.stored s.screen (vt_screen_pos s s.outx s.outy) s.outbuf

structure Synced (s t : Vt) : Prop where
  nonzero : 0 ∉ s.outbuf
  pending : s.outbuf ≠ [] → s.outx + s.outbuf.length = s.curx ∧ s.outy = s.cury
  bottom : s.curoffs = s.offs
  whole : t.Whole
  same : ∃ touched curvis outx outy,
    t = { s with screen := s.flushed, outbuf := [], touched, curvis, outx, outy }

theorem typed_concat (stored : Byte → vtchar_t) (screen : Int → vtchar_t) (vcp : Int) (cs : List Byte) (c : Byte) :
    typed stored screen vcp (cs ++ [c]) =
      Function.update (typed stored screen vcp cs) (vcp + cs.length) (stored c) := by
  induction cs generalizing screen vcp with
  | nil =>
    rw [List.nil_append, List.length_nil, Int.natCast_zero, Int.add_zero]
    rfl
  | cons d cs ih =>
    rw [List.cons_append, typed, typed, ih, List.length_cons, Int.natCast_succ, Int.add_assoc, Int.add_comm 1]

theorem putChars_eq (cs : List Byte) (vcp : Int) :
    ∃ touched, putChars s vcp cs = { s with screen := typed s.stored s.screen vcp cs, touched } := by
  induction cs generalizing s vcp with
  | nil => exact ⟨_, rfl⟩
  | cons c cs ih =>
    obtain ⟨touched, he⟩ := ih (s := s.put vcp (s.stored c)) (vcp + 1)
    exact ⟨touched, he⟩

theorem vt_flush_empty (s : Vt) : (vt_flush s).outbuf = [] := by
  unfold vt_flush
  split_ifs with h
  · exact h
  · rfl

theorem vt_flush_flush (s : Vt) : vt_flush (vt_flush s) = vt_flush s := by
  rw [vt_flush, if_pos (vt_flush_empty s)]

theorem vt_flush_same (s : Vt) : ∃ screen touched outbuf, vt_flush s = { s with screen, touched, outbuf } := by
  unfold vt_flush
  split_ifs
  · exact ⟨_, _, _, rfl⟩
  · obtain ⟨_, he⟩ := putChars_eq (s := s) (s.outbuf.takeWhile (· ≠ 0)) (vt_screen_pos s s.outx s.outy)
    rw [he]
    exact ⟨_, _, _, rfl⟩

theorem flushed_of_empty (h : s.outbuf = []) : s.flushed = s.screen := by
  unfold Vt.flushed
  rw [h, typed]

theorem vt_flush_eq (h : 0 ∉ s.outbuf) :
    ∃ touched, vt_flush s = { s with screen := s.flushed, touched, outbuf := [] } := by
  by_cases hnil : s.outbuf = []
  · refine ⟨s.touched, ?_⟩
    rw [flushed_of_empty hnil, ← hnil]
    unfold vt_flush
    rw [if_pos hnil]
  · have hall : s.outbuf.takeWhile (· ≠ 0) = s.outbuf := by
      rw [List.takeWhile_eq_self_iff]
      intro c hc
      simpa using fun h0 : c = 0 => h (h0 ▸ hc)
    obtain ⟨touched, he⟩ := putChars_eq (s := s) s.outbuf (vt_screen_pos s s.outx s.outy)
    refine ⟨touched, ?_⟩
    unfold vt_flush
    rw [if_neg hnil, hall, he]
    rfl

theorem Synced.blur (h : Synced s t) : Blur (vt_flush s) t := by
  obtain ⟨touched, he⟩ := vt_flush_eq h.nonzero
  obtain ⟨_, _, _, _, rfl⟩ := h.same
  rw [he]
  exact ⟨rfl, h.bottom, ⟨h.whole.realized, h.whole.colors, h.whole.hist, h.whole.room, h.whole.offs, h.whole.six,
    h.whole.masked, h.whole.plain⟩, _, _, _, _, rfl⟩

theorem Blur.synced (h : Blur s t) : Synced s t := by
  obtain ⟨touched, curvis, outx, outy, rfl⟩ := h.same
  refine ⟨by rw [h.empty]; exact List.not_mem_nil, fun hne => absurd h.empty hne, h.bottom,
    ⟨h.whole.realized, h.whole.colors, h.whole.hist, h.whole.room, h.whole.offs, h.whole.six, h.whole.masked, h.whole.plain⟩,
    touched, curvis, outx, outy, ?_⟩
  rw [flushed_of_empty h.empty]
  exact congrArg (fun outbuf => ({ s with outbuf, touched, curvis, outx, outy } : Vt)) h.empty

theorem Synced.empty (h : Synced s t) : t.outbuf = [] := by
  obtain ⟨_, _, _, _, rfl⟩ := h.same
  rfl

theorem Synced.flush (h : Synced s t) : vt_flush t = t := by
  rw [vt_flush, if_pos h.empty]

theorem Synced.of_flush {f : Vt → Vt} (h : Synced s t) (hf : f (vt_flush s) = f s)
    (hb : ∀ {s t}, Blur s t → Blur (f s) (f t)) : Synced (f s) (f t) := by
  rw [← hf]
  exact (hb h.blur).synced

theorem Synced.size (h : Synced s t) : t.wd = s.wd ∧ t.ht = s.ht ∧ t.curx = s.curx ∧ t.cury = s.cury := by
  obtain ⟨_, _, _, _, rfl⟩ := h.same
  exact ⟨rfl, rfl, rfl, rfl⟩

theorem Synced.row (h : Synced s t) {x x' : Int} (hx : x' = x) :
    Synced { vt_flush s with curx := x } { vt_flush t with curx := x' } := by
  rw [h.flush]
  exact (row_blur h.blur hx).synced

theorem Synced.column (h : Synced s t) (hy : y' = y) :
    Synced { vt_flush s with cury := y } { vt_flush t with cury := y' } := by
  rw [h.flush]
  exact (column_blur h.blur hy).synced

theorem Synced.move (h : Synced s t) {x x' y y' : Int} (hx : x' = x) (hy : y' = y) :
    Synced { vt_flush s with curx := x, cury := y } { vt_flush t with curx := x', cury := y' } := by
  rw [h.flush, hx, hy]
  exact (move_blur h.blur x y).synced

theorem Synced.fields (h : Synced s t) (curon autowrap : Bool) (savx savy params : Int) (parameter : Int → Int)
    (xtermemu : BitVec 16) (outfn : OutFn) :
    Synced { s with curon, autowrap, savx, savy, params, parameter, xtermemu, outfn }
      { t with curon, autowrap, savx, savy, params, parameter, xtermemu, outfn } := by
  obtain ⟨_, _, _, _, rfl⟩ := h.same
  exact ⟨h.nonzero, h.pending, h.bottom, ⟨h.whole.realized, h.whole.colors, h.whole.hist, h.whole.room, h.whole.offs,
    h.whole.six, h.whole.masked, h.whole.plain⟩, _, _, _, _, rfl⟩

theorem Synced.next (h : Synced s t) (outfn : OutFn) : Synced { s with outfn } { t with outfn } := by
  have hf := h.fields s.curon s.autowrap s.savx s.savy s.params s.parameter s.xtermemu outfn
  obtain ⟨_, _, _, _, rfl⟩ := h.same
  exact hf

theorem Synced.cursor_on (h : Synced s t) (curon : Bool) : Synced { s with curon } { t with curon } := by
  have hf := h.fields curon s.autowrap s.savx s.savy s.params s.parameter s.xtermemu s.outfn
  obtain ⟨_, _, _, _, rfl⟩ := h.same
  exact hf

theorem Synced.autowrap (h : Synced s t) (autowrap : Bool) : Synced { s with autowrap } { t with autowrap } := by
  have hf := h.fields s.curon autowrap s.savx s.savy s.params s.parameter s.xtermemu s.outfn
  obtain ⟨_, _, _, _, rfl⟩ := h.same
  exact hf

theorem Synced.save (h : Synced s t) : Synced (vt_cursor_save s) (vt_cursor_save t) := by
  have hf := h.fields s.curon s.autowrap s.curx s.cury s.params s.parameter s.xtermemu s.outfn
  obtain ⟨_, _, _, _, rfl⟩ := h.same
  exact hf

theorem Synced.touch (h : Synced s t) (size index : Int) : Synced (s.touch size index) (t.touch size index) := by
  obtain ⟨_, _, _, _, rfl⟩ := h.same
  exact ⟨h.nonzero, h.pending, h.bottom, ⟨h.whole.realized, h.whole.colors, h.whole.hist, h.whole.room, h.whole.offs,
    h.whole.six, h.whole.masked, h.whole.plain⟩, _, _, _, _, rfl⟩

theorem Synced.parameter (h : Synced s t) {params params' : Int} {parameter parameter' : Int → Int}
    (hp : params' = params) (hq : parameter' = parameter) :
    Synced { s with params, parameter } { t with params := params', parameter := parameter' } := by
  have hf := h.fields s.curon s.autowrap s.savx s.savy params parameter s.xtermemu s.outfn
  subst hp hq
  obtain ⟨_, _, _, _, rfl⟩ := h.same
  exact hf

theorem Synced.setattr (h : Synced s t) (h6 : Six attr) (ha : attr' = attr) :
    Synced (vt_setattr s attr) (vt_setattr t attr') := by
  rw [ha]
  apply h.of_flush (f := fun s => vt_setattr s attr)
  · unfold vt_setattr
    rw [vt_flush_flush]
  · intro s t hb
    exact vt_setattr_blur hb h6 rfl

theorem Synced.attributes (h : Synced s t) : t.curattr = s.curattr ∧ t.bgmode = s.bgmode ∧
    t.is_realized = s.is_realized ∧ t.Colors = s.Colors ∧ t.reversed = s.reversed := by
  obtain ⟨_, _, _, _, rfl⟩ := h.same
  exact ⟨rfl, rfl, rfl, rfl, rfl⟩

theorem Synced.of_empty (h : Synced s t) (hnil : s.outbuf = []) : Blur s t := by
  have hb := h.blur
  rw [vt_flush, if_pos hnil] at hb
  exact hb

theorem Synced.change_bgmode (h : Synced s t) {reverse : Bool}
    (hr : s.outbuf = [] ∨ s.bgmode = if reverse then VT_DRAW else VT_CLEAR) :
    Synced (vt_change_bgmode s reverse) (vt_change_bgmode t reverse) := by
  obtain ⟨e1, e2, e3, -, -⟩ := h.attributes
  have hreal : t.is_realized = true := h.whole.realized
  unfold vt_change_bgmode
  generalize (if reverse = true then VT_DRAW else VT_CLEAR) = mode at hr ⊢
  dsimp only
  by_cases hm : s.bgmode ≠ mode
  · have hm' : t.bgmode ≠ mode := by
      rw [e2]
      exact hm
    have hb := h.of_empty (hr.resolve_right hm)
    rw [if_pos hm, if_pos hm', if_pos (e3 ▸ hreal), if_pos hreal]
    exact (vt_setattr_blur (bgmode_blur hb mode) (hb.whole.six.xor six_reverse) (by rw [e1])).synced
  · have hm' : ¬ t.bgmode ≠ mode := by
      rw [e2]
      exact hm
    rw [if_neg hm, if_neg hm']
    exact h

end WWindowSystem
