import Mathlib.Data.List.GetD
import WWindowSystem.Wt.Terminal
import WWindowSystem.Wt.VtDrawing

namespace WWindowSystem

open List

def Vt.shown (s : Vt) : Terminal where
  wd := s.wd
  ht := s.ht
  histsize := s.histsize
  grid := gridRows s.text s.wd.toNat 0 s.ht.toNat
  history := gridRows s.text s.wd.toNat (-s.curhistsize) s.curhistsize.toNat
  curx := s.curx
  cury := s.cury
  savx := s.savx
  savy := s.savy
  autowrap := s.autowrap
  params := s.params
  outfn := s.outfn

variable {P : Prop} {s t u : Vt}

theorem Vt.Frame.inRows (h : s.Frame P) {k x : Int} (h1 : -s.curhistsize ≤ k) (h2 : k < s.ht) (h3 : 0 ≤ x)
    (h4 : x < s.wd.toNat) : s.InRows k x := by
  have hroom := h.room
  have hwd := h.wd
  exact ⟨by omega, h2, h3, by omega⟩

theorem Alike.shown (ha : Alike s t) (h : s.Frame P) : t.shown = s.shown := by
  have hhist := h.hist
  have hht := h.ht
  have htext := ha.2
  have he : t.shown = { s.shown with
      grid := gridRows t.text s.wd.toNat 0 s.ht.toNat
      history := gridRows t.text s.wd.toNat (-s.curhistsize) s.curhistsize.toNat } := by
    obtain ⟨⟨_, _, _, _, _, _, _, _, _, _, _, _, _, rfl⟩, -⟩ := ha
    rfl
  have hgrid : gridRows t.text s.wd.toNat 0 s.ht.toNat = gridRows s.text s.wd.toNat 0 s.ht.toNat :=
    gridRows_congr fun i x hi h0 hx => htext _ _ (h.inRows (by omega) (by omega) h0 hx)
  have hold : gridRows t.text s.wd.toNat (-s.curhistsize) s.curhistsize.toNat =
      gridRows s.text s.wd.toNat (-s.curhistsize) s.curhistsize.toNat :=
    gridRows_congr fun i x hi h0 hx => htext _ _ (h.inRows (by omega) (by omega) h0 hx)
  rw [he, hgrid, hold]
  rfl

theorem Vt.Live.flush_shown (h : s.Live P) : (vt_flush s).shown = s.shown :=
  (vt_flush_steady h.toCalm).alike.shown h.toFrame

theorem Drawn.shown (hd : Drawn u t) : t.shown = { u.shown with
    grid := gridRows t.text u.wd.toNat 0 u.ht.toNat
    history := gridRows t.text u.wd.toNat (-u.curhistsize) u.curhistsize.toNat } := by
  obtain ⟨_, _, rfl, -⟩ := hd
  rfl

theorem drawn_text (hd : Drawn u t) (hnil : u.outbuf = []) (k x : Int) :
    t.text k x = (t.cell k x).c ∧ u.text k x = (u.cell k x).c := by
  refine ⟨?_, text_of_nil hnil k x⟩
  obtain ⟨scr, acc, rfl, -⟩ := hd
  exact text_of_nil (s := u.draw scr acc) hnil k x

theorem Erases.shown {p : Int → Int → Bool} (he : Erases u t p) (h : u.Rest P)
    (hp : ∀ k x, k < 0 → p k x = false) : t.shown = u.shown.erase p := by
  have hhist := h.hist
  have hht := h.ht
  have htext (k x : Int) (hk : u.InRows k x) : t.text k x = if p k x then DEF_BGCHAR else u.text k x := by
    obtain ⟨h1, h2⟩ := drawn_text he.drawn h.empty k x
    rw [h1, h2, he.cells k x hk, apply_ite vtchar_t.c]
    rfl
  rw [he.drawn.shown]
  unfold Vt.shown Terminal.erase
  dsimp only
  congr 1
  · have hm := gridRows_mapIdx u.text (fun k x c => if p k x then DEF_BGCHAR else c) u.wd.toNat u.ht.toNat 0
    simp only [Int.zero_add] at hm
    rw [hm]
    exact gridRows_congr fun i x hi h0 hx => htext _ _ (h.toFrame.inRows (by omega) (by omega) h0 hx)
  · refine gridRows_congr fun i x hi h0 hx => ?_
    refine (htext _ _ (h.toFrame.inRows (by omega) (by omega) h0 hx)).trans ?_
    rw [hp _ _ (by omega)]
    rfl

theorem blank_row (h : s.Frame P) {f : Int → Int → Byte} {k : Int}
    (hf : ∀ x : Int, 0 ≤ x → x < s.wd → f k x = DEF_BGCHAR) : gridRow f s.wd.toNat k = s.shown.blank := by
  have hwd := h.wd
  unfold gridRow Terminal.blank
  rw [eq_replicate_iff]
  refine ⟨by rw [length_map, length_range]; rfl, fun c hc => ?_⟩
  obtain ⟨x, hx, rfl⟩ := mem_map.mp hc
  rw [mem_range] at hx
  exact hf x (by omega) (by omega)

theorem Moves.text {src : Int → Int} {fresh : Int} (hm : Moves u t src fresh) (hnil : u.outbuf = [])
    {k x : Int} (hk : u.InRows k x) : t.text k x = if k = fresh then DEF_BGCHAR else u.text (src k) x := by
  rw [(drawn_text hm.drawn hnil k x).1, (drawn_text hm.drawn hnil (src k) x).2, hm.cells k x hk,
    apply_ite vtchar_t.c]
  rfl

theorem Moves.shown_insert {y : Int} (hm : Moves u t (insertSrc y) y) (h : u.Rest P) (h0 : 0 ≤ y)
    (hy : y < u.ht) : t.shown = u.shown.insertRow y := by
  have hhist := h.hist
  have hht := h.ht
  have htext (k x : Int) (hk : u.InRows k x) := hm.text h.empty hk
  rw [hm.drawn.shown]
  obtain ⟨n, hn⟩ : ∃ n : Nat, u.ht.toNat = y.toNat + (n + 1) := ⟨(u.ht - y - 1).toNat, by omega⟩
  unfold Vt.shown Terminal.insertRow
  dsimp only
  congr 1
  · rw [hn, gridRows_insert, gridRows_add, gridRows_cons]
    have hin {k x : Int} (h1 : 0 ≤ k) (h2 : k < y.toNat + (n + 1)) (h3 : 0 ≤ x) (h4 : x < u.wd.toNat) :
        u.InRows k x := h.toFrame.inRows (by omega) (by omega) h3 h4
    congr 1
    · refine gridRows_congr fun i x hi h1 h2 => ?_
      rw [htext _ _ (hin (by omega) (by omega) h1 h2), if_neg (by omega), insertSrc, if_neg (by omega)]
    · congr 1
      · refine blank_row h.toFrame fun x h1 h2 => ?_
        rw [htext _ _ (hin (by omega) (by omega) h1 (by omega)), if_pos (by omega)]
      · refine gridRows_congr fun i x hi h1 h2 => ?_
        rw [htext _ _ (hin (by omega) (by omega) h1 h2), if_neg (by omega), insertSrc, if_pos (by omega)]
        congr 1
        omega
  · refine gridRows_congr fun i x hi h1 h2 => ?_
    rw [htext _ _ (h.toFrame.inRows (by omega) (by omega) h1 h2), if_neg (by omega), insertSrc, if_neg (by omega)]

theorem Moves.shown_delete {y : Int} (hm : Moves u t (deleteSrc y u.ht) (u.ht - 1)) (h : u.Rest P)
    (h0 : 0 ≤ y) (hy : y < u.ht) : t.shown = u.shown.deleteRow y := by
  have hhist := h.hist
  have hht := h.ht
  have htext (k x : Int) (hk : u.InRows k x) := hm.text h.empty hk
  rw [hm.drawn.shown]
  obtain ⟨n, hn⟩ : ∃ n : Nat, u.ht.toNat = y.toNat + (n + 1) := ⟨(u.ht - y - 1).toNat, by omega⟩
  unfold Vt.shown Terminal.deleteRow
  dsimp only
  congr 1
  · rw [hn, gridRows_erase, ← Nat.add_assoc, gridRows_succ, gridRows_add]
    have hin {k x : Int} (h1 : 0 ≤ k) (h2 : k < y.toNat + (n + 1)) (h3 : 0 ≤ x) (h4 : x < u.wd.toNat) :
        u.InRows k x := h.toFrame.inRows (by omega) (by omega) h3 h4
    congr 1
    · congr 1
      · refine gridRows_congr fun i x hi h1 h2 => ?_
        rw [htext _ _ (hin (by omega) (by omega) h1 h2), if_neg (by omega), deleteSrc, if_neg (by omega)]
      · refine gridRows_congr fun i x hi h1 h2 => ?_
        rw [htext _ _ (hin (by omega) (by omega) h1 h2), if_neg (by omega), deleteSrc, if_pos (by omega)]
        congr 1
        omega
    · rw [singleton_inj]
      refine blank_row h.toFrame fun x h1 h2 => ?_
      rw [htext _ _ (hin (by omega) (by omega) h1 (by omega)), if_pos (by omega)]
  · refine gridRows_congr fun i x hi h1 h2 => ?_
    rw [htext _ _ (h.toFrame.inRows (by omega) (by omega) h1 h2), if_neg (by omega), deleteSrc, if_neg (by omega)]

def Vt.Room (s : Vt) : Prop := s.curhistsize < s.histsize → s.curhistsize < s.screenht - s.ht

theorem vt_scroll_shown (h : u.Frame P) (hnil : u.outbuf = []) (hroom : u.Room) :
    (vt_scroll u).shown = u.shown.scroll := by
  have hhist := h.hist
  have hmost := h.most
  have hht := h.ht
  obtain ⟨offs, hf, hd, hcells⟩ := vt_scroll_spec h hnil hroom
  have htext (k x : Int) (hk : u.InRows k x) :
      (vt_scroll u).text k x = if k = u.ht - 1 then DEF_BGCHAR else u.text (k + 1) x := by
    rw [(drawn_text hd hnil k x).1, text_of_nil hnil, hcells k x hk, apply_ite vtchar_t.c]
    rfl
  rw [hd.shown]
  unfold Terminal.scroll
  obtain ⟨n, hn⟩ : ∃ n : Nat, u.ht.toNat = n + 1 := ⟨(u.ht - 1).toNat, by omega⟩
  have hgrid : gridRows (vt_scroll u).text u.wd.toNat 0 u.ht.toNat =
      u.shown.grid.drop 1 ++ [u.shown.blank] := by
    change _ = (gridRows u.text u.wd.toNat 0 u.ht.toNat).drop 1 ++ _
    rw [hn, gridRows_succ, gridRows_cons, drop_one, tail_cons]
    congr 1
    · refine gridRows_congr fun i x hi h0 hx => ?_
      rw [htext _ _ (h.inRows (by omega) (by omega) h0 hx), if_neg (by omega)]
      congr 1
      omega
    · rw [singleton_inj]
      refine blank_row h fun x h0 hx => ?_
      rw [htext _ _ (h.inRows (by omega) (by omega) h0 (by omega)), if_pos (by omega)]
  -- the top row follows the rows of the history
  have hall : u.shown.history ++ u.shown.grid.take 1 =
      gridRows u.text u.wd.toNat (-u.curhistsize) (u.curhistsize.toNat + 1) := by
    change gridRows u.text u.wd.toNat (-u.curhistsize) u.curhistsize.toNat ++
      (gridRows u.text u.wd.toNat 0 u.ht.toNat).take 1 = _
    rw [hn, gridRows_cons, take_one, head?_cons, gridRows_succ,
      show -u.curhistsize + (u.curhistsize.toNat : Int) = 0 by omega]
    rfl
  have hold : gridRows (vt_scroll u).text u.wd.toNat (-(u.scrolled offs).curhistsize)
      (u.scrolled offs).curhistsize.toNat = (u.shown.history ++ u.shown.grid.take 1).drop
        ((u.shown.history ++ u.shown.grid.take 1).length - u.histsize.toNat) := by
    rw [hall, length_gridRows]
    unfold Vt.scrolled
    dsimp only
    by_cases hlt : u.curhistsize < u.histsize
    · rw [if_pos hlt, show u.curhistsize.toNat + 1 - u.histsize.toNat = 0 by omega, drop_zero,
        show (u.curhistsize + 1).toNat = u.curhistsize.toNat + 1 by omega]
      have := hroom hlt
      refine gridRows_congr fun i x hi h0 hx => ?_
      have hwd := h.wd
      rw [htext _ _ ⟨by omega, by omega, h0, by omega⟩, if_neg (by omega)]
      congr 1
      omega
    · rw [if_neg hlt, show u.curhistsize.toNat + 1 - u.histsize.toNat = 1 by omega, gridRows_cons,
        drop_one, tail_cons]
      refine gridRows_congr fun i x hi h0 hx => ?_
      rw [htext _ _ (h.inRows (by omega) (by omega) h0 hx), if_neg (by omega)]
      congr 1
      omega
  change ({ (u.scrolled offs).shown with
    grid := gridRows (vt_scroll u).text u.wd.toNat 0 u.ht.toNat
    history := gridRows (vt_scroll u).text u.wd.toNat (-(u.scrolled offs).curhistsize)
      (u.scrolled offs).curhistsize.toNat } : Terminal) = _
  rw [hgrid, hold]
  rfl

theorem nextRow_spec (h : s.Rest P) (hroom : s.cury = s.ht - 1 → s.Room) :
    s.nextRow.Rest P ∧ s.nextRow.shown = s.shown.nextRow := by
  have hx := h.x
  have hy := h.y
  unfold Vt.nextRow Terminal.nextRow
  by_cases hlast : s.cury = s.ht - 1
  · rw [if_pos (by omega), if_pos (show s.shown.cury = s.shown.ht - 1 from hlast)]
    have hf : ({ s with cury := s.cury + 1 } : Vt).Frame P :=
      ⟨h.wd, h.ht, h.hist, h.room, h.most, h.offs, h.curoffs, h.saved, h.params, fun hP =>
        (h.clean hP).next rfl (fun _ ha => Or.inl ha) fun v hv => ⟨v, hv, rfl, rfl⟩⟩
    have hshown := vt_scroll_shown hf h.empty (hroom hlast)
    obtain ⟨offs, hf', hd, -⟩ := vt_scroll_spec hf h.empty (hroom hlast)
    have hft := hd.frame hf'
    generalize vt_scroll { s with cury := s.cury + 1 } = t at hshown hd hft ⊢
    constructor
    · refine ⟨⟨⟨hft.wd, hft.ht, hft.hist, hft.room, hft.most, hft.offs, hft.curoffs, hft.saved, hft.params,
        fun hP => (hft.clean hP).next rfl (fun _ ha => Or.inl ha) fun v hv => ⟨v, hv, rfl, rfl⟩⟩, ?_, ?_⟩, ?_⟩
      · obtain ⟨_, _, rfl, -⟩ := hd
        exact ⟨hx, show 0 ≤ s.ht - 1 ∧ s.ht - 1 < s.ht by omega⟩
      · obtain ⟨_, _, rfl, -⟩ := hd
        exact h.empty
      · obtain ⟨_, _, rfl, -⟩ := hd
        rfl
    · change { t.shown with cury := s.ht - 1 } = s.shown.scroll
      rw [hshown, ← hlast]
      rfl
  · rw [if_neg (by omega), if_neg (show ¬ s.shown.cury = s.shown.ht - 1 from hlast)]
    exact ⟨h.move hx (by omega), rfl⟩

def Vt.append (s : Vt) (c : Byte) : Vt :=
  let s := if s.outbuf = [] then { s with outx := s.curx, outy := s.cury } else s
  { s with outbuf := s.outbuf ++ [c], curx := s.curx + 1 }

structure Vt.Printing (P : Prop) (s : Vt) : Prop extends s.Frame P, s.Flushable where
  bottom : s.curoffs = s.offs
  pending : s.outbuf ≠ [] → s.outx + s.outbuf.length = s.curx ∧ s.outy = s.cury

theorem append_text (h : s.Live P) (c : Byte) (k x : Int) :
    (s.append c).text k x = if k = s.cury ∧ x = s.curx then c else s.text k x := by
  unfold Vt.append
  by_cases hnil : s.outbuf = []
  · rw [if_pos hnil, text_of_nil hnil]
    dsimp only
    unfold Vt.text
    dsimp only
    rw [hnil, nil_append, length_singleton]
    by_cases hin : k = s.cury ∧ x = s.curx
    · rw [if_pos (by omega), if_pos hin, hin.2, Int.sub_self]
      rfl
    · rw [if_neg (by omega), if_neg hin]
      rfl
  · obtain ⟨hx, hy⟩ := h.pending hnil
    rw [if_neg hnil]
    unfold Vt.text
    dsimp only
    rw [length_append, length_singleton, Int.natCast_add, Int.natCast_one]
    by_cases hin : k = s.cury ∧ x = s.curx
    · rw [if_pos (by omega), if_pos hin, show (x - s.outx).toNat = s.outbuf.length by omega]
      simp
    · rw [if_neg hin]
      by_cases hold : k = s.outy ∧ s.outx ≤ x ∧ x < s.outx + s.outbuf.length
      · rw [if_pos hold, if_pos (by omega), getD_append _ _ _ _ (by omega)]
      · rw [if_neg hold, if_neg (by omega)]
        rfl

theorem append_printing (h : s.Live P) {c : Byte} (hc : c ≠ 0) (hlen : s.outbuf.length < VT_BUFSIZE) :
    (s.append c).Printing P := by
  have hx := h.x
  have hy := h.y
  have hf (outx outy curx : Int) (outbuf : List Byte) : ({ s with outx, outy, curx, outbuf } : Vt).Frame P :=
    ⟨h.wd, h.ht, h.hist, h.room, h.most, h.offs, h.curoffs, h.saved, h.params, fun hP =>
      (h.clean hP).next rfl (fun _ ha => Or.inl ha) fun v hv => ⟨v, hv, rfl, rfl⟩⟩
  have hnew : 0 ∉ s.outbuf ++ [c] := by
    rw [mem_append, mem_singleton]
    rintro (h0 | h0)
    · exact h.nonzero h0
    · exact hc h0.symm
  have hbound : (s.outbuf ++ [c]).length ≤ VT_BUFSIZE := by
    rw [length_append, length_singleton]
    omega
  unfold Vt.append
  by_cases hnil : s.outbuf = []
  · rw [if_pos hnil]
    refine ⟨hf _ _ _ _, ⟨hnew, hbound, fun _ => ?_⟩, h.bottom, fun _ => ?_⟩
    · dsimp only
      rw [hnil, nil_append, length_singleton]
      exact ⟨h.bottom, by omega, hy⟩
    · dsimp only
      rw [hnil, nil_append, length_singleton]
      exact ⟨by omega, rfl⟩
  · obtain ⟨hox, hoy⟩ := h.pending hnil
    obtain ⟨-, ⟨hox0, -⟩, -⟩ := h.fits hnil
    rw [if_neg hnil]
    refine ⟨hf _ _ _ _, ⟨hnew, hbound, fun _ => ?_⟩, h.bottom, fun _ => ?_⟩
    · dsimp only
      rw [length_append, length_singleton]
      exact ⟨h.bottom, by omega, by omega⟩
    · dsimp only
      rw [length_append, length_singleton]
      exact ⟨by omega, hoy⟩

theorem append_shown (h : s.Live P) (c : Byte) : (s.append c).shown = { s.shown.write c with curx := s.curx + 1 } := by
  have hx := h.x
  have hy := h.y
  have he : (s.append c).shown = { s.shown with
      grid := gridRows (s.append c).text s.wd.toNat 0 s.ht.toNat
      history := gridRows (s.append c).text s.wd.toNat (-s.curhistsize) s.curhistsize.toNat
      curx := s.curx + 1 } := by
    unfold Vt.append
    split_ifs <;> rfl
  have hold : gridRows (s.append c).text s.wd.toNat (-s.curhistsize) s.curhistsize.toNat = s.shown.history := by
    refine gridRows_congr fun i x hi _ _ => ?_
    rw [append_text h, if_neg (by omega)]
  have hgrid : gridRows (s.append c).text s.wd.toNat 0 s.ht.toNat = (s.shown.write c).grid := by
    refine Eq.trans ?_ (gridRows_modify s.text s.wd.toNat s.ht.toNat s.cury.toNat s.curx.toNat c).symm
    refine gridRows_congr fun i x _ _ _ => ?_
    rw [append_text h, Int.toNat_of_nonneg hy.1, Int.toNat_of_nonneg hx.1]
  rw [he, hold, hgrid]
  rfl

theorem vt_addchar_append (s : Vt) (c : Byte) :
    { vt_addchar s c with curx := (vt_addchar s c).curx + 1 } =
      (if s.outbuf.length ≥ VT_BUFSIZE then vt_flush s else s).append c := by
  unfold vt_addchar Vt.append
  generalize (if s.outbuf.length ≥ VT_BUFSIZE then vt_flush s else s) = t
  dsimp only

theorem vt_addchar_spec (h : s.Live P) {c : Byte} (hc : c ≠ 0) :
    ({ vt_addchar s c with curx := (vt_addchar s c).curx + 1 } : Vt).Printing P ∧
      Vt.shown { vt_addchar s c with curx := (vt_addchar s c).curx + 1 } =
        { s.shown.write c with curx := s.curx + 1 } := by
  rw [vt_addchar_append]
  split_ifs with hfull
  · have hr := h.flush
    refine ⟨append_printing hr.live hc ?_, ?_⟩
    · rw [hr.empty]
      decide
    · rw [append_shown hr.live, h.flush_shown]
      obtain ⟨_, _, he⟩ := vt_flush_draw h.toFrame h.toFlushable
      rw [he]
      rfl
  · exact ⟨append_printing h hc (by omega), append_shown h c⟩

theorem vt_addchar_draw (h : s.Live P) (c : Byte) : ∃ screen touched outx outy outbuf,
    vt_addchar s c = { s with screen, touched, outx, outy, outbuf } := by
  obtain ⟨scr, acc, he⟩ := vt_flush_draw h.toFrame h.toFlushable
  unfold vt_addchar
  rw [he]
  dsimp only
  split_ifs
  · exact ⟨_, _, _, _, _, rfl⟩
  · exact ⟨_, _, _, _, _, rfl⟩
  · exact ⟨_, _, _, _, _, rfl⟩
  · exact ⟨_, _, _, _, _, rfl⟩

theorem print_inside (t : Terminal) (c : Byte) (h : t.curx < t.wd - 1) :
    t.print c = { t.write c with curx := t.curx + 1 } :=
  if_pos h

theorem print_wrap (t : Terminal) (c : Byte) (h : ¬ t.curx < t.wd - 1) (ha : t.autowrap = true) :
    t.print c = { t.write c with curx := 0 }.nextRow :=
  (if_neg h).trans (if_pos ha)

theorem print_stick (t : Terminal) (c : Byte) (h : ¬ t.curx < t.wd - 1) (ha : ¬ t.autowrap = true) :
    t.print c = t.write c :=
  (if_neg h).trans (if_neg ha)

theorem vt_print_spec (h : s.Live P) {c : Byte} (hc : c ≠ 0)
    (hroom : s.autowrap = true → s.curx = s.wd - 1 → s.cury = s.ht - 1 → s.Room) :
    (vt_print s c).Live P ∧ (vt_print s c).shown = s.shown.print c := by
  have hx := h.x
  have hy := h.y
  obtain ⟨hb, hshown⟩ := vt_addchar_spec h hc
  obtain ⟨scr, acc, ox, oy, ob, he⟩ := vt_addchar_draw h c
  unfold vt_print
  rw [he] at hb hshown ⊢
  dsimp only at hb hshown ⊢
  by_cases hlast : s.curx + 1 ≥ s.wd
  · have hstuck : ¬ s.shown.curx < s.shown.wd - 1 := show ¬ s.curx < s.wd - 1 by omega
    rw [if_pos hlast]
    have hf := vt_flush_frame hb.toFrame hb.toFlushable
    have hsame := (vt_flush_alike hb.toFrame hb.toFlushable).shown hb.toFrame
    obtain ⟨scr', acc', he'⟩ := vt_flush_draw hb.toFrame hb.toFlushable
    rw [hshown] at hsame
    generalize vt_flush _ = f at hf hsame he' ⊢
    have haw : f.autowrap = s.autowrap := he' ▸ rfl
    have hrest (curx : Int) (hcurx : 0 ≤ curx ∧ curx < s.wd) :
        Vt.Rest P { s with screen := scr', touched := acc', outx := ox, outy := oy, outbuf := [], curx } := by
      subst he'
      exact ⟨⟨⟨hf.wd, hf.ht, hf.hist, hf.room, hf.most, hf.offs, hf.curoffs, hf.saved, hf.params, fun hP =>
        (hf.clean hP).next rfl (fun _ ha => Or.inl ha) fun v hv => ⟨v, hv, rfl, rfl⟩⟩,
        ⟨hcurx, hy⟩, rfl⟩, h.bottom⟩
    by_cases hwrap : s.autowrap = true
    · rw [print_wrap s.shown c hstuck hwrap]
      rw [if_neg (not_not_intro (haw.trans hwrap))]
      subst he'
      obtain ⟨h1, h2⟩ := nextRow_spec (hrest 0 (by omega)) fun hcury => hroom hwrap (by omega) hcury
      exact ⟨h1.live, h2.trans (congrArg (fun t : Terminal => { t with curx := 0 }.nextRow) hsame)⟩
    · rw [print_stick s.shown c hstuck hwrap]
      rw [if_pos (haw ▸ hwrap)]
      subst he'
      refine ⟨(hrest (s.wd - 1) (by omega)).live, ?_⟩
      refine (congrArg (fun t : Terminal => { t with curx := s.wd - 1 }) hsame).trans ?_
      rw [show s.wd - 1 = s.curx by omega]
      rfl
  · rw [if_neg hlast, print_inside s.shown c (show s.curx < s.wd - 1 by omega)]
    exact ⟨⟨⟨hb.toFrame, hb.toFlushable, ⟨by dsimp only; omega, hy⟩, hb.pending⟩, hb.bottom⟩, hshown⟩

end WWindowSystem
