import WWindowSystem.Library.Run
import WWindowSystem.Wt.VtRedraw

namespace WWindowSystem

variable {P : Prop} {s t : Vt}

theorem wrapped_eq (a : Int) {n : Int} (hn : 0 < n) : wrapped a n = a % n := by
  have h0 := Int.emod_nonneg a (show n ≠ 0 by omega)
  have h1 := Int.emod_lt_of_pos a hn
  have ht := @Int.tmod_eq_emod a n
  unfold wrapped
  rw [ht]
  split_ifs <;> omega

theorem resizeCells_spec (old : Int → vtchar_t) (size nsize : Int) (n : Nat) (nscreen : Int → vtchar_t)
    (touched : List Access) (vcp1 vcp2 : Int) : (∀ p, (resizeCells old size nsize n nscreen touched vcp1 vcp2).1 p =
        if vcp1 ≤ p ∧ p < vcp1 + n then old (vcp2 + (p - vcp1)) else nscreen p) ∧
      ∀ a ∈ (resizeCells old size nsize n nscreen touched vcp1 vcp2).2, a ∈ touched ∨
        ∃ m : Nat, m < n ∧ (a = ⟨nsize, vcp1 + m⟩ ∨ a = ⟨size, vcp2 + m⟩) := by
  induction n generalizing nscreen touched vcp1 vcp2 with
  | zero =>
    refine ⟨fun p => ?_, fun a ha => Or.inl ha⟩
    rw [if_neg (by omega)]
    rfl
  | succ n ih =>
    rw [resizeCells]
    obtain ⟨h1, h2⟩ := ih (Function.update nscreen vcp1 (old vcp2))
      (⟨nsize, vcp1⟩ :: ⟨size, vcp2⟩ :: touched) (vcp1 + 1) (vcp2 + 1)
    constructor
    · intro p
      rw [h1, Function.update_apply]
      by_cases hp : p = vcp1
      · rw [if_neg (by omega), if_pos hp, if_pos (by omega), hp, Int.sub_self, Int.add_zero]
      · rw [if_neg hp, show vcp2 + 1 + (p - (vcp1 + 1)) = vcp2 + (p - vcp1) by omega]
        exact if_congr (by omega) rfl rfl
    · intro a ha
      obtain ha | ⟨m, hm, ha⟩ := h2 a ha
      · rw [List.mem_cons, List.mem_cons] at ha
        obtain rfl | rfl | ha := ha
        · exact Or.inr ⟨0, by omega, Or.inl (by simp)⟩
        · exact Or.inr ⟨0, by omega, Or.inr (by simp)⟩
        · exact Or.inl ha
      · refine Or.inr ⟨m + 1, by omega, ?_⟩
        rw [show vcp1 + ((m + 1 : Nat) : Int) = vcp1 + 1 + m by omega,
          show vcp2 + ((m + 1 : Nat) : Int) = vcp2 + 1 + m by omega]
        exact ha

variable {wd ht screenht : Int}

theorem resizeRow_spec (hs : s.Sized) (hwd : 0 < wd) (hh : 0 < screenht) (j i : Int)
    (nscreen : Int → vtchar_t) (touched : List Access) : (∀ k x, 0 ≤ x → x < wd →
      (resizeCells s.screen s.screen_size (wd * screenht) (min s.wd wd).toNat nscreen touched
        (rowStart wd screenht i) (rowStart s.wd s.screenht j)).1 (rowStart wd screenht k + x) =
          if k % screenht = i % screenht ∧ x < s.wd then s.ring j x else nscreen (rowStart wd screenht k + x)) ∧
      ∀ a ∈ (resizeCells s.screen s.screen_size (wd * screenht) (min s.wd wd).toNat nscreen touched
        (rowStart wd screenht i) (rowStart s.wd s.screenht j)).2, a ∈ touched ∨ a.Inside := by
  have hw := hs.wd
  obtain ⟨h1, h2⟩ := resizeCells_spec s.screen s.screen_size (wd * screenht) (min s.wd wd).toNat nscreen
    touched (rowStart wd screenht i) (rowStart s.wd s.screenht j)
  constructor
  · intro k x h0 hx
    rw [h1]
    by_cases hin : k % screenht = i % screenht ∧ x < s.wd
    · rw [if_pos hin, rowStart_congr hin.1, if_pos (by omega), Vt.ring]
      congr 1
      omega
    · rw [if_neg hin, if_neg]
      rintro ⟨hlo, hhi⟩
      have hcell : rowStart wd screenht k + x =
          rowStart wd screenht i + (rowStart wd screenht k + x - rowStart wd screenht i) := by omega
      have hc := (cell_inj h0 hx (by omega) (by omega)).mp hcell
      exact hin ⟨hc.1, by omega⟩
  · intro a ha
    obtain ha | ⟨m, hm, rfl | rfl⟩ := h2 a ha
    · exact Or.inl ha
    · exact Or.inr (rowStart_inside hh i (by omega) (by omega))
    · exact Or.inr (rowStart_inside hs.screenht j (by omega) (by omega))

theorem resizeRows_spec (ht : Int) (hs : s.Sized) (hwd : 0 < wd) (hh : 0 < screenht) (i : Nat) (hi : (i : Int) ≤ screenht)
    (nscreen : Int → vtchar_t) (touched : List Access) :
    (∀ k x, min s.ht ht - screenht ≤ k → k < min s.ht ht → 0 ≤ x → x < wd →
      (resizeRows s wd ht screenht i nscreen touched).1 (rowStart wd screenht k + x) =
        if min s.ht ht - i ≤ k ∧ x < s.wd then s.ring (s.curoffs + k) x else nscreen (rowStart wd screenht k + x)) ∧
      ∀ a ∈ (resizeRows s wd ht screenht i nscreen touched).2, a ∈ touched ∨ a.Inside := by
  induction i generalizing nscreen touched with
  | zero =>
    refine ⟨fun k x _ _ _ _ => ?_, fun a ha => Or.inl ha⟩
    rw [if_neg (by omega)]
    rfl
  | succ i ih =>
    rw [resizeRows]
    rw [wrapped_eq _ hh, wrapped_eq _ hs.screenht]
    obtain ⟨h1, h2⟩ := resizeRow_spec hs hwd hh (s.curoffs + min s.ht ht - 1 - i) (min s.ht ht - 1 - i)
      nscreen touched
    unfold rowStart at h1 h2
    obtain ⟨h3, h4⟩ := ih (by omega)
      (resizeCells s.screen s.screen_size (wd * screenht) (min s.wd wd).toNat nscreen touched
        ((min s.ht ht - 1 - i) % screenht * wd) ((s.curoffs + min s.ht ht - 1 - i) % s.screenht * s.wd)).1
      (resizeCells s.screen s.screen_size (wd * screenht) (min s.wd wd).toNat nscreen touched
        ((min s.ht ht - 1 - i) % screenht * wd) ((s.curoffs + min s.ht ht - 1 - i) % s.screenht * s.wd)).2
    constructor
    · intro k x hlo hhi h0 hx
      rw [h3 k x hlo hhi h0 hx, rowStart, h1 k x h0 hx]
      by_cases hk : k = min s.ht ht - 1 - i
      · rw [if_neg (by omega), hk]
        by_cases hxw : x < s.wd
        · rw [if_pos ⟨rfl, hxw⟩, if_pos (by omega)]
          congr 1
          omega
        · rw [if_neg (fun h => hxw h.2), if_neg (fun h => hxw h.2)]
      · have hne : ¬ (k % screenht = (min s.ht ht - 1 - i) % screenht ∧ x < s.wd) := by
          rintro ⟨he, -⟩
          exact hk (row_inj he (by omega) (by omega))
        rw [if_neg hne]
        exact if_congr (by omega) rfl rfl
    · intro a ha
      obtain ha | ha := h4 a ha
      · exact h2 a ha
      · exact Or.inr ha

def Vt.copied (s : Vt) (wd ht screenht : Int) : (Int → vtchar_t) × List Access :=
  resizeRows s wd ht screenht (min s.screenht screenht).toNat (fun _ => s.stored DEF_BGCHAR)
    ((List.range (wd * screenht).toNat).map (fun i : Nat => (⟨wd * screenht, i⟩ : Access)) ++ s.touched)

def Vt.resized (s : Vt) (wd ht screenht : Int) : Vt :=
  { s with
    wd, ht, screenht, screen := (s.copied wd ht screenht).1, touched := (s.copied wd ht screenht).2
    curoffs := 0, offs := 0, curx := min (wd - 1) s.curx, cury := min (ht - 1) s.cury
    savx := min (wd - 1) s.savx, savy := min (ht - 1) s.savy }

theorem copied_spec (h : s.Rest P) (hwd : 0 < wd) (hh : 0 < screenht) :
    (∀ k x, min s.ht ht - screenht ≤ k → k < min s.ht ht → 0 ≤ x → x < wd →
      (s.copied wd ht screenht).1 (rowStart wd screenht k + x) =
        if min s.ht ht - min s.screenht screenht ≤ k ∧ x < s.wd then s.cell k x else s.stored DEF_BGCHAR) ∧
      ∀ a ∈ (s.copied wd ht screenht).2, a ∈ s.touched ∨ a.Inside := by
  have hs := h.toFrame.sized.screenht
  obtain ⟨h1, h2⟩ := resizeRows_spec ht h.toFrame.sized hwd hh (min s.screenht screenht).toNat (by omega)
    (fun _ => s.stored DEF_BGCHAR)
    ((List.range (wd * screenht).toNat).map (fun i : Nat => (⟨wd * screenht, i⟩ : Access)) ++ s.touched)
  constructor
  · intro k x hlo hhi h0 hx
    refine (h1 k x hlo hhi h0 hx).trans ?_
    rw [h.bottom, Int.toNat_of_nonneg (by omega)]
    rfl
  · intro a ha
    obtain ha | ha := h2 a ha
    · rw [List.mem_append, List.mem_map] at ha
      obtain ⟨i, hi, rfl⟩ | ha := ha
      · rw [List.mem_range] at hi
        exact Or.inr ⟨by dsimp only; omega, by dsimp only; omega⟩
      · exact Or.inl ha
    · exact Or.inr ha

theorem resized_has (h : s.Rest P) (hwd : 0 < wd) (hh : 0 < screenht) {v : vtchar_t}
    (hv : (s.resized wd ht screenht).Has v) : s.Has v := by
  obtain ⟨j, x, h0, hx, hv⟩ | hv := hv
  · obtain ⟨k, hlo, hhi, hk⟩ := row_window hh (min s.ht ht - screenht) j
    have hcell := (copied_spec h hwd hh).1 k x hlo (by omega) h0 hx
    rw [rowStart_congr hk] at hcell
    have hv' := hcell.symm.trans hv
    split_ifs at hv' with hold
    · exact Or.inl ⟨s.offs + k, x, h0, hold.2, hv'⟩
    · exact Or.inr ⟨DEF_BGCHAR, hv'⟩
  · exact Or.inr hv

theorem resized_idle (h : s.Rest P) (hwd : 0 < wd) (hht : 0 < ht) (hroom : s.curhistsize ≤ screenht - ht) :
    (s.resized wd ht screenht).Idle P := by
  have hhist := h.hist
  have hx := h.x
  have hy := h.y
  have hsave := h.saved
  refine ⟨⟨hwd, hht, hhist, hroom, h.most, ?_, ?_, ?_, h.params, fun hP => ?_⟩, ⟨?_, ?_⟩, h.empty⟩
  · change 0 ≤ 0 ∧ 0 < screenht
    omega
  · change 0 ≤ 0 ∧ 0 < screenht
    omega
  · change (0 ≤ min (wd - 1) s.savx ∧ min (wd - 1) s.savx < wd) ∧
      0 ≤ min (ht - 1) s.savy ∧ min (ht - 1) s.savy < ht
    omega
  · exact (h.clean hP).next rfl (copied_spec h hwd (by omega)).2 fun v hv =>
      ⟨v, resized_has h hwd (by omega) hv, rfl, rfl⟩
  · change 0 ≤ min (wd - 1) s.curx ∧ min (wd - 1) s.curx < wd
    omega
  · change 0 ≤ min (ht - 1) s.cury ∧ min (ht - 1) s.cury < ht
    omega

theorem resized_text (h : s.Rest P) (hwd : 0 < wd) (hht : 0 < ht) (hroom : s.curhistsize ≤ screenht - ht)
    {k x : Int} (hk : -s.curhistsize ≤ k ∧ k < min s.ht ht) (hx : 0 ≤ x ∧ x < min s.wd wd) :
    (s.resized wd ht screenht).text k x = s.text k x := by
  have hold := h.room
  have hhist := h.hist
  rw [text_of_nil h.empty, text_of_nil (s := s.resized wd ht screenht) h.empty]
  have hcell := (copied_spec h hwd (show 0 < screenht by omega)).1 k x (by omega) hk.2 hx.1 (by omega)
  rw [if_pos (by omega)] at hcell
  rw [← hcell]
  change ((s.copied wd ht screenht).1 (rowStart wd screenht (0 + k) + x)).c = _
  rw [Int.zero_add]

def resizeHt (ht : Int) : Int := if ht < 1 then 1 else ht
def resizeScreenht (ht screenht : Int) : Int := if screenht < resizeHt ht then resizeHt ht else screenht

theorem vt_resize_eq (s : Vt) (wd ht screenht : Int) : vt_resize s wd ht screenht =
    if (if wd < 1 then 1 else wd) = s.wd ∧ resizeHt ht = s.ht ∧ resizeScreenht ht screenht = s.screenht then s
    else vt_cursor_show (vt_redraw ((vt_cursor_hide (vt_vmove (vt_flush s) 0)).resized
      (if wd < 1 then 1 else wd) (resizeHt ht) (resizeScreenht ht screenht)) 0 (resizeHt ht)) :=
  rfl

structure Resized (s t : Vt) (wd ht : Int) : Prop where
  wd : t.wd = max wd 1
  ht : t.ht = max ht 1
  curhistsize : t.curhistsize = s.curhistsize
  histsize : t.histsize = s.histsize
  text : ∀ k x, -s.curhistsize ≤ k → k < min s.ht t.ht → 0 ≤ x → x < min s.wd t.wd → t.text k x = s.text k x

theorem vt_resize_spec (h : s.Idle P) (hroom : s.curhistsize ≤ resizeScreenht ht screenht - resizeHt ht) :
    (vt_resize s wd ht screenht).Idle P ∧ Resized s (vt_resize s wd ht screenht) wd ht := by
  have hw : 0 < (if wd < 1 then 1 else wd) ∧ (if wd < 1 then 1 else wd) = max wd 1 := by
    split_ifs <;> omega
  have hh : 0 < resizeHt ht ∧ resizeHt ht = max ht 1 := by
    unfold resizeHt
    split_ifs <;> omega
  rw [vt_resize_eq]
  by_cases hsame : (if wd < 1 then 1 else wd) = s.wd ∧ resizeHt ht = s.ht ∧ resizeScreenht ht screenht = s.screenht
  · rw [if_pos hsame]
    exact ⟨h, hsame.1.symm.trans hw.2, hsame.2.1.symm.trans hh.2, rfl, rfl, fun _ _ _ _ _ _ => rfl⟩
  · rw [if_neg hsame, vt_flush_nil h.empty]
    have hr := vt_vmove_rest h
    obtain ⟨c, hc, -, hs⟩ := vt_vmove_spec h 0
    obtain ⟨hcalm, ⟨⟨_, _, _, _, _, _, _, _, _, _, _, _, _, ht'⟩, htext⟩, hempty⟩ := hs
    generalize vt_vmove s 0 = u at hr ht' htext
    have hide : (vt_cursor_hide u).Rest P :=
      ⟨(curvis_steady hr.live.toCalm false).idle hr.empty, hr.bottom⟩
    have hsize : u.wd = s.wd ∧ u.ht = s.ht ∧ u.curhistsize = s.curhistsize ∧ u.screenht = s.screenht ∧
        u.histsize = s.histsize := by
      rw [ht']
      exact ⟨rfl, rfl, rfl, rfl, rfl⟩
    have hroom' : (vt_cursor_hide u).curhistsize ≤ resizeScreenht ht screenht - resizeHt ht := by
      rw [← hsize.2.2.1] at hroom
      exact hroom
    have hi := resized_idle hide hw.1 hh.1 hroom'
    have hdraw := vt_redraw_steady hi.calm (le_refl 0) (show 0 < resizeScreenht ht screenht by
      have := h.hist
      omega) (resizeHt ht)
    have hall := hdraw.trans (vt_cursor_show_steady hdraw.calm)
    refine ⟨hall.idle hi.empty, ?_⟩
    obtain ⟨-, ⟨⟨_, _, _, _, _, _, _, _, _, _, _, _, _, hlast⟩, hsame'⟩, -⟩ := hall
    rw [hlast] at hsame' ⊢
    refine ⟨hw.2, hh.2, hsize.2.2.1, hsize.2.2.2.2, fun k x h1 h2 h3 h4 => ?_⟩
    have hhist := h.hist
    have hroom0 := h.room
    dsimp only [Vt.resized] at h2 h4
    refine (hsame' k x ⟨?_, ?_, h3, ?_⟩).trans ?_
    · change resizeHt ht - resizeScreenht ht screenht ≤ k
      omega
    · change k < resizeHt ht
      omega
    · dsimp only [Vt.resized]
      omega
    · refine (resized_text hide hw.1 hh.1 hroom' (k := k) (x := x) ⟨?_, ?_⟩ ⟨h3, ?_⟩).trans ?_
      · change -u.curhistsize ≤ k
        omega
      · change k < min u.ht _
        omega
      · change x < min u.wd _
        omega
      · exact htext k x ⟨by dsimp only; omega, by dsimp only; omega, h3, by dsimp only; omega⟩

end WWindowSystem

namespace WWindowSystem

inductive VtCall where
  | output (cp : List Byte)
  | vmove (offs : Int)
  | resize (wd ht screenht : Int)
  deriving DecidableEq

def vtCall (s : Vt) : VtCall → Vt
  | .output cp => vt_output s cp
  | .vmove offs => vt_vmove s offs
  | .resize wd ht screenht => vt_resize s wd ht screenht

def Vt.started (s : Vt) : Vt := vt_cursor_hide (vt_vmove s 0)

def Vt.Fits (s : Vt) (c : Byte) : Prop := s.Scrolls c → s.Room

def Vt.Accepts (s : Vt) (c : Byte) : Prop := s.Colored c ∧ s.Fits c

instance Vt.Fits.decidable (s : Vt) (c : Byte) : Decidable (s.Fits c) :=
  inferInstanceAs (Decidable (_ ∧ _ ∧ (_ ∨ _ ∧ _) → (_ → _)))

instance Vt.Accepts.decidable (s : Vt) (c : Byte) : Decidable (s.Accepts c) :=
  inferInstanceAs (Decidable ((_ ∨ _ → ¬ (_ = _) → _) ∧ _))

def VtCall.Safe (byte : Vt → Byte → Prop) (s : Vt) : VtCall → Prop
  | .output cp => AllSafe Vt.putc byte s.started cp
  | .vmove _ => True
  | .resize _ ht screenht => s.curhistsize ≤ resizeScreenht ht screenht - resizeHt ht

instance VtCall.Safe.decidable (byte : Vt → Byte → Prop) [∀ s c, Decidable (byte s c)] (s : Vt) (e : VtCall) :
    Decidable (e.Safe byte s) :=
  match e with
  | .output _ => inferInstanceAs (Decidable (AllSafe _ _ _ _))
  | .vmove _ => inferInstanceAs (Decidable True)
  | .resize _ _ _ => inferInstanceAs (Decidable (_ ≤ _))

variable {P : Prop} {s t : Vt} {byte : Vt → Byte → Prop}

theorem started_presents (h : s.Idle P) : Presents P s.started s.shown := by
  have hr := vt_vmove_rest h
  exact ⟨hr.live.flags false _ _ _, vt_vmove_shown h 0⟩

theorem putcs_presents (hb : ∀ s c, byte s c → (P → s.Colored c) ∧ s.Fits c) {cp : List Byte} (h : s.Live P)
    (hs : AllSafe Vt.putc byte s cp) : Presents P (cp.foldl Vt.putc s) (s.shown.output cp) := by
  induction cp generalizing s with
  | nil => exact ⟨h, rfl⟩
  | cons c cp ih =>
    obtain ⟨hcolor, hroom⟩ := hb s c hs.1
    have hp := putc_presents h c hcolor hroom
    have hr := ih hp.live hs.2
    rw [hp.shown] at hr
    exact hr

theorem started_putcs (hb : ∀ s c, byte s c → (P → s.Colored c) ∧ s.Fits c) {cp : List Byte} (h : s.Idle P)
    (hs : AllSafe Vt.putc byte s.started cp) : Presents P (cp.foldl Vt.putc s.started) (s.shown.output cp) := by
  have hstart := started_presents h
  have hp := putcs_presents hb hstart.live hs
  rw [hstart.shown] at hp
  exact hp

theorem vt_output_spec (hb : ∀ s c, byte s c → (P → s.Colored c) ∧ s.Fits c) {cp : List Byte} (h : s.Idle P)
    (hs : AllSafe Vt.putc byte s.started cp) :
    (vt_output s cp).Idle P ∧ (vt_output s cp).shown = s.shown.output cp := by
  have hp := started_putcs hb h hs
  have hf := hp.live.flush
  have hshow := vt_cursor_show_steady hf.live.toCalm
  refine ⟨hshow.idle hf.empty, (hshow.alike.shown hf.toFrame).trans ?_⟩
  rw [hp.live.flush_shown, hp.shown]

theorem vtCall_idle (hb : ∀ s c, byte s c → (P → s.Colored c) ∧ s.Fits c) (h : s.Idle P) {e : VtCall}
    (hs : e.Safe byte s) : (vtCall s e).Idle P := by
  cases e with
  | output cp => exact (vt_output_spec hb h hs).1
  | vmove offs => exact vt_vmove_idle h offs
  | resize wd ht screenht => exact (vt_resize_spec h hs).1

structure Vt.Kept (s : Vt) : Prop where
  cursor : (0 ≤ s.curx ∧ s.curx < s.wd) ∧ 0 ≤ s.cury ∧ s.cury < s.ht
  saved : (0 ≤ s.savx ∧ s.savx < s.wd) ∧ 0 ≤ s.savy ∧ s.savy < s.ht
  offs : (0 ≤ s.offs ∧ s.offs < s.screenht) ∧ 0 ≤ s.curoffs ∧ s.curoffs < s.screenht
  history : s.curhistsize ≤ s.screenht - s.ht
  params : 0 ≤ s.params ∧ s.params < MAX_PARAMETERS
  buffer : s.outbuf.length ≤ VT_BUFSIZE
  fits : s.outbuf ≠ [] → (0 ≤ s.outx ∧ s.outx + s.outbuf.length ≤ s.wd) ∧ 0 ≤ s.outy ∧ s.outy < s.ht
  inside : ∀ a ∈ s.touched, 0 ≤ a.index ∧ a.index < a.size

theorem Vt.Calm.kept (h : s.Calm True) : s.Kept :=
  ⟨⟨h.x, h.y⟩, h.saved, ⟨h.offs, h.curoffs⟩, h.room, h.params, h.bounded, fun hne => (h.fits hne).2,
    (h.clean trivial).touched⟩

def VtCall.Kept (s : Vt) : VtCall → Prop
  | .output cp => (∀ cp', cp' <+: cp → (cp'.foldl Vt.putc s.started).Kept) ∧ (vt_output s cp).Kept
  | .vmove offs => (vt_vmove s offs).Kept
  | .resize wd ht screenht => (vt_resize s wd ht screenht).Kept

theorem accepts_colored {P : Prop} (s : Vt) (c : Byte) (h : s.Accepts c) : (P → s.Colored c) ∧ s.Fits c :=
  ⟨fun _ => h.1, h.2⟩

theorem vtCall_kept (h : s.Idle True) {e : VtCall} (hs : e.Safe Vt.Accepts s) : e.Kept s := by
  have hi := vtCall_idle accepts_colored h hs
  cases e with
  | output cp =>
    refine ⟨fun cp' hp => ?_, hi.calm.kept⟩
    exact (started_putcs accepts_colored h (hs.start hp)).live.toCalm.kept
  | vmove offs => exact hi.calm.kept
  | resize wd ht screenht => exact hi.calm.kept

variable {o : VtOptions} {wd ht : Int} {l : List VtCall}

def colored : VtOptions where
  Colors := 8
  histsize := 2
  style_mask := 0x1e
  font_mask := 0x01
  reversed := false
  bgmode := VT_CLEAR

def redLine : List VtCall := [.output [65, 10, 27, 98, 0x31, 66], .vmove 1, .resize 3 2 4]

def lowered : List VtCall := [.output [65, 10, 66, 10, 67], .resize 2 0 2]

end WWindowSystem
