import WWindowSystem.Wt.HtmlRun

namespace WWindowSystem

open List

variable {E : HtmlEnv} {w w' : html_widget_t} {p : Parser}

structure Parser.Sound (p : Parser) : Prop where
  good : p.w.core.Good
  room : (p.buf.length : Int) < WORDBUF - 2
  brk : 0 ≤ p.breakchar ∧ p.breakchar ≤ p.buf.length
  arg : ∀ t, p.mode = .arg t → t.Held ∧ t.args.length = t.i
  call : ∀ t, p.mode = .call t → t.Held

def Parser.Ok (E : HtmlEnv) (p : Parser) : Prop :=
  match p.mode with
  | .text => True
  | .tab => p.w.m.x > p.w.area_x + p.w.area_w → p.w.m.indent < p.w.area_w
  | .arg t => t.ArgOk p.w
  | .call t => t.CallOk E p.w
  | .done => True

theorem doprint_stays (h : w.core.Good) {buf : List Byte} (hroom : (buf.length : Int) + 1 ≤ WORDBUF) :
    Stays w (doprint w buf) := by
  have hlen := cstr_length buf
  have hread : Stays w (w.span WORDBUF 0 ((cstr buf).length + 1)) :=
    ⟨span_good h (le_refl 0) (by push_cast; omega), rfl⟩
  unfold doprint
  dsimp only
  by_cases hh : w.m.header ≠ 0
  · rw [if_pos hh]
    exact Stays.refl h
  rw [if_neg hh]
  generalize w.span WORDBUF 0 ((cstr buf).length + 1) = u at hread ⊢
  exact hread.of_core (ite_core rfl rfl)

structure Parser.Flushed (p p' : Parser) : Prop where
  stays : Stays p.w p'.w
  empty : p'.buf = []
  brk : p'.breakchar = 0
  mode : p'.mode = p.mode

theorem print_flushed (h : p.w.core.Good) (hroom : (p.buf.length : Int) + 1 ≤ WORDBUF) : p.Flushed p.print := by
  have htouch : Stays p.w (p.w.touch WORDBUF p.buf.length) := touch_stays (Stays.refl h) _ _ (by omega) (by omega)
  exact ⟨htouch.trans (doprint_stays htouch.1 hroom), rfl, rfl, rfl⟩

structure Parser.Bordered (p p' : Parser) : Prop where
  stays : Stays p.w p'.w
  room : (p'.buf.length : Int) < WORDBUF - 2
  brk : 0 ≤ p'.breakchar ∧ p'.breakchar ≤ p'.buf.length
  mode : p'.mode = p.mode

variable {p' : Parser}

theorem Parser.Flushed.bordered (h : p.Flushed p') : p.Bordered p' := by
  refine ⟨h.stays, ?_, ?_, h.mode⟩
  · rw [h.empty]
    decide
  · rw [h.empty, h.brk]
    decide

theorem breakWord_bordered (h : p.w.core.Good) (hroom : (p.buf.length : Int) ≤ WORDBUF - 2)
    (hbrk : 0 < p.breakchar ∧ p.breakchar < p.buf.length) : p.Bordered p.breakWord := by
  have hval : WORDBUF = 100 := rfl
  have hprint : Stays p.w (doprint ((p.w.touch WORDBUF p.buf.length).touch WORDBUF p.breakchar)
      (p.buf.take p.breakchar.toNat)) := by
    have htouch := touch_stays (Stays.refl h) WORDBUF p.buf.length (by omega) (by omega)
    have htouch' := touch_stays htouch WORDBUF p.breakchar (by omega) (by omega)
    refine htouch'.trans (doprint_stays htouch'.1 ?_)
    rw [length_take]
    omega
  have hrest : ((p.buf.set p.breakchar.toNat 32).drop p.breakchar.toNat).length = p.buf.length - p.breakchar.toNat := by
    rw [length_drop, length_set]
  unfold Parser.breakWord
  dsimp only
  generalize doprint ((p.w.touch WORDBUF p.buf.length).touch WORDBUF p.breakchar) (p.buf.take p.breakchar.toNat) = u
    at hprint ⊢
  generalize (p.buf.set p.breakchar.toNat 32).drop p.breakchar.toNat = rest at hrest ⊢
  have hread : Stays p.w ((u.touch WORDBUF p.breakchar).span WORDBUF p.breakchar (rest.length + 1)) := by
    have htouch := touch_stays hprint WORDBUF p.breakchar (by omega) (by omega)
    exact ⟨span_good htouch.1 (by omega) (by push_cast; omega), htouch.2⟩
  generalize (u.touch WORDBUF p.breakchar).span WORDBUF p.breakchar (rest.length + 1) = u' at hread ⊢
  have hskip : (if u'.m.preformat = 0 then skipspace rest else rest).length ≤ rest.length := by
    split_ifs
    · exact (dropWhile_sublist _).length_le
    · exact le_refl _
  generalize (if u'.m.preformat = 0 then skipspace rest else rest) = rest' at hskip ⊢
  refine ⟨⟨span_good hread.1 (le_refl 0) (by omega), hread.2⟩, ?_, ?_, rfl⟩
  · dsimp only
    omega
  · dsimp only
    omega

theorem border_bordered (h : p.w.core.Good) (hroom : (p.buf.length : Int) ≤ WORDBUF - 2)
    (hbrk : 0 ≤ p.breakchar ∧ p.breakchar ≤ p.buf.length) : p.Bordered p.border := by
  have hval : WORDBUF = 100 := rfl
  have htouch : Stays p.w (p.w.touch WORDBUF p.buf.length) := touch_stays (Stays.refl h) _ _ (by omega) (by omega)
  unfold Parser.border
  dsimp only
  by_cases hwide : p.w.m.x + p.wd > p.w.area_x + p.w.area_w
  · rw [if_pos hwide]
    by_cases hb : 0 < p.breakchar ∧ p.breakchar < p.buf.length
    · rw [if_pos hb]
      exact breakWord_bordered h hroom hb
    rw [if_neg hb]
    generalize p.w.touch WORDBUF p.buf.length = u at htouch ⊢
    by_cases hline : p.w.m.x > p.w.area_x + p.w.m.indent
    · rw [if_pos hline]
      have hnew := htouch.of_core (dolinebreak_core u)
      exact Parser.Flushed.bordered ⟨hnew.trans (doprint_stays hnew.1 (by omega)), rfl, rfl, rfl⟩
    · rw [if_neg hline]
      have hnew := htouch.of_core (hresize_core u (p.w.m.x + p.wd - p.w.area_x))
      have hprint := hnew.trans (doprint_stays hnew.1 (by omega : (p.buf.length : Int) + 1 ≤ WORDBUF))
      exact Parser.Flushed.bordered ⟨hprint.of_core (dolinebreak_core _), rfl, rfl, rfl⟩
  · rw [if_neg hwide]
    by_cases hfull : (p.buf.length : Int) ≥ WORDBUF - 2
    · rw [if_pos hfull]
      have hp := print_flushed h (by omega : (p.buf.length : Int) + 1 ≤ WORDBUF)
      exact Parser.Flushed.bordered ⟨hp.stays, hp.empty, hp.brk, hp.mode⟩
    · rw [if_neg hfull]
      exact ⟨Stays.refl h, by omega, hbrk, rfl⟩

theorem tabstop_stays (h : w.core.Good) : Stays w (tabstop w) := by
  refine ⟨⟨h.inside, h.written, ?_, h.ends, h.wide, h.lsp, h.ahead⟩, rfl⟩
  intro d hd
  rcases mem_cons.mp hd with rfl | hd
  · have hpos : 0 < (w.fonts w.cur_f).widths 32 := h.wide w.cur_f 32
    unfold html_widget_t.font
    omega
  · exact h.nonzero d hd

theorem add_bordered (h : p.w.core.Good) (hroom : (p.buf.length : Int) < WORDBUF - 2)
    (hbrk : 0 ≤ p.breakchar ∧ p.breakchar ≤ p.buf.length) (c : Byte) : p.Bordered (p.add c).border := by
  have hlen : (p.add c).buf.length = p.buf.length + 1 := length_append
  have hb : (p.add c).breakchar = p.breakchar := rfl
  have hadd : Stays p.w (p.add c).w := touch_stays (Stays.refl h) _ _ (by omega) (by omega)
  have hborder := border_bordered hadd.1 (p := p.add c) (by rw [hlen]; push_cast; omega)
    (by rw [hlen, hb]; push_cast; omega)
  exact ⟨hadd.trans hborder.stays, hborder.room, hborder.brk, hborder.mode⟩

theorem token_spec (h : p.w.core.Good) (hroom : (p.buf.length : Int) < WORDBUF - 2)
    (hbrk : 0 ≤ p.breakchar ∧ p.breakchar ≤ p.buf.length) (c : Int) :
    Stays p.w (p.token c).w ∧ ((p.token c).buf.length : Int) < WORDBUF - 2 ∧
      (0 ≤ (p.token c).breakchar ∧ (p.token c).breakchar ≤ (p.token c).buf.length) ∧
        ((p.token c).mode = .tab ∨ (p.token c).mode = p.mode) := by
  have hprint := print_flushed h (by omega)
  have hdone {p' : Parser} (hb : p.Bordered p') : Stays p.w p'.w ∧ (p'.buf.length : Int) < WORDBUF - 2 ∧
      (0 ≤ p'.breakchar ∧ p'.breakchar ≤ p'.buf.length) ∧ (p'.mode = .tab ∨ p'.mode = p.mode) :=
    ⟨hb.stays, hb.room, hb.brk, Or.inr hb.mode⟩
  unfold Parser.token
  by_cases htab : c = TOK_TAB
  · rw [if_pos htab]
    dsimp only
    rw [hprint.empty, hprint.brk]
    exact ⟨hprint.stays.trans (tabstop_stays hprint.stays.1), by decide, by decide, Or.inl rfl⟩
  rw [if_neg htab]
  by_cases hnl : c = TOK_NL
  · rw [if_pos hnl]
    dsimp only
    have hnew := hprint.stays.of_core (dolinebreak_core p.print.w)
    have hb := border_bordered (p := { p.print with w := dolinebreak p.print.w, wd := 0 }) hnew.1
      (by dsimp only; rw [hprint.empty]; decide) (by dsimp only; rw [hprint.empty, hprint.brk]; decide)
    exact hdone ⟨hnew.trans hb.stays, hb.room, hb.brk, hb.mode⟩
  rw [if_neg hnl]
  have hmark (q : Parser) (hq : q.w.core = p.w.core) (hbuf : q.buf = p.buf) (hmode : q.mode = p.mode)
      (hb : 0 ≤ q.breakchar ∧ q.breakchar ≤ q.buf.length) (c : Byte) : p.Bordered (q.add c).border := by
    have hsame : Stays p.w q.w := (Stays.refl h).of_core hq
    have ha := add_bordered hsame.1 (by rw [hbuf]; exact hroom) hb c
    exact ⟨hsame.trans ha.stays, ha.room, ha.brk, ha.mode.trans hmode⟩
  by_cases hsp : c = TOK_SPACE
  · rw [if_pos hsp]
    by_cases hskip : p.w.m.preformat = 0 ∧ p.w.m.last_char_was_space = true
    · rw [if_pos hskip]
      exact hdone (border_bordered h hroom.le hbrk)
    rw [if_neg hskip]
    apply hdone
    unfold Parser.canBreak
    by_cases hfits : (p.spaced true).w.m.x + (p.spaced true).wd ≤ (p.spaced true).w.area_x + (p.spaced true).w.area_w
    · rw [if_pos hfits]
      exact hmark { p.spaced true with breakchar := p.buf.length } rfl rfl rfl ⟨by dsimp only; omega, le_refl _⟩ 32
    · rw [if_neg hfits]
      exact hmark (p.spaced true) rfl rfl rfl hbrk 32
  · rw [if_neg hsp]
    exact hdone (hmark (p.spaced false) rfl rfl rfl hbrk _)

def Mode.weight : Mode → Nat
  | .done => 0
  | .text => 1
  | .tab => 2
  | .call _ => 2
  | .arg _ => 3

def Parser.left (p : Parser) : Nat × Nat × Nat :=
  (p.w.cp.length, p.mode.weight, (p.w.m.x - (p.w.area_x + p.w.area_w)).toNat)

def Parser.Less : Nat × Nat × Nat → Nat × Nat × Nat → Prop := Prod.Lex (· < ·) (Prod.Lex (· < ·) (· < ·))

theorem Parser.less_wf : WellFounded Parser.Less :=
  WellFounded.prod_lex wellFounded_lt (WellFounded.prod_lex wellFounded_lt wellFounded_lt)

theorem less_code (h : p'.w.cp.length < p.w.cp.length) : Parser.Less p'.left p.left := Prod.Lex.left _ _ h

theorem less_mode {m m' : Mode} (hm : p.mode = m) (hm' : p'.mode = m')
    (h : p'.w.cp.length ≤ p.w.cp.length) (hlt : m'.weight < m.weight) : Parser.Less p'.left p.left := by
  unfold Parser.left
  rw [hm, hm']
  rcases Nat.lt_or_eq_of_le h with hcp | hcp
  · exact Prod.Lex.left _ _ hcp
  · rw [hcp]
    exact Prod.Lex.right _ (Prod.Lex.left _ _ hlt)

theorem less_tab {a b c c' : Nat} (hc : c' < c) : Parser.Less (a, b, c') (a, b, c) :=
  Prod.Lex.right _ (Prod.Lex.right _ hc)

theorem sound_of_text (hg : p'.w.core.Good) (hroom : (p'.buf.length : Int) < WORDBUF - 2)
    (hbrk : 0 ≤ p'.breakchar ∧ p'.breakchar ≤ p'.buf.length) (hm : p'.mode = .text ∨ p'.mode = .tab ∨ p'.mode = .done) :
    p'.Sound := by
  refine ⟨hg, hroom, hbrk, fun t ht => ?_, fun t ht => ?_⟩
  · rw [ht] at hm
    simp at hm
  · rw [ht] at hm
    simp at hm

theorem Parser.Bordered.sound (h : p.Bordered p') (hm : p.mode = .text) : p'.Sound :=
  sound_of_text h.stays.1 h.room h.brk (Or.inl (h.mode.trans hm))

theorem empty_held : Tag.Held { buf := [], args := [], i := 0 } := by
  refine ⟨Or.inl rfl, by decide, by decide, ?_, ?_⟩
  · intro k a hk
    simp at hk
  · intro k a hk
    simp at hk

theorem html_token_step (hs : p.Sound) (hm : p.mode = .text) :
    (parse_html_token E p).Sound ∧ Parser.Less (parse_html_token E p).left p.left := by
  have hval : WORDBUF = 100 := rfl
  have hroom := hs.room
  unfold parse_html_token
  dsimp only
  by_cases hgo : p.w.m.y ≤ p.w.ymax ∧ (gettoken p.w (p.w.m.preformat ≠ 0)).1 ≠ TOK_EOF
  · rw [if_pos hgo]
    obtain ⟨hg, hlt⟩ := token_eaten hs.good _ hgo.2
    generalize eattoken (gettoken p.w (p.w.m.preformat ≠ 0)).2 = u at hg hlt ⊢
    by_cases htag : (gettoken p.w (p.w.m.preformat ≠ 0)).1 = TOK_LT
    · rw [if_pos htag]
      have hp := print_flushed (p := { p with w := u }) hg (by dsimp only; omega)
      have hcp := hp.stays.2
      have hgood := hp.stays.1
      generalize Parser.print { p with w := u } = q at hp hcp hgood ⊢
      refine ⟨⟨hgood, ?_, ?_, ?_, ?_⟩, less_code ?_⟩
      · dsimp only
        rw [hp.empty]
        decide
      · dsimp only
        rw [hp.empty, hp.brk]
        decide
      · intro t ht
        cases ht
        exact ⟨empty_held, rfl⟩
      · intro t ht
        cases ht
      · dsimp only at hcp ⊢
        rw [hcp]
        exact hlt
    · rw [if_neg htag]
      have hc := convert_special_scans (E := E) hg (gettoken p.w (p.w.m.preformat ≠ 0)).1
      generalize convert_special E u (gettoken p.w (p.w.m.preformat ≠ 0)).1 = r at hc ⊢
      obtain ⟨hst, hr, hb, hmode⟩ := token_spec (p := { p with w := r.2 }) hc.1 hs.room hs.brk r.1
      generalize Parser.token { p with w := r.2 } r.1 = q at hst hr hb hmode ⊢
      refine ⟨sound_of_text hst.1 hr hb ?_, less_code ?_⟩
      · rcases hmode with hmode | hmode
        · exact Or.inr (Or.inl hmode)
        · exact Or.inl (hmode.trans hm)
      · rw [hst.2]
        exact lt_of_le_of_lt hc.2 hlt
  · rw [if_neg hgo]
    have hp := print_flushed hs.good (by omega)
    refine ⟨sound_of_text hp.stays.1 ?_ ?_ (Or.inr (Or.inr rfl)), ?_⟩
    · dsimp only
      rw [hp.empty]
      decide
    · dsimp only
      rw [hp.empty, hp.brk]
      decide
    · exact less_mode hm rfl (le_of_eq (congrArg List.length hp.stays.2)) Nat.one_pos

theorem tab_step (hs : p.Sound) (hm : p.mode = .tab) (hok : p.Ok E) :
    (parse_tab p).Sound ∧ Parser.Less (parse_tab p).left p.left := by
  unfold Parser.Ok at hok
  rw [hm] at hok
  unfold parse_tab
  dsimp only
  by_cases hfar : p.w.m.x > p.w.area_x + p.w.area_w
  · rw [if_pos hfar]
    have hindent := hok hfar
    have hsame : Stays p.w { p.w with m := { p.w.m with
        x := p.w.m.x - (p.w.area_w - p.w.m.indent)
        y := p.w.m.y + max p.w.line_dist p.w.m.line_ht
        line_ht := p.w.line_dist } } := (Stays.refl hs.good).of_core rfl
    refine ⟨sound_of_text hsame.1 hs.room hs.brk (Or.inr (Or.inl hm)), ?_⟩
    unfold Parser.left
    dsimp only
    rw [hm]
    apply less_tab
    omega
  · rw [if_neg hfar]
    have hb := border_bordered (p := { p with wd := 0, mode := .text }) hs.good hs.room.le hs.brk
    exact ⟨hb.sound rfl, less_mode hm hb.mode (le_of_eq (congrArg List.length hb.stays.2)) Nat.one_lt_two⟩

theorem arg_step {t : Tag} (hs : p.Sound) (hm : p.mode = .arg t) (hok : p.Ok E) :
    (p.step E).Sound ∧ Parser.Less (p.step E).left p.left := by
  unfold Parser.Ok at hok
  rw [hm] at hok
  obtain ⟨ht, hi⟩ := hs.arg t hm
  have hturn := parse_tag_arg_turn (E := E) hs.good ht hi hok
  unfold Parser.step
  rw [hm]
  dsimp only
  generalize parse_tag_arg E p.w t = r at hturn ⊢
  obtain ⟨mode, u⟩ := r
  cases mode with
  | text =>
    have hscan : Scans p.w u := hturn
    have hb := border_bordered (p := { p with w := u, mode := .text }) hscan.1 hs.room.le hs.brk
    refine ⟨hb.sound rfl, less_mode hm hb.mode ?_ (by simp [Mode.weight])⟩
    exact le_trans (le_of_eq (congrArg List.length hb.stays.2)) hscan.2
  | call t' =>
    obtain ⟨hscan, ht'⟩ := hturn
    refine ⟨⟨hscan.1, hs.room, hs.brk, fun s hs' => ?_, fun s hs' => ?_⟩, ?_⟩
    · cases hs'
    · cases hs'
      exact ht'
    · exact less_mode hm rfl hscan.2 (by simp [Mode.weight])
  | arg t' =>
    obtain ⟨hscan, ht', hi', hlt⟩ := hturn
    refine ⟨⟨hscan.1, hs.room, hs.brk, fun s hs' => ?_, fun s hs' => ?_⟩, less_code hlt⟩
    · cases hs'
      exact ⟨ht', hi'⟩
    · cases hs'
  | tab => exact absurd hturn id
  | done => exact absurd hturn id

theorem call_step {t : Tag} (hE : ∀ s fp, E.loadfonts s = some fp → ∀ i c, 0 < (fp i).widths c) (hs : p.Sound)
    (hm : p.mode = .call t) (hok : p.Ok E) : (p.step E).Sound ∧ Parser.Less (p.step E).left p.left := by
  unfold Parser.Ok at hok
  rw [hm] at hok
  have hcall := parse_tag_call_stays hE hs.good (hs.call t hm) hok
  unfold Parser.step
  rw [hm]
  dsimp only
  generalize parse_tag_call E p.w t = u at hcall ⊢
  have hb := border_bordered (p := { p with w := u, mode := .text }) hcall.1 hs.room.le hs.brk
  refine ⟨hb.sound rfl, ?_⟩
  have hcp : (Parser.border { p with w := u, mode := .text }).w.cp = p.w.cp := hb.stays.2.trans hcall.2
  exact less_mode hm hb.mode (le_of_eq (congrArg List.length hcp)) (by simp [Mode.weight])

theorem step_sound (hE : ∀ s fp, E.loadfonts s = some fp → ∀ i c, 0 < (fp i).widths c) (hs : p.Sound) (hok : p.Ok E) :
    (p.step E).Sound ∧ (p.mode ≠ .done → Parser.Less (p.step E).left p.left) := by
  cases hm : p.mode with
  | text =>
    obtain ⟨hsound, hless⟩ := html_token_step (E := E) hs hm
    unfold Parser.step
    rw [hm]
    exact ⟨hsound, fun _ => hless⟩
  | tab =>
    obtain ⟨hsound, hless⟩ := tab_step (E := E) hs hm hok
    unfold Parser.step
    rw [hm]
    exact ⟨hsound, fun _ => hless⟩
  | arg t =>
    obtain ⟨hsound, hless⟩ := arg_step (E := E) hs hm hok
    exact ⟨hsound, fun _ => hless⟩
  | call t =>
    obtain ⟨hsound, hless⟩ := call_step hE hs hm hok
    exact ⟨hsound, fun _ => hless⟩
  | done =>
    unfold Parser.step
    rw [hm]
    exact ⟨hs, fun hne => absurd rfl hne⟩

theorem start_sound (hw : ∀ i c, 0 < (w.fonts i).widths c) (html_code : List Byte) :
    (Parser.start E w html_code).Sound := by
  have hgood : (Parser.start E w html_code).w.core.Good :=
    ⟨fun a ha => absurd ha not_mem_nil, rfl, fun d hd => absurd hd not_mem_nil, rfl, hw, le_refl 0, le_refl _⟩
  exact sound_of_text hgood (by decide : ((0 : Nat) : Int) < WORDBUF - 2)
    (by decide : (0 : Int) ≤ 0 ∧ (0 : Int) ≤ (0 : Nat)) (Or.inl rfl)

structure html_widget_t.Safe (w : html_widget_t) : Prop where
  inside : ∀ a ∈ w.touched, a.Inside
  written : w.unwritten = []
  nonzero : ∀ d ∈ w.divisors, d ≠ 0
  ends : w.stuck = false

theorem Parser.Sound.safe (h : p.Sound) : p.w.Safe := ⟨h.good.inside, h.good.written, h.good.nonzero, h.good.ends⟩

instance Tag.decidableGiven (t : Tag) (a : arg_t) : Decidable (t.Given a) :=
  inferInstanceAs (Decidable (∀ v ∈ a.val, v < t.buf.length))

instance TagFn.decidableOk (E : HtmlEnv) (w : html_widget_t) (t : Tag) (f : TagFn) : Decidable (f.Ok E w t) := by
  cases f with
  | tag_ul => exact inferInstanceAs (Decidable (_ < _))
  | tag_not_ul => exact inferInstanceAs (Decidable (_ < _))
  | tag_textarea => exact inferInstanceAs (Decidable (∀ a ∈ t.last, t.Given a))
  | tag_wfont =>
    exact inferInstanceAs (Decidable (∀ a ∈ t.last, t.isArg E a "teletype" ∨ t.isArg E a "normal" → t.Given a))
  | tag_a => exact inferInstanceAs (Decidable (∀ a ∈ t.last, t.isArg E a "name" ∨ t.isArg E a "href" → t.Given a))
  | tag_img =>
    exact inferInstanceAs (Decidable (∀ a ∈ t.last, ∀ query ∈ E.img_query_cb, (t.isArg E a "src" → t.Given a) ∧
      (t.isArg E a "alt" → ∀ src ∈ (img_args E t).src, ∀ size ∈ query (t.string E src),
        alt_fits (img_place w size.1) size.2 → t.Given a)))
  | _ => exact inferInstanceAs (Decidable True)

instance Parser.decidableOk (E : HtmlEnv) (p : Parser) : Decidable (p.Ok E) := by
  unfold Parser.Ok
  cases p.mode with
  | text => exact inferInstanceAs (Decidable True)
  | tab => exact inferInstanceAs (Decidable (_ → _))
  | arg t => exact inferInstanceAs (Decidable (_ → _ → _))
  | call t =>
    exact inferInstanceAs (Decidable (1 ≤ t.i ∧ ∀ f ∈ lookup_tag_fn ((t.lower E).string E t.name), f.Ok E p.w (t.lower E)))
  | done => exact inferInstanceAs (Decidable True)

def plainFont : HtmlFont := { height := 16, widths := fun _ => 8 }

def plainEnv : HtmlEnv :=
  { junk := fun _ => 0, longMax := 2 ^ 31 - 1, html_fixed := [], html_normal := [], loadfonts := fun _ => none
    img_query_cb := none }

def plainWidget : html_widget_t :=
  { w := 100, yoffs := 0, ymin := 0, ymax := 0, parent_h := 100, fonts := fun _ => plainFont, cur_f := 0, line_dist := 16
    cp := [], cp2 := []
    m := { x := 0, y := 0, last_char_was_space := false, anchor_is_href := false, preformat := 0, underline := 0, italic := 0
           bold := 0, tt := 0, header := 0, title := 0, indent := 0, line_ht := 0, lstack := fun _ => ⟨0, 0, 0⟩, lsp := 0 }
    area_x := 0, area_y := 0, area_w := 100, rborder := 0, cur_a := false, touched := [], unwritten := [], divisors := []
    stuck := false }

theorem plain_wide (i : Int) (c : Byte) : 0 < (plainWidget.fonts i).widths c := (by decide : (0 : Int) < 8)

end WWindowSystem
