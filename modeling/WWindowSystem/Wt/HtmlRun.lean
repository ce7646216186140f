import WWindowSystem.Wt.HtmlTagsSafe

namespace WWindowSystem

open List

variable {E : HtmlEnv} {w w' : html_widget_t} {t : Tag}

theorem name_held (ht : t.Held) (hi : 1 ≤ t.i) : 0 ≤ t.name ∧ t.name < t.buf.length := by
  have hc := ht.count
  have hlt : 0 < t.args.length := by omega
  have hget : t.args[0]? = some (t.args[0]) := getElem?_eq_getElem hlt
  have hname : t.name = t.args[0].arg := by
    unfold Tag.name
    rw [head?_eq_getElem?, hget]
    rfl
  rw [hname]
  exact ht.args 0 _ hget (by omega)

theorem run_stays (hE : ∀ s fp, E.loadfonts s = some fp → ∀ i c, 0 < (fp i).widths c) (h : w.core.Good) (ht : t.Held)
    (hi : 1 ≤ t.i) {f : TagFn} (hf : lookup_tag_fn (t.string E t.name) = some f) (hok : f.Ok E w t) :
    Stays w (f.run E w t) := by
  obtain ⟨h0, hlt⟩ := name_held ht hi
  have hend := string_ends (E := E) ht h0 hlt
  have hlen : (t.string E t.name).length = t.stringLength E t.name := by
    unfold Tag.string
    rw [length_map, length_range]
  have hsame : Stays w w := Stays.refl h
  cases f with
  | tag_head => exact hsame.of_core rfl
  | tag_title => exact hsame.of_core (ite_core rfl rfl)
  | tag_not_title => exact hsame.of_core (ite_core rfl rfl)
  | tag_not_head => exact hsame.of_core (ite_core rfl rfl)
  | tag_body => exact hsame.of_core rfl
  | tag_h =>
    have htwo := heading_length.1 hf
    exact h_stays h ht h0 (by omega)
  | tag_not_h =>
    have hthree := heading_length.2 hf
    exact not_h_stays h ht h0 (by omega)
  | tag_hr => exact hsame.of_core ((down_core _ _).trans ((down_core _ _).trans (freshline_core w)))
  | tag_br => exact hsame.of_core (freshline_core w)
  | tag_p => exact hsame.of_core ((down_core _ _).trans (freshline_core w))
  | tag_pre => exact hsame.of_core rfl
  | tag_not_pre => exact hsame.of_core (ite_core rfl rfl)
  | tag_b => exact hsame.of_core (bold_on_core w)
  | tag_not_b => exact hsame.of_core (bold_off_core w)
  | tag_i => exact hsame.of_core (italic_on_core w)
  | tag_not_i => exact hsame.of_core (italic_off_core w)
  | tag_u => exact hsame.of_core (underline_on_core w)
  | tag_not_u => exact hsame.of_core (underline_off_core w)
  | tag_tt => exact hsame.of_core (ite_core rfl rfl)
  | tag_not_tt => exact hsame.of_core (ite_core (ite_core rfl rfl) rfl)
  | tag_ul => exact ul_stays h ht ⟨h0, hlt⟩ hok
  | tag_not_ul => exact not_ul_stays h hok
  | tag_li => exact li_stays h
  | tag_dt => exact dt_stays h
  | tag_dd => exact dd_stays h
  | tag_textarea => exact textarea_stays h ht hok
  | tag_wfont => exact wfont_stays hE h ht hok
  | tag_img => exact img_stays h ht hok
  | tag_a => exact a_stays h ht hok
  | tag_not_a => exact hsame.of_core (ite_core rfl (ite_core (underline_off_core _) rfl))
  | tag_bq => exact hsame.of_core ((italic_on_core _).trans (freshline_core w))
  | tag_not_bq => exact hsame.of_core ((italic_off_core _).trans (freshline_core w))

theorem lower_held (ht : t.Held) (hi : 1 ≤ t.i) : (t.lower E).Held ∧ (t.lower E).buf.length = t.buf.length := by
  obtain ⟨h0, hlt⟩ := name_held ht hi
  have hend := string_ends (E := E) ht h0 hlt
  have hlen : (t.string E t.name).length = t.stringLength E t.name := by
    unfold Tag.string
    rw [length_map, length_range]
  have hsame : (t.lower E).buf.length = t.buf.length := by
    unfold Tag.lower
    dsimp only
    rw [length_append, length_append, length_map, hlen, length_take, length_drop]
    omega
  refine ⟨⟨Or.inr ?_, ?_, ht.count, ?_, ?_⟩, hsame⟩
  · have hlast : t.buf.getLast? = some 0 := by
      rcases ht.zero with hnil | hz
      · rw [hnil, length_nil] at hlt
        omega
      · exact hz
    have hdrop : (t.buf.drop (t.name.toNat + t.stringLength E t.name)).getLast? = some 0 := by
      rw [getLast?_drop, if_neg (by omega)]
      exact hlast
    unfold Tag.lower
    dsimp only
    rw [getLast?_append, hdrop]
    rfl
  · rw [hsame]
    exact ht.room
  · intro k a hk hki
    rw [hsame]
    exact ht.args k a hk hki
  · intro k a hk hki v hv
    rw [hsame]
    exact ht.vals k a hk hki v hv

theorem ok_logs (h : Logs w w') (f : TagFn) : f.Ok E w' t ↔ f.Ok E w t := by
  have halt := alt_fits_logs h
  cases f with
  | tag_img =>
    unfold TagFn.Ok
    simp only [halt]
  | tag_ul =>
    obtain ⟨_, _, rfl⟩ := h
    rfl
  | tag_not_ul =>
    obtain ⟨_, _, rfl⟩ := h
    rfl
  | _ => rfl

def Tag.CallOk (E : HtmlEnv) (t : Tag) (w : html_widget_t) : Prop :=
  1 ≤ t.i ∧ ∀ f, lookup_tag_fn ((t.lower E).string E t.name) = some f → f.Ok E w (t.lower E)

theorem lowered_stays (h : w.core.Good) (ht : t.Held) (hi : 1 ≤ t.i) : Stays w (t.lowered E w) := by
  obtain ⟨h0, hlt⟩ := name_held ht hi
  have hend := string_ends (E := E) ht h0 hlt
  have hc := ht.count
  have hroom := ht.room
  have hmax : ARGMAX = 10 := rfl
  have hslots : Stays w (w.span ARGMAX 0 (max t.i.toNat 1)) := ⟨span_good h (le_refl 0) (by omega), rfl⟩
  have hread := hslots.trans (readString_stays (E := E) hslots.1 ht h0 hlt)
  exact ⟨span_good hread.1 h0 (by omega), hread.2⟩

theorem span_logs (w : html_widget_t) (size i : Int) (n : Nat) : Logs w (w.span size i n) := ⟨_, w.unwritten, rfl⟩

theorem lowered_logs (w : html_widget_t) (t : Tag) : Logs w (t.lowered E w) := by
  unfold Tag.lowered
  have hslots := span_logs w ARGMAX 0 (max t.i.toNat 1)
  generalize w.span ARGMAX 0 (max t.i.toNat 1) = u at hslots ⊢
  exact (hslots.trans (readString_logs u t t.name)).trans (span_logs _ _ _ _)

theorem parse_tag_call_stays (hE : ∀ s fp, E.loadfonts s = some fp → ∀ i c, 0 < (fp i).widths c) (h : w.core.Good)
    (ht : t.Held) (hok : t.CallOk E w) : Stays w (parse_tag_call E w t) := by
  obtain ⟨hi, hf⟩ := hok
  obtain ⟨h0, hlt⟩ := name_held ht hi
  obtain ⟨hl, hsame⟩ := lower_held (E := E) ht hi
  have hlow := lowered_stays (E := E) h ht hi
  have hlog := lowered_logs (E := E) w t
  have hname : (t.lower E).name = t.name := rfl
  unfold parse_tag_call
  rw [if_pos ht.count.2.1]
  dsimp only
  generalize t.lowered E w = u at hlow hlog ⊢
  have hread := hlow.trans (readString_stays (E := E) hlow.1 hl h0 (by rw [hsame]; exact hlt))
  have hlog := hlog.trans (readString_logs (E := E) u (t.lower E) t.name)
  have hstr : ((t.lower E).readString E u t.name).1 = (t.lower E).string E t.name := rfl
  rw [hname, hstr]
  generalize ((t.lower E).readString E u t.name).2 = u' at hread hlog ⊢
  cases hfn : lookup_tag_fn ((t.lower E).string E t.name) with
  | none => exact hread
  | some f =>
    have hok := (ok_logs (E := E) (t := t.lower E) hlog f).mpr (hf f hfn)
    exact hread.trans (run_stays hE hread.1 hl hi hfn hok)

theorem isComment_stays (h : w.core.Good) (hz : t.buf.getLast? = some 0) (hroom : (t.buf.length : Int) ≤ ARGBUF)
    {arg : Int} (h0 : 0 ≤ arg) (hlt : arg < t.buf.length) : Stays w (t.isComment E w arg).2 := by
  have hzero := last_zero (E := E) hz
  have hnext {i : Int} (hi : i < t.buf.length) (hne : t.byte E i ≠ 0) : i + 1 < t.buf.length := by
    by_contra hno
    have hlast : i = t.buf.length - 1 := by omega
    rw [hlast] at hne
    exact hne hzero
  have hfirst := read_stays h hroom h0 (n := 1) (by push_cast; omega)
  unfold Tag.isComment
  dsimp only
  by_cases hc : t.byte E arg ≠ 33
  · rw [if_pos hc]
    exact hfirst
  rw [if_neg hc]
  have hlt1 := hnext hlt (by rw [not_not.mp hc]; decide)
  have hsecond := hfirst.trans (read_stays hfirst.1 hroom (i := arg + 1) (n := 1) (by omega) (by push_cast; omega))
  by_cases hc' : t.byte E (arg + 1) ≠ 45
  · rw [if_pos hc']
    exact hsecond
  rw [if_neg hc']
  have hlt2 := hnext hlt1 (by rw [not_not.mp hc']; decide)
  exact hsecond.trans (read_stays hsecond.1 hroom (i := arg + 2) (n := 1) (by omega) (by push_cast; omega))

theorem push_held (ht : t.Held) (hi : t.args.length = t.i) (hlt : t.i < ARGMAX) {buf buf' : List Byte}
    (hg : Grown t.buf buf) (hg' : buf' = buf ∨ Grown buf buf') (val : Option Int)
    (hv : ∀ v, val = some v → v = buf.length) :
    Tag.Held { buf := buf', args := t.args ++ [⟨t.buf.length, val⟩], i := t.i + 1 } := by
  have hc := ht.count
  have hlong := hg.longer
  have hle : buf.length ≤ buf'.length := by
    rcases hg' with rfl | hg'
    · exact le_refl _
    · exact hg'.longer.le
  have hold {k : Nat} {a : arg_t} (hk : (t.args ++ [(⟨t.buf.length, val⟩ : arg_t)])[k]? = some a)
      (hki : (k : Int) < t.i + 1) : t.args[k]? = some a ∧ (k : Int) < t.i ∨ a = ⟨t.buf.length, val⟩ ∧ (k : Int) = t.i := by
    by_cases hkl : (k : Int) < t.i
    · rw [getElem?_append_left (by omega)] at hk
      exact Or.inl ⟨hk, hkl⟩
    · have hke : k = t.args.length := by omega
      rw [hke, getElem?_concat_length] at hk
      exact Or.inr ⟨(Option.some.inj hk).symm, by omega⟩
  refine ⟨Or.inr ?_, ?_, ?_, ?_, ?_⟩
  · rcases hg' with rfl | hg'
    · exact hg.zero
    · exact hg'.zero
  · rcases hg' with rfl | hg'
    · exact hg.room
    · exact hg'.room
  · dsimp only
    rw [length_append, length_singleton]
    push_cast
    omega
  · intro k a hk hki
    dsimp only at hk hki ⊢
    rcases hold hk hki with ⟨hk, hki⟩ | ⟨rfl, -⟩
    · obtain ⟨h0, hin⟩ := ht.args k a hk hki
      omega
    · dsimp only
      omega
  · intro k a hk hki v hval
    dsimp only at hk hki ⊢
    rcases hold hk hki with ⟨hk, hki⟩ | ⟨rfl, hke⟩
    · obtain ⟨h0, hin, -⟩ := ht.vals k a hk hki v hval
      refine ⟨h0, ?_, fun _ => ?_⟩
      · omega
      · omega
    · have := hv v hval
      refine ⟨by omega, by omega, fun hlater => ?_⟩
      omega

def Turn (w : html_widget_t) : Mode × html_widget_t → Prop
  | (.text, u) => Scans w u
  | (.call t, u) => Scans w u ∧ t.Held
  | (.arg t, u) => Scans w u ∧ t.Held ∧ t.args.length = t.i ∧ u.cp.length < w.cp.length
  | _ => False

def Tag.ArgOk (t : Tag) (w : html_widget_t) : Prop := t.i = 1 → (t.buf.length : Int) < ARGBUF → w.next ≠ some 62

theorem Stays.scans (h : Stays w w') : Scans w w' := ⟨h.1, by rw [h.2]⟩

theorem arg_rest_turn (ht : t.Held) (hi : t.args.length = t.i) (hlt : t.i < ARGMAX) {buf : List Byte}
    (hg : Grown t.buf buf) {u : html_widget_t} (hu : Scans w u) (hshort : u.cp.length < w.cp.length) :
    Turn w (arg_rest E u { t with buf, i := t.i + 1 } t.buf.length) := by
  obtain ⟨hs, -, -, hlt'⟩ := eatWhile_scans hu.1 (p := fun c => c = TOK_SPACE) (by decide)
  unfold arg_rest
  dsimp only
  generalize eatWhile (fun c => decide (c = TOK_SPACE)) u = r at hs hlt' ⊢
  have hplain := push_held ht hi hlt hg (Or.inl rfl) none fun v hv => absurd hv (by simp)
  have hcount : (t.args ++ [(⟨t.buf.length, none⟩ : arg_t)]).length = t.i + 1 := by
    rw [length_append, length_singleton]
    push_cast
    omega
  have hus := hu.trans hs
  by_cases heof : r.1 = TOK_EOF
  · rw [if_pos heof]
    exact hus.trans (bad_tag_scans hus.1)
  rw [if_neg heof]
  have heat := hus.trans (eattoken_scans hus.1)
  by_cases hgt : r.1 = TOK_GT
  · rw [if_pos hgt]
    exact ⟨heat, hplain⟩
  rw [if_neg hgt]
  by_cases hequ : r.1 = TOK_EQU
  · rw [if_pos hequ]
    obtain ⟨hn, hbuf⟩ := parse_name_scans (E := E) heat.1 buf
    generalize parse_name E (eattoken r.2) buf (ARGBUF - buf.length) = r' at hn hbuf ⊢
    obtain ⟨o, v⟩ := r'
    cases o with
    | none => exact (heat.trans hn).trans (bad_tag_scans hn.1)
    | some buf' =>
      have hgrow : buf' = buf ∨ Grown buf buf' := by
        rcases hbuf buf' rfl with ⟨-, -, hb⟩ | ⟨hb, -⟩
        · exact Or.inl hb
        · exact Or.inr hb
      refine ⟨heat.trans hn, push_held ht hi hlt hg hgrow _ fun v hv => (Option.some.inj hv).symm, ?_, ?_⟩
      · dsimp only
        rw [length_append, length_singleton]
        push_cast
        omega
      · exact lt_of_le_of_lt (le_trans hn.2 (le_trans (eattoken_scans hus.1).2 hs.2)) hshort
  · rw [if_neg hequ]
    exact ⟨hus, hplain, hcount, lt_of_le_of_lt hs.2 hshort⟩

theorem parse_tag_arg_turn (h : w.core.Good) (ht : t.Held) (hi : t.args.length = t.i) (hok : t.ArgOk w) :
    Turn w (parse_tag_arg E w t) := by
  unfold parse_tag_arg
  by_cases hlt : t.i < ARGMAX
  · rw [if_neg (not_not.mpr hlt)]
    dsimp only
    have htouch : Scans w (w.touch ARGMAX t.args.length) := (Scans.refl h).touch (by omega) (by omega)
    obtain ⟨hn, hbuf⟩ := parse_name_scans (E := E) htouch.1 t.buf
    have hfull : (parse_name E (w.touch ARGMAX t.args.length) t.buf (ARGBUF - t.buf.length)).1 ≠ none →
        (t.buf.length : Int) < ARGBUF := by
      intro hne
      by_contra hno
      apply hne
      unfold parse_name
      rw [if_pos (by omega)]
    generalize parse_name E (w.touch ARGMAX t.args.length) t.buf (ARGBUF - t.buf.length) = r at hn hbuf hfull ⊢
    obtain ⟨o, u⟩ := r
    have hwu := htouch.trans hn
    cases o with
    | none => exact hwu.trans (bad_tag_scans hn.1)
    | some buf =>
      dsimp only
      rcases hbuf buf rfl with ⟨hnext, hpeek, rfl⟩ | ⟨hg, hshort⟩
      · -- there is no name: the tag ends here
        have hne : t.i ≠ 1 := fun h1 => hok h1 (hfull (by simp)) hnext
        have hpeek' : u.peek = TOK_GT := hpeek
        have hstop : eatWhile (fun c => decide (c = TOK_SPACE)) u = gettoken u false :=
          eatWhile_stop (by rw [hpeek']; decide)
        have hgt : (gettoken u false).1 = TOK_GT := hpeek
        have heat := hwu.trans ((gettoken_scans hwu.1 false).1.trans (eattoken_scans (gettoken_scans hwu.1 false).1.1))
        rw [if_neg (not_not.mpr rfl), if_neg hne, if_neg Bool.false_ne_true]
        unfold arg_rest
        dsimp only
        rw [hstop, hgt, if_neg (by decide), if_pos rfl]
        refine ⟨heat, ht.zero, ht.room, ?_, ?_, ?_⟩
        · have hc := ht.count
          dsimp only
          rw [length_append, length_singleton]
          push_cast
          omega
        · intro k a hk hki
          rw [getElem?_append_left (by dsimp only at hki; omega)] at hk
          exact ht.args k a hk hki
        · intro k a hk hki
          rw [getElem?_append_left (by dsimp only at hki; omega)] at hk
          exact ht.vals k a hk hki
      · have hlong := hg.longer
        have hne : buf.length ≠ t.buf.length := by omega
        rw [if_pos hne]
        have hcomment : Stays u (if t.i + 1 = 1 then Tag.isComment E { t with buf, i := t.i + 1 } u t.buf.length
            else (false, u)).2 := by
          split_ifs
          · exact isComment_stays hwu.1 hg.zero hg.room (by omega) (by dsimp only; omega)
          · exact Stays.refl hwu.1
        generalize (if t.i + 1 = 1 then Tag.isComment E { t with buf, i := t.i + 1 } u t.buf.length
            else (false, u)) = rc at hcomment ⊢
        by_cases hc : rc.1 = true
        · rw [if_pos hc]
          exact (hwu.trans hcomment.scans).trans (parse_comment_scans hcomment.1)
        · rw [if_neg hc]
          have hcp : rc.2.cp.length < w.cp.length := by
            rw [hcomment.2]
            exact hshort
          exact arg_rest_turn ht hi hlt hg (hwu.trans hcomment.scans) hcp
  · rw [if_pos hlt]
    exact ⟨Scans.refl h, ht⟩

end WWindowSystem
