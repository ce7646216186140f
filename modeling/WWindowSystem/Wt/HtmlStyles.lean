import WWindowSystem.Server.Census
import WWindowSystem.Wt.HtmlSafe

namespace WWindowSystem

open List Function

inductive Style where
  | bold
  | italic
  | underline
  | tt
  | preformat
  deriving DecidableEq

structure Styles where
  bold : Int
  italic : Int
  underline : Int
  tt : Int
  preformat : Int
  indent : Int
  lsp : Int
  indents : Int → Int
  anchor_is_href : Bool

def html_widget_t.styles (w : html_widget_t) : Styles :=
  { bold := w.m.bold, italic := w.m.italic, underline := w.m.underline, tt := w.m.tt, preformat := w.m.preformat
    indent := w.m.indent, lsp := w.m.lsp, indents := fun k => (w.m.lstack k).indent
    anchor_is_href := w.m.anchor_is_href }

def Styles.counter (s : Styles) : Style → Int
  | .bold => s.bold
  | .italic => s.italic
  | .underline => s.underline
  | .tt => s.tt
  | .preformat => s.preformat

def Styles.setCounter (s : Styles) (c : Style) (v : Int) : Styles :=
  match c with
  | .bold => { s with bold := v }
  | .italic => { s with italic := v }
  | .underline => { s with underline := v }
  | .tt => { s with tt := v }
  | .preformat => { s with preformat := v }

variable {E : HtmlEnv} {w w' : html_widget_t} {t : Tag} {p : Parser}

variable (s : Styles)

theorem counter_set (c c' : Style) (v : Int) :
    (s.setCounter c v).counter c' = if c' = c then v else s.counter c' := by
  cases c <;> cases c' <;> rfl

@[simp] theorem setCounter_indent (c : Style) (v : Int) : (s.setCounter c v).indent = s.indent := by
  cases c <;> rfl

@[simp] theorem setCounter_lsp (c : Style) (v : Int) : (s.setCounter c v).lsp = s.lsp := by
  cases c <;> rfl

@[simp] theorem setCounter_indents (c : Style) (v : Int) : (s.setCounter c v).indents = s.indents := by
  cases c <;> rfl

@[simp] theorem setCounter_href (c : Style) (v : Int) :
    (s.setCounter c v).anchor_is_href = s.anchor_is_href := by
  cases c <;> rfl

/-! What moves, draws or reads leaves the styles alone. -/

theorem ite_styles {c : Prop} [Decidable c] {u v : html_widget_t} {s : Styles} (hu : u.styles = s) (hv : v.styles = s) :
    (if c then u else v).styles = s := by
  split_ifs
  · exact hu
  · exact hv

theorem freshline_styles (w : html_widget_t) : (freshline w).styles = w.styles := ite_styles rfl rfl

theorem hresize_styles (w : html_widget_t) (area_w : Int) : (html_hresize w area_w).styles = w.styles := ite_styles rfl rfl

theorem setList_styles (w : html_widget_t) (l : liststack_t) :
    (w.setList l).styles = { w.styles with indents := Function.update w.styles.indents w.m.lsp l.indent } := by
  have hind : (fun k => (Function.update w.m.lstack w.m.lsp l k).indent) =
      Function.update (fun k => (w.m.lstack k).indent) w.m.lsp l.indent := by
    funext k
    exact apply_update (fun _ e => liststack_t.indent e) w.m.lstack w.m.lsp l k
  unfold html_widget_t.styles html_widget_t.setList
  dsimp only
  rw [hind]

theorem setList_same (w : html_widget_t) {l : liststack_t} (hl : l.indent = (w.m.lstack w.m.lsp).indent) :
    (w.setList l).styles = w.styles := by
  rw [setList_styles, hl]
  have hsame : Function.update w.styles.indents w.m.lsp (w.m.lstack w.m.lsp).indent = w.styles.indents :=
    update_eq_self _ _
  rw [hsame]

theorem fold_styles {f : html_widget_t → arg_t → html_widget_t} (hf : ∀ u a, (f u a).styles = u.styles) (l : List arg_t)
    (w : html_widget_t) : (l.foldl f w).styles = w.styles := by
  induction l generalizing w with
  | nil => rfl
  | cons a l ih => exact (ih (f w a)).trans (hf w a)

theorem readNames_styles (E : HtmlEnv) (t : Tag) (w : html_widget_t) : (t.readNames E w).styles = w.styles :=
  fold_styles (fun u a => (rfl : (t.readString E u a.arg).2.styles = u.styles)) _ _

theorem readVal_styles (E : HtmlEnv) (t : Tag) (w : html_widget_t) (a : arg_t) : (t.readVal E w a).styles = w.styles := by
  unfold Tag.readVal
  cases a.val <;> rfl

theorem doprint_styles (w : html_widget_t) (buf : List Byte) : (doprint w buf).styles = w.styles :=
  ite_styles rfl (ite_styles rfl rfl)

theorem gettoken_styles (w : html_widget_t) (preformat : Bool) : (gettoken w preformat).2.styles = w.styles := by
  unfold gettoken
  cases w.cp with
  | nil => rfl
  | cons c cp =>
    dsimp only
    split_ifs <;> rfl

theorem eatWhile_styles (q : Int → Bool) (w : html_widget_t) : (eatWhile q w).2.styles = w.styles := by
  unfold eatWhile
  cases hr : runLoop (eatTurn q) (w.cp.length + 1) w with
  | none => rfl
  | some r =>
    refine runLoop_keeps (fun u : html_widget_t => u.styles = w.styles) (fun r => r.2.styles = w.styles) ?_ ?_ hr rfl
    · intro u u' hu ht
      unfold eatTurn at ht
      dsimp only at ht
      split_ifs at ht
      cases ht
      exact (gettoken_styles u false).trans hu
    · intro u r hu ht
      unfold eatTurn at ht
      dsimp only at ht
      split_ifs at ht
      cases ht
      exact (gettoken_styles u false).trans hu

theorem bad_tag_styles (w : html_widget_t) : (bad_tag w).styles = w.styles := eatWhile_styles _ w

theorem special_styles (w : html_widget_t) {r : Int × html_widget_t × List Byte} {n : Nat}
    (hr : runLoop specialTurn n (w, []) = some r) : r.2.1.styles = w.styles := by
  refine runLoop_keeps (fun s : html_widget_t × List Byte => s.1.styles = w.styles) (fun r => r.2.1.styles = w.styles)
    ?_ ?_ hr rfl
  · rintro ⟨u, name⟩ s' hu ht
    unfold specialTurn at ht
    dsimp only at ht
    split_ifs at ht
    · cases ht
      exact (gettoken_styles u false).trans hu
    · cases ht
      exact (gettoken_styles u false).trans hu
  · rintro ⟨u, name⟩ r hu ht
    unfold specialTurn at ht
    dsimp only at ht
    split_ifs at ht
    cases ht
    exact (gettoken_styles u false).trans hu

theorem convert_styles (E : HtmlEnv) (w : html_widget_t) (c : Int) : (convert_special E w c).2.styles = w.styles := by
  unfold convert_special
  split_ifs
  · rfl
  unfold parse_special
  cases hr : runLoop specialTurn (w.cp.length + 1) (w, []) with
  | none => rfl
  | some r =>
    have hs := special_styles w hr
    obtain ⟨c, u, name⟩ := r
    have hs : u.styles = w.styles := hs
    dsimp only
    by_cases hc : c ≠ TOK_SEMICO
    · rw [if_pos hc]
      exact hs
    rw [if_neg hc]
    by_cases hn : name.head? = some 35 ∨ name.head?.any isdigit
    · rw [if_pos hn]
      exact hs
    rw [if_neg hn]
    cases lookup_special_char name with
    | none => exact hs
    | some val => exact hs

theorem name_rest_styles (E : HtmlEnv) (w : html_widget_t) (buf : List Byte) (sz last : Int) :
    (name_rest E w buf sz last).2.styles = w.styles := by
  unfold name_rest
  cases hr : runLoop (nameTurn E last) (w.cp.length + 1) (w, buf, sz) with
  | none => rfl
  | some r =>
    have hs : r.2.1.styles = w.styles := by
      refine runLoop_keeps (fun s : html_widget_t × List Byte × Int => s.1.styles = w.styles)
        (fun r => r.2.1.styles = w.styles) ?_ ?_ hr rfl
      · rintro ⟨u, buf, sz⟩ s' hu ht
        have hconv := (convert_styles E (eattoken (gettoken u false).2) (gettoken u false).1).trans
          ((gettoken_styles u false).trans hu)
        unfold nameTurn at ht
        dsimp only at ht
        split_ifs at ht
        · cases ht
          exact hconv
        · cases ht
          exact hconv
      · rintro ⟨u, buf, sz⟩ r hu ht
        unfold nameTurn at ht
        dsimp only at ht
        split_ifs at ht
        cases ht
        exact (gettoken_styles u false).trans hu
    obtain ⟨c, u, buf, sz⟩ := r
    have hs : u.styles = w.styles := hs
    dsimp only
    split_ifs <;> exact hs

theorem parse_name_styles (E : HtmlEnv) (w : html_widget_t) (buf : List Byte) (sz : Int) :
    (parse_name E w buf sz).2.styles = w.styles := by
  have heat := eatWhile_styles (fun c => c = TOK_SPACE) w
  unfold parse_name
  dsimp only
  split_ifs
  · rfl
  · exact heat
  · exact heat
  · exact (name_rest_styles _ _ _ _ _).trans heat
  · exact (name_rest_styles _ _ _ _ _).trans ((convert_styles _ _ _).trans heat)

theorem dash_styles {w : html_widget_t} {lastc : Int} {n : Nat} {r : Int × html_widget_t × Int}
    (hr : runLoop dashTurn n (w, lastc) = some r) : r.2.1.styles = w.styles := by
  refine runLoop_keeps (fun s : html_widget_t × Int => s.1.styles = w.styles) (fun r => r.2.1.styles = w.styles) ?_ ?_ hr rfl
  · rintro ⟨u, l⟩ s' hu ht
    unfold dashTurn at ht
    dsimp only at ht
    split_ifs at ht
    cases ht
    exact (gettoken_styles u false).trans hu
  · rintro ⟨u, l⟩ r hu ht
    unfold dashTurn at ht
    dsimp only at ht
    split_ifs at ht
    · cases ht
      exact (gettoken_styles u false).trans hu
    · cases ht
      exact (gettoken_styles u false).trans hu

theorem commentTurn_styles (w : html_widget_t) (lastc : Int) :
    (∀ s', commentTurn (w, lastc) = .inl s' → s'.1.styles = w.styles) ∧
      ∀ r, commentTurn (w, lastc) = .inr r → r.styles = w.styles := by
  unfold commentTurn
  dsimp only
  cases hr : runLoop dashTurn (w.cp.length + 1) (w, lastc) with
  | none =>
    refine ⟨fun s' h => (by cases h), fun r h => ?_⟩
    cases h
    rfl
  | some r =>
    have hs := dash_styles hr
    obtain ⟨c, u, l⟩ := r
    have hs : u.styles = w.styles := hs
    have heat := (eatWhile_styles (fun c => c ≠ TOK_EOF ∧ isspace (BitVec.ofInt 8 c)) (eattoken u)).trans hs
    dsimp only
    split_ifs
    · refine ⟨fun s' h => (by cases h), fun r h => ?_⟩
      cases h
      exact hs
    · refine ⟨fun s' h => (by cases h), fun r h => ?_⟩
      cases h
      exact heat
    · refine ⟨fun s' h => ?_, fun r h => (by cases h)⟩
      cases h
      exact heat

theorem parse_comment_styles (w : html_widget_t) : (parse_comment w).styles = w.styles := by
  unfold parse_comment
  cases hr : runLoop commentTurn (w.cp.length + 1) (w, 0) with
  | none => rfl
  | some r =>
    refine runLoop_keeps (fun s : html_widget_t × Int => s.1.styles = w.styles) (fun r => r.styles = w.styles) ?_ ?_ hr rfl
    · rintro ⟨u, l⟩ s' hu ht
      exact ((commentTurn_styles u l).1 s' ht).trans hu
    · rintro ⟨u, l⟩ r hu ht
      exact ((commentTurn_styles u l).2 r ht).trans hu

theorem read_styles (t : Tag) (w : html_widget_t) (i : Int) (n : Nat) : (t.read w i n).styles = w.styles := rfl

theorem isComment_styles (E : HtmlEnv) (t : Tag) (w : html_widget_t) (arg : Int) :
    (t.isComment E w arg).2.styles = w.styles := by
  have hfirst := read_styles t w arg 1
  have hsecond := (read_styles t (t.read w arg 1) (arg + 1) 1).trans hfirst
  unfold Tag.isComment
  by_cases hc : t.byte E arg ≠ 33
  · rw [if_pos hc]
    exact hfirst
  rw [if_neg hc]
  by_cases hc' : t.byte E (arg + 1) ≠ 45
  · rw [if_pos hc']
    exact hsecond
  rw [if_neg hc']
  exact (read_styles _ _ _ _).trans hsecond

theorem breakWord_styles (p : Parser) : p.breakWord.w.styles = p.w.styles := by
  have hprint : (doprint ((p.w.touch WORDBUF p.buf.length).touch WORDBUF p.breakchar)
      (p.buf.take p.breakchar.toNat)).styles = p.w.styles := doprint_styles _ _
  unfold Parser.breakWord
  dsimp only
  generalize doprint ((p.w.touch WORDBUF p.buf.length).touch WORDBUF p.breakchar) (p.buf.take p.breakchar.toNat) = u
    at hprint ⊢
  exact hprint

theorem print_styles (p : Parser) : p.print.w.styles = p.w.styles :=
  (doprint_styles (p.w.touch WORDBUF p.buf.length) p.buf).trans rfl

theorem border_styles (p : Parser) : p.border.w.styles = p.w.styles := by
  unfold Parser.border
  split_ifs
  · exact breakWord_styles p
  · exact doprint_styles _ _
  · exact (doprint_styles _ _).trans (hresize_styles _ _)
  · exact print_styles p
  · rfl

theorem token_styles (p : Parser) (c : Int) : (p.token c).w.styles = p.w.styles := by
  unfold Parser.token
  dsimp only
  split_ifs
  · exact print_styles p
  · exact (border_styles _).trans (print_styles p)
  · exact border_styles p
  · refine (border_styles _).trans ?_
    unfold Parser.canBreak
    split_ifs <;> rfl
  · exact border_styles _

theorem parse_tab_styles (p : Parser) : (parse_tab p).w.styles = p.w.styles := by
  unfold parse_tab
  dsimp only
  split_ifs
  · rfl
  · exact border_styles _

theorem html_token_styles (E : HtmlEnv) (p : Parser) : (parse_html_token E p).w.styles = p.w.styles := by
  have hget := gettoken_styles p.w (p.w.m.preformat ≠ 0)
  unfold parse_html_token
  dsimp only
  split_ifs
  · exact (print_styles _).trans hget
  · exact (token_styles _ _).trans ((convert_styles _ _ _).trans hget)
  · exact print_styles p

theorem arg_rest_styles (E : HtmlEnv) (w : html_widget_t) (t : Tag) (arg : Int) :
    (arg_rest E w t arg).2.styles = w.styles := by
  have heat := eatWhile_styles (fun c => c = TOK_SPACE) w
  unfold arg_rest
  dsimp only
  split_ifs
  · exact (bad_tag_styles _).trans heat
  · exact heat
  · have hname := (parse_name_styles E (eattoken (eatWhile (fun c => c = TOK_SPACE) w).2) t.buf (ARGBUF - t.buf.length)).trans heat
    generalize parse_name E (eattoken (eatWhile (fun c => c = TOK_SPACE) w).2) t.buf (ARGBUF - t.buf.length) = r at hname ⊢
    obtain ⟨o, u⟩ := r
    cases o with
    | none => exact (bad_tag_styles u).trans hname
    | some buf => exact hname
  · exact heat

theorem tag_arg_styles (E : HtmlEnv) (w : html_widget_t) (t : Tag) : (parse_tag_arg E w t).2.styles = w.styles := by
  unfold parse_tag_arg
  by_cases hlt : t.i < ARGMAX
  swap
  · rw [if_pos hlt]
  rw [if_neg (not_not.2 hlt)]
  have hname : (parse_name E (w.touch ARGMAX t.args.length) t.buf (ARGBUF - t.buf.length)).2.styles = w.styles :=
    parse_name_styles _ _ _ _
  dsimp only
  generalize parse_name E (w.touch ARGMAX t.args.length) t.buf (ARGBUF - t.buf.length) = r at hname ⊢
  obtain ⟨o, u⟩ := r
  have hname : u.styles = w.styles := hname
  cases o with
  | none => exact (bad_tag_styles u).trans hname
  | some buf =>
    dsimp only
    generalize (if buf.length ≠ t.buf.length then t.i + 1 else t.i) = i
    have hcom : (if i = (1 : Int) then Tag.isComment E { t with buf, i } u t.buf.length else (false, u)).2.styles = w.styles := by
      split_ifs
      · exact (isComment_styles _ _ _ _).trans hname
      · exact hname
    generalize (if i = (1 : Int) then Tag.isComment E { t with buf, i } u t.buf.length else (false, u)) = rc at hcom ⊢
    split_ifs
    · exact (parse_comment_styles _).trans hcom
    · exact (arg_rest_styles _ _ _ _).trans hcom

def Mode.Counted : Mode → Prop
  | .arg t => t.i ≤ ARGMAX
  | .call t => t.i ≤ ARGMAX
  | _ => True

theorem arg_rest_counted (E : HtmlEnv) (w : html_widget_t) {t : Tag} (ht : t.i ≤ ARGMAX) (arg : Int) :
    (arg_rest E w t arg).1.Counted := by
  unfold arg_rest
  dsimp only
  split_ifs
  · trivial
  · exact ht
  · generalize parse_name E _ t.buf (ARGBUF - t.buf.length) = r
    obtain ⟨o, u⟩ := r
    cases o with
    | none => trivial
    | some buf => exact ht
  · exact ht

theorem tag_arg_counted (E : HtmlEnv) (w : html_widget_t) {t : Tag} (ht : t.i ≤ ARGMAX) : (parse_tag_arg E w t).1.Counted := by
  unfold parse_tag_arg
  by_cases hlt : t.i < ARGMAX
  swap
  · rw [if_pos hlt]
    exact ht
  rw [if_neg (not_not.2 hlt)]
  dsimp only
  generalize parse_name E (w.touch ARGMAX t.args.length) t.buf (ARGBUF - t.buf.length) = r
  obtain ⟨o, u⟩ := r
  cases o with
  | none => trivial
  | some buf =>
    dsimp only
    have hi : (if buf.length ≠ t.buf.length then t.i + 1 else t.i) ≤ ARGMAX := by
      split_ifs
      · omega
      · exact ht
    generalize (if buf.length ≠ t.buf.length then t.i + 1 else t.i) = i at hi ⊢
    generalize (if i = (1 : Int) then Tag.isComment E { t with buf, i } u t.buf.length else (false, u)) = rc
    split_ifs
    · trivial
    · exact arg_rest_counted E rc.2 hi _

/-! What the functions of the tags do to the styles. -/

def TagFn.Plain : TagFn → Prop
  | .tag_h | .tag_not_h | .tag_pre | .tag_not_pre | .tag_b | .tag_not_b | .tag_i | .tag_not_i | .tag_u | .tag_not_u
  | .tag_tt | .tag_not_tt | .tag_ul | .tag_not_ul | .tag_a | .tag_not_a | .tag_bq | .tag_not_bq => False
  | _ => True

instance (f : TagFn) : Decidable f.Plain := by
  cases f <;> first | exact isTrue trivial | exact isFalse id

theorem li_styles (w : html_widget_t) : (tag_li w).styles = w.styles := by
  unfold tag_li
  dsimp only
  refine ite_styles rfl ((setList_same _ ?_).trans ?_)
  · split_ifs <;> rfl
  · split_ifs <;> rfl

theorem dt_styles (w : html_widget_t) : (tag_dt w).styles = w.styles := by
  unfold tag_dt
  dsimp only
  refine ite_styles rfl ((setList_same _ ?_).trans ?_)
  · split_ifs <;> rfl
  · split_ifs <;> rfl

theorem dd_styles (w : html_widget_t) : (tag_dd w).styles = w.styles := by
  unfold tag_dd
  dsimp only
  refine ite_styles rfl ((setList_same _ ?_).trans ?_)
  · split_ifs <;> rfl
  · split_ifs <;> rfl

theorem textarea_styles (E : HtmlEnv) (w : html_widget_t) (t : Tag) : (tag_textarea E w t).styles = w.styles := by
  have hread : (t.readNames E (t.rest.foldl (t.readVal E) w)).styles = w.styles :=
    (readNames_styles E t _).trans (fold_styles (readVal_styles E t) _ _)
  unfold tag_textarea
  dsimp only
  generalize t.readNames E (t.rest.foldl (t.readVal E) w) = u at hread ⊢
  generalize t.rest.foldl (textarea_arg E t) ⟨none, none, none⟩ = r
  refine ite_styles ?_ hread
  have hx : (r.setX u).styles = u.styles := by
    unfold TextArea.setX
    cases r.ax <;> rfl
  have hy : (r.setY (r.setX u)).styles = u.styles := by
    refine Eq.trans ?_ hx
    unfold TextArea.setY
    cases r.ay <;> rfl
  have hw : (r.setWidth (r.setY (r.setX u))).styles = u.styles := by
    refine Eq.trans ?_ hy
    unfold TextArea.setWidth
    cases r.aw <;> rfl
  exact hw.trans hread

theorem wfont_arg_styles (E : HtmlEnv) (t : Tag) (w : html_widget_t) (a : arg_t) : (wfont_arg E t w a).styles = w.styles := by
  have hname : (t.readString E w a.arg).2.styles = w.styles := rfl
  unfold wfont_arg
  generalize (t.readString E w a.arg).2 = u at hname ⊢
  have hval := (readVal_styles E t u a).trans hname
  dsimp only
  refine ite_styles ?_ hname
  generalize t.readVal E u a = v at hval ⊢
  generalize E.loadfonts _ = fp
  cases fp with
  | none => exact hval
  | some fp => exact hval

theorem wfont_styles (E : HtmlEnv) (w : html_widget_t) (t : Tag) : (tag_wfont E w t).styles = w.styles := by
  have hfold := fold_styles (wfont_arg_styles E t) t.rest w
  unfold tag_wfont
  generalize t.rest.foldl (wfont_arg E t) w = u at hfold ⊢
  dsimp only
  split_ifs <;> exact hfold

theorem img_styles (E : HtmlEnv) (w : html_widget_t) (t : Tag) : (tag_img E w t).styles = w.styles := by
  have hnames := readNames_styles E t w
  unfold tag_img
  generalize t.readNames E w = u at hnames ⊢
  cases E.img_query_cb with
  | none => rfl
  | some query =>
    dsimp only
    cases (img_args E t).src with
    | none => exact hnames
    | some src =>
      dsimp only
      cases query (t.string E src) with
      | none => exact hnames
      | some q =>
        have hplace : (img_place (t.readString E u src).2 q.1).styles = w.styles := by
          unfold img_place
          dsimp only
          have hbreak : (if (t.readString E u src).2.m.x + q.1 + 2 > (t.readString E u src).2.area_x + (t.readString E u src).2.area_w ∧
              (t.readString E u src).2.m.x > (t.readString E u src).2.area_x + (t.readString E u src).2.m.indent then
                dolinebreak (t.readString E u src).2 else (t.readString E u src).2).styles = w.styles := ite_styles hnames hnames
          exact ite_styles ((hresize_styles _ _).trans hbreak) hbreak
        dsimp only
        generalize img_place (t.readString E u src).2 q.1 = v at hplace ⊢
        have halt : (img_alt E v t q.2).styles = w.styles := by
          unfold img_alt
          cases (img_args E t).alt with
          | none => exact hplace
          | some alt => exact ite_styles hplace hplace
        unfold img_shown
        generalize img_alt E v t q.2 = v' at halt ⊢
        dsimp only
        exact ite_styles halt halt

variable {f : TagFn}

theorem plain_styles (hf : f.Plain) (E : HtmlEnv) (w : html_widget_t) (t : Tag) :
    (f.run E w t).styles = w.styles := by
  cases f with
  | tag_head => rfl
  | tag_title => exact ite_styles rfl rfl
  | tag_not_title => exact ite_styles rfl rfl
  | tag_not_head => exact ite_styles rfl rfl
  | tag_body => rfl
  | tag_hr => exact freshline_styles w
  | tag_br => exact freshline_styles w
  | tag_p => exact freshline_styles w
  | tag_li => exact li_styles w
  | tag_dt => exact dt_styles w
  | tag_dd => exact dd_styles w
  | tag_textarea => exact textarea_styles E w t
  | tag_wfont => exact wfont_styles E w t
  | tag_img => exact img_styles E w t
  | _ => exact absurd hf id

def Style.on : Style → TagFn
  | .bold => .tag_b
  | .italic => .tag_i
  | .underline => .tag_u
  | .tt => .tag_tt
  | .preformat => .tag_pre

def Style.off : Style → TagFn
  | .bold => .tag_not_b
  | .italic => .tag_not_i
  | .underline => .tag_not_u
  | .tt => .tag_not_tt
  | .preformat => .tag_not_pre

theorem setfont_styles (w : html_widget_t) : (setfont w).styles = w.styles := rfl

theorem on_styles (c : Style) (E : HtmlEnv) (w : html_widget_t) (t : Tag) :
    (c.on.run E w t).styles = w.styles.setCounter c (up (w.styles.counter c)) := by
  cases c with
  | bold => exact ite_styles (setfont_styles _) rfl
  | italic => exact ite_styles (setfont_styles _) rfl
  | underline => rfl
  | tt => exact ite_styles (setfont_styles _) rfl
  | preformat => rfl

theorem off_styles (c : Style) (E : HtmlEnv) (w : html_widget_t) (t : Tag) (h : 0 < w.styles.counter c) :
    (c.off.run E w t).styles = w.styles.setCounter c (w.styles.counter c - 1) := by
  cases c with
  | bold =>
    refine (congrArg _ (if_pos h)).trans ?_
    exact ite_styles (setfont_styles _) rfl
  | italic =>
    refine (congrArg _ (if_pos h)).trans ?_
    exact ite_styles (setfont_styles _) rfl
  | underline => exact congrArg _ (if_pos h)
  | tt =>
    refine (congrArg _ (if_pos h)).trans ?_
    exact ite_styles (setfont_styles _) rfl
  | preformat => exact congrArg _ (if_pos h)

theorem bq_styles (w : html_widget_t) : (tag_bq w).styles =
    { w.styles.setCounter .italic (up w.styles.italic) with indent := short (w.styles.indent + 10) } := by
  have hfresh : ((freshline w).down w.line_dist).styles = w.styles := freshline_styles w
  unfold tag_bq
  dsimp only
  generalize (freshline w).down w.line_dist = u at hfresh ⊢
  rw [← hfresh]
  exact ite_styles (setfont_styles _) rfl

theorem not_bq_styles (w : html_widget_t) (h : 0 < w.styles.italic) : (tag_not_bq w).styles =
    { w.styles.setCounter .italic (w.styles.italic - 1) with indent := short (w.styles.indent - 10) } := by
  have hfresh : ((freshline w).down w.line_dist).styles = w.styles := freshline_styles w
  unfold tag_not_bq
  dsimp only
  generalize (freshline w).down w.line_dist = u at hfresh ⊢
  rw [← hfresh] at h ⊢
  refine (congrArg _ (if_pos h)).trans ?_
  exact ite_styles (setfont_styles _) rfl

theorem listed_styles (v : html_widget_t) (l : liststack_t) (x : Int) :
    ({ v.setList l with m := { (v.setList l).m with indent := short ((v.setList l).m.indent + l.indent), x := x } } :
      html_widget_t).styles =
      { v.styles with
        indent := short (v.styles.indent + l.indent)
        indents := Function.update v.styles.indents v.styles.lsp l.indent } := by
  have hset := setList_styles v l
  generalize v.setList l = u at hset ⊢
  have hu : ({ u with m := { u.m with indent := short (u.m.indent + l.indent), x := x } } : html_widget_t).styles =
      { u.styles with indent := short (u.styles.indent + l.indent) } := rfl
  rw [hu, hset]
  rfl

theorem ul_styles (E : HtmlEnv) (w : html_widget_t) (t : Tag) {n : Int} (hn : short (w.styles.lsp + 1) = n)
    (hlt : n < LIST_STACK_SZ) : ∃ d, (tag_ul E w t).styles =
      { w.styles with lsp := n, indent := short (w.styles.indent + d), indents := Function.update w.styles.indents n d } := by
  subst hn
  have hroom : ¬ short (w.m.lsp + 1) ≥ LIST_STACK_SZ := not_le.2 hlt
  have hpush : ∃ (v : html_widget_t) (l : liststack_t) (x : Int), v.styles = { w.styles with lsp := short (w.styles.lsp + 1) } ∧
      tag_ul E w t =
        { v.setList l with m := { (v.setList l).m with indent := short ((v.setList l).m.indent + l.indent), x := x } } := by
    unfold tag_ul
    dsimp only
    rw [if_neg hroom]
    exact ⟨_, _, _, freshline_styles _, rfl⟩
  obtain ⟨v, l, x, hv, hul⟩ := hpush
  refine ⟨l.indent, ?_⟩
  rw [hul, listed_styles, hv]

theorem not_ul_styles (w : html_widget_t) (h : 0 < w.styles.lsp) : (tag_not_ul w).styles =
    { w.styles with lsp := w.styles.lsp - 1, indent := short (w.styles.indent - w.styles.indents w.styles.lsp) } := by
  have hlsp : 0 < w.m.lsp := h
  unfold tag_not_ul
  rw [if_neg (not_le.2 hlsp)]
  dsimp only
  let u : html_widget_t := { w.touch LIST_STACK_SZ w.m.lsp with
    m := { w.m with indent := short (w.m.indent - (w.m.lstack w.m.lsp).indent), x := w.m.x - (w.m.lstack w.m.lsp).indent } }
  have hfresh : ((freshline u).down (u.line_dist.tdiv 4)).styles = u.styles := freshline_styles u
  change ({ (freshline u).down (u.line_dist.tdiv 4) with
    m := { ((freshline u).down (u.line_dist.tdiv 4)).m with lsp := ((freshline u).down (u.line_dist.tdiv 4)).m.lsp - 1 } } :
      html_widget_t).styles = _
  generalize (freshline u).down (u.line_dist.tdiv 4) = v at hfresh ⊢
  have hv : ({ v with m := { v.m with lsp := v.m.lsp - 1 } } : html_widget_t).styles =
      { v.styles with lsp := v.styles.lsp - 1 } := rfl
  rw [hv, hfresh]
  rfl

/-! Tags that are nested. -/

inductive Kind where
  | list
  | quote
  | style (c : Style)
  deriving DecidableEq

def Kind.opening : Kind → TagFn
  | .list => .tag_ul
  | .quote => .tag_bq
  | .style c => c.on

def Kind.closing : Kind → TagFn
  | .list => .tag_not_ul
  | .quote => .tag_not_bq
  | .style c => c.off

def Kind.turns (k : Kind) (c : Style) : Bool :=
  match k with
  | .list => false
  | .quote => c = .italic
  | .style d => c = d

def paired : List (String × Kind) := [
  ("ul", .list), ("ol", .list), ("dl", .list), ("menu", .list), ("dir", .list),
  ("blockquote", .quote), ("address", .quote),
  ("b", .style .bold), ("strong", .style .bold),
  ("i", .style .italic), ("em", .style .italic), ("cite", .style .italic), ("var", .style .italic), ("dfn", .style .italic),
  ("u", .style .underline),
  ("tt", .style .tt), ("code", .style .tt), ("kbd", .style .tt), ("samp", .style .tt),
  ("pre", .style .preformat)]

def headings : List (String × List Style) := [("h1", [.bold, .underline]), ("h2", [.bold]), ("h3", [.italic])]

def kind (name : List Byte) : Option Kind := (paired.find? fun e => cstring e.1 = name).map Prod.snd

abbrev Opened := List (List Byte × Kind)

def closes (name : List Byte) : Prop := name.head? = some 47 ∧ kind name.tail ≠ none

instance (name : List Byte) : Decidable (closes name) := inferInstanceAs (Decidable (_ ∧ _))

def nest (opened : Opened) (name : List Byte) : Option Opened :=
  match kind name with
  | some k => some ((name, k) :: opened)
  | none =>
    if closes name then
      match opened with
      | [] => none
      | (n, _) :: rest => if n = name.tail then some rest else none
    else some opened

def Tag.called (E : HtmlEnv) (t : Tag) : List Byte := (t.lower E).string E t.name

def nestStep (E : HtmlEnv) (opened : Opened) (p : Parser) : Option Opened :=
  match p.mode with
  | .call t => nest opened (t.called E)
  | _ => some opened

/-- A text with nested tags is parsed from `start` up to `p`, where the tags of the list are open; `ok` holds
before every step. -/
inductive Nested (E : HtmlEnv) (ok : Opened → Parser → Prop) (start : Parser) : Opened → Parser → Prop
  | start : Nested E ok start [] start
  | step {opened opened' : Opened} {p : Parser} (h : Nested E ok start opened p) (hok : ok opened p)
      (hn : nestStep E opened p = some opened') : Nested E ok start opened' (p.step E)

def openStyles (opened : Opened) (c : Style) : Nat := opened.countP fun e => e.2.turns c

def openLists (opened : Opened) : Nat := opened.countP fun e => e.2 = .list

structure Styles.Balanced (s₀ : Styles) (opened : Opened) (s : Styles) : Prop where
  shown : ∀ c, s.counter c ≠ 0 ↔ ∃ e ∈ opened, e.2.turns c = true
  back : opened = [] → s.indent = s₀.indent ∧ s.lsp = s₀.lsp ∧ ∀ c, s.counter c = s₀.counter c

def Tag.href (E : HtmlEnv) (t : Tag) : Bool :=
  let r := (t.lower E).rest.foldl (a_arg E (t.lower E)) ⟨none, false⟩
  r.url.isSome && r.is_href

/-- The counters and the list stack have room for the tag, its function is found, and it is none of the other
tags that use a counter of a style. -/
structure Fits (E : HtmlEnv) (opened : Opened) (t : Tag) : Prop where
  room : ∀ k, kind (t.called E) = some k → ∀ c, k.turns c = true → openStyles opened c < 255
  depth : kind (t.called E) = some .list → openLists opened + 1 < LIST_STACK_SZ
  dir : t.called E ≠ cstring "/dir"
  heading : ∀ e ∈ headings, t.called E ≠ cstring e.1 ∧
    (t.called E = 47 :: cstring e.1 → ∀ c ∈ e.2, openStyles opened c = 0)
  anchor : t.called E = cstring "a" → t.href E = false

def Fitting (E : HtmlEnv) (opened : Opened) (p : Parser) : Prop := ∀ t, p.mode = .call t → Fits E opened t

variable {name : List Byte} {k : Kind}

theorem kind_mem (h : kind name = some k) : ∃ e ∈ paired, cstring e.1 = name ∧ e.2 = k := by
  obtain ⟨e, he, rfl⟩ := Option.map_eq_some_iff.1 h
  have hname := find?_some he
  exact ⟨e, mem_of_find?_eq_some he, of_decide_eq_true hname, rfl⟩

theorem opening_found (h : kind name = some k) : lookup_tag_fn name = some k.opening := by
  have htable : ∀ e ∈ paired, lookup_tag_fn (cstring e.1) = some e.2.opening := by decide +kernel
  obtain ⟨e, he, rfl, rfl⟩ := kind_mem h
  exact htable e he

theorem closing_found (h : kind name = some k) (hd : 47 :: name ≠ cstring "/dir") :
    lookup_tag_fn (47 :: name) = some k.closing := by
  have htable : ∀ e ∈ paired, 47 :: cstring e.1 ≠ cstring "/dir" →
      lookup_tag_fn (47 :: cstring e.1) = some e.2.closing := by decide +kernel
  obtain ⟨e, he, rfl, rfl⟩ := kind_mem h
  exact htable e he hd

variable {i : Int}

theorem stringLength_nul_free {text : Int → Byte} {n k : Nat} (h : k < stringLength text n i) :
    text (i + k) ≠ 0 := by
  induction n generalizing i k with
  | zero => exact absurd h (Nat.not_lt_zero k)
  | succ n ih =>
    rw [stringLength] at h
    split_ifs at h with h0
    · exact absurd h (Nat.not_lt_zero k)
    cases k with
    | zero => simpa using h0
    | succ k =>
      have hnext := ih (i := i + 1) (k := k) (by omega)
      rwa [show i + 1 + (k : Int) = i + (k + 1 : Nat) by push_cast; ring] at hnext

theorem string_nul_free (E : HtmlEnv) (t : Tag) (i : Int) : 0 ∉ t.string E i := by
  intro h
  obtain ⟨k, hk, h0⟩ := mem_map.1 h
  exact stringLength_nul_free (mem_range.1 hk) h0

theorem string_byte {E : HtmlEnv} {t : Tag} {k : Nat} {c : Byte} (h : (t.string E i)[k]? = some c) :
    t.byte E (i + k) = c := by
  unfold Tag.string at h
  rw [getElem?_map] at h
  obtain ⟨j, hj, rfl⟩ := Option.map_eq_some_iff.1 h
  obtain ⟨hk, hj⟩ := List.getElem?_eq_some_iff.1 hj
  rw [getElem_range] at hj
  rw [hj]

theorem found_name (h0 : 0 ∉ name) (h : lookup_tag_fn name = some f) :
    ∃ e ∈ tag_funcs, e.2 = f ∧ cstring e.1 = name := by
  have htable : ∀ e ∈ tag_funcs, 0 ∉ cstring e.1 := by decide +kernel
  obtain ⟨e, he, hf, hcmp⟩ := lookup_mem h
  exact ⟨e, he, hf, ((strcmp_eq_zero h0 (htable e he)).1 hcmp).symm⟩

def Nests (indents : Int → Int) : Opened → Int → Prop
  | [], i => i = 0
  | (_, k) :: opened, i =>
    match k with
    | .list => ∃ i₀, Nests indents opened i₀ ∧ i = short (i₀ + indents (openLists opened + 1))
    | .quote => ∃ i₀, Nests indents opened i₀ ∧ i = short (i₀ + 10)
    | .style _ => Nests indents opened i

variable {opened : Opened}

theorem nests_short {indents : Int → Int} (h : Nests indents opened i) : short i = i := by
  induction opened generalizing i with
  | nil =>
    have hi : i = 0 := h
    rw [hi]
    rfl
  | cons e opened ih =>
    obtain ⟨n, k⟩ := e
    cases k with
    | list =>
      obtain ⟨i₀, -, rfl⟩ := h
      have := short_add_short (i₀ + indents (openLists opened + 1)) 0
      rwa [add_zero, add_zero] at this
    | quote =>
      obtain ⟨i₀, -, rfl⟩ := h
      have := short_add_short (i₀ + 10) 0
      rwa [add_zero, add_zero] at this
    | style c => exact ih h

@[simp] theorem openLists_cons (n : List Byte) (k : Kind) (opened : Opened) :
    openLists ((n, k) :: opened) = openLists opened + if k = .list then 1 else 0 := by
  simp [openLists, countP_cons]

@[simp] theorem openStyles_cons (n : List Byte) (k : Kind) (opened : Opened) (c : Style) :
    openStyles ((n, k) :: opened) c = openStyles opened c + if k.turns c = true then 1 else 0 :=
  countP_cons

theorem nests_congr {indents indents' : Int → Int} (h : Nests indents opened i)
    (hi : ∀ j : Int, j ≤ openLists opened → indents' j = indents j) : Nests indents' opened i := by
  induction opened generalizing i with
  | nil => exact h
  | cons e opened ih =>
    obtain ⟨n, k⟩ := e
    rw [openLists_cons] at hi
    cases k with
    | list =>
      rw [if_pos rfl] at hi
      obtain ⟨i₀, hn, rfl⟩ := h
      refine ⟨i₀, ih hn fun j hj => hi j (by push_cast; omega), ?_⟩
      rw [hi (openLists opened + 1) (by push_cast; omega)]
    | quote =>
      obtain ⟨i₀, hn, rfl⟩ := h
      exact ⟨i₀, ih hn hi, rfl⟩
    | style c => exact ih (i := i) h hi

structure Agrees (opened : Opened) (s : Styles) : Prop where
  counters : ∀ c, s.counter c = openStyles opened c
  small : ∀ c, openStyles opened c ≤ 255
  lists : s.lsp = openLists opened
  few : openLists opened < LIST_STACK_SZ
  nests : Nests s.indents opened s.indent
  href : s.anchor_is_href = false

theorem up_small {n : Nat} (h : n < 255) : up n = n + 1 := by
  unfold up
  omega

variable {c : Style} {n : List Byte}

theorem counters_up {s : Styles} (s' : Styles) (h : Agrees opened s)
    (hk : ∀ d, k.turns d = decide (d = c)) (hroom : ∀ d, k.turns d = true → openStyles opened d < 255)
    (hs : ∀ d, s'.counter d = (s.setCounter c (up (s.counter c))).counter d) :
    (∀ d, s'.counter d = openStyles ((n, k) :: opened) d) ∧ ∀ d, openStyles ((n, k) :: opened) d ≤ 255 := by
  have hlt : openStyles opened c < 255 := hroom c (by rw [hk]; exact decide_eq_true rfl)
  refine ⟨fun d => ?_, fun d => ?_⟩
  · rw [hs, counter_set, openStyles_cons, hk]
    by_cases hd : d = c
    · subst hd
      rw [if_pos rfl, if_pos (decide_eq_true rfl), h.counters, up_small hlt]
      push_cast
      rfl
    · rw [if_neg hd, if_neg (by simpa using hd), h.counters, add_zero]
  · rw [openStyles_cons, hk]
    by_cases hd : d = c
    · subst hd
      rw [if_pos (decide_eq_true rfl)]
      omega
    · rw [if_neg (by simpa using hd)]
      exact h.small d

theorem counters_down {s s' : Styles}
    (h : Agrees ((n, k) :: opened) s) (hk : ∀ d, k.turns d = decide (d = c))
    (hs : ∀ d, s'.counter d = (s.setCounter c (s.counter c - 1)).counter d) :
    ∀ d, s'.counter d = openStyles opened d := by
  intro d
  have hd := h.counters d
  rw [openStyles_cons, hk] at hd
  rw [hs, counter_set]
  by_cases hc : d = c
  · subst hc
    rw [if_pos (decide_eq_true rfl)] at hd
    rw [if_pos rfl]
    push_cast at hd
    omega
  · rw [if_neg (by simpa using hc), add_zero] at hd
    rw [if_neg hc]
    exact hd

theorem small_tail (h : ∀ c, openStyles ((n, k) :: opened) c ≤ 255) :
    ∀ c, openStyles opened c ≤ 255 := by
  intro c
  have := h c
  rw [openStyles_cons] at this
  omega

theorem counter_pos {s : Styles} (h : Agrees ((n, k) :: opened) s)
    (hk : k.turns c = true) : 0 < s.counter c := by
  have := h.counters c
  rw [openStyles_cons, if_pos hk] at this
  push_cast at this
  omega

theorem opening_agrees (h : Agrees opened w.styles) (n : List Byte)
    (hroom : ∀ c, k.turns c = true → openStyles opened c < 255)
    (hdepth : k = .list → openLists opened + 1 < LIST_STACK_SZ) (t : Tag) :
    Agrees ((n, k) :: opened) (k.opening.run E w t).styles := by
  have hsz : LIST_STACK_SZ = 8 := rfl
  cases k with
  | list =>
    have hlt := hdepth rfl
    have hnext : short (w.styles.lsp + 1) = openLists opened + 1 := by
      rw [h.lists]
      unfold short
      omega
    obtain ⟨d, hul⟩ := ul_styles E w t hnext hlt
    have hul : (Kind.list.opening.run E w t).styles = _ := hul
    rw [hul]
    refine ⟨fun c => ?_, fun c => ?_, ?_, ?_, ?_, h.href⟩
    · rw [openStyles_cons]
      exact h.counters c
    · rw [openStyles_cons]
      exact h.small c
    · rw [openLists_cons]
      rfl
    · rw [openLists_cons, if_pos rfl]
      push_cast
      exact hlt
    · refine ⟨w.styles.indent, nests_congr h.nests fun j hj => update_of_ne (by omega) _ _, ?_⟩
      dsimp only
      rw [update_self]
  | quote =>
    have hbq : (Kind.quote.opening.run E w t).styles = _ := bq_styles w
    rw [hbq]
    obtain ⟨hcount, hsmall⟩ := counters_up (n := n) (c := Style.italic)
      { w.styles.setCounter .italic (up w.styles.italic) with indent := short (w.styles.indent + 10) } h (fun d => rfl) hroom
      fun d => (by cases d <;> rfl)
    refine ⟨hcount, hsmall, ?_, ?_, ?_, h.href⟩
    · rw [openLists_cons]
      exact h.lists
    · rw [openLists_cons]
      exact h.few
    · exact ⟨w.styles.indent, h.nests, rfl⟩
  | style c =>
    have hon : ((Kind.style c).opening.run E w t).styles = _ := on_styles c E w t
    rw [hon]
    obtain ⟨hcount, hsmall⟩ := counters_up (n := n) (c := c) _ h (fun d => rfl) hroom fun d => rfl
    refine ⟨hcount, hsmall, ?_, ?_, ?_, ?_⟩
    · rw [openLists_cons, setCounter_lsp]
      exact h.lists
    · rw [openLists_cons]
      exact h.few
    · rw [setCounter_indents, setCounter_indent]
      exact h.nests
    · rw [setCounter_href]
      exact h.href

theorem closing_agrees (h : Agrees ((n, k) :: opened) w.styles) (t : Tag) :
    Agrees opened (k.closing.run E w t).styles := by
  have hlists := h.lists
  have hfew := h.few
  rw [openLists_cons] at hlists hfew
  cases k with
  | list =>
    rw [if_pos rfl] at hlists hfew
    have hul : (Kind.list.closing.run E w t).styles = _ := not_ul_styles w (by push_cast at hlists; omega)
    rw [hul]
    obtain ⟨i₀, hn, hi⟩ := h.nests
    refine ⟨fun c => ?_, small_tail h.small, ?_, ?_, ?_, h.href⟩
    · have := h.counters c
      rwa [openStyles_cons] at this
    · dsimp only
      push_cast at hlists
      omega
    · push_cast at hfew
      omega
    · have hback : short (w.styles.indent - w.styles.indents w.styles.lsp) = i₀ := by
        rw [hi, hlists, short_sub_short]
        push_cast
        rw [add_sub_cancel_right]
        exact nests_short hn
      dsimp only
      rw [hback]
      exact hn
  | quote =>
    have hbq : (Kind.quote.closing.run E w t).styles = _ := not_bq_styles w (counter_pos (c := .italic) h rfl)
    rw [hbq]
    obtain ⟨i₀, hn, hi⟩ := h.nests
    refine ⟨counters_down (c := .italic) h (fun d => rfl) fun d => (by cases d <;> rfl), small_tail h.small, hlists, hfew, ?_, h.href⟩
    have hback : short (w.styles.indent - 10) = i₀ := by
      rw [hi, short_sub_short, add_sub_cancel_right]
      exact nests_short hn
    dsimp only
    rw [hback]
    exact hn
  | style c =>
    have hoff : ((Kind.style c).closing.run E w t).styles = _ :=
      off_styles c E w t (counter_pos h (decide_eq_true rfl))
    rw [hoff]
    refine ⟨counters_down (c := c) h (fun d => rfl) fun d => rfl, small_tail h.small, ?_, hfew, ?_, ?_⟩
    · rw [setCounter_lsp]
      exact hlists
    · rw [setCounter_indents, setCounter_indent]
      exact h.nests
    · rw [setCounter_href]
      exact h.href

theorem bold_off_none (h : w.styles.bold = 0) : (bold_off w).styles = w.styles := by
  have h0 : ¬ w.m.bold > 0 := by
    change ¬ w.styles.bold > 0
    omega
  unfold bold_off
  rw [if_neg h0]

theorem italic_off_none (h : w.styles.italic = 0) : (italic_off w).styles = w.styles := by
  have h0 : ¬ w.m.italic > 0 := by
    change ¬ w.styles.italic > 0
    omega
  unfold italic_off
  rw [if_neg h0]

theorem underline_off_none (h : w.styles.underline = 0) : (underline_off w).styles = w.styles := by
  have h0 : ¬ w.m.underline > 0 := by
    change ¬ w.styles.underline > 0
    omega
  unfold underline_off
  rw [if_neg h0]

theorem small_heading {level : Byte} (hl : level.toNat ≠ 49 ∧ level.toNat ≠ 50 ∧ level.toNat ≠ 51) (w : html_widget_t)
    (t : Tag) (hb : t.byte E (t.name + 1) = level) : (tag_h E w t).styles = w.styles := by
  unfold tag_h
  dsimp only
  rw [hb, if_neg hl.1, if_neg hl.2.1, if_neg hl.2.2]
  exact freshline_styles _

theorem heading_end {s : Styles} (w : html_widget_t) (t : Tag) (hw : w.styles = s)
    (h1 : (t.byte E (t.name + 2)).toNat = 49 → s.bold = 0 ∧ s.underline = 0)
    (h2 : (t.byte E (t.name + 2)).toNat = 50 → s.bold = 0) (h3 : (t.byte E (t.name + 2)).toNat = 51 → s.italic = 0) :
    (tag_not_h E w t).styles = s := by
  have hread : (t.read w (t.name + 2) 1).styles = s := (read_styles _ _ _ _).trans hw
  unfold tag_not_h
  dsimp only
  generalize t.read w (t.name + 2) 1 = u at hread ⊢
  refine (freshline_styles _).trans ?_
  split_ifs with e1 e2 e3
  · have hund := underline_off_none (w := u) (by rw [hread]; exact (h1 e1).2)
    rw [bold_off_none (by rw [hund, hread]; exact (h1 e1).1), hund]
    exact hread
  · rw [bold_off_none (by rw [hread]; exact h2 e2)]
    exact hread
  · rw [italic_off_none (by rw [hread]; exact h3 e3)]
    exact hread
  · exact hread

theorem a_styles (E : HtmlEnv) (w : html_widget_t) (t : Tag) (h : w.styles.anchor_is_href = false)
    (hr : ((t.rest.foldl (a_arg E t) ⟨none, false⟩).url.isSome && (t.rest.foldl (a_arg E t) ⟨none, false⟩).is_href) = false) :
    (tag_a E w t).styles = w.styles := by
  have hnames := readNames_styles E t w
  unfold tag_a
  dsimp only
  generalize t.readNames E w = u at hnames ⊢
  generalize t.rest.foldl (a_arg E t) ⟨none, false⟩ = r at hr ⊢
  obtain ⟨url, is_href⟩ := r
  cases url with
  | none => exact hnames
  | some url =>
    have hoff : is_href = false := by simpa using hr
    subst hoff
    dsimp only
    rw [if_neg Bool.false_ne_true]
    have hset : ({ u.styles with anchor_is_href := false } : Styles) = w.styles := by
      rw [hnames, ← h]
    exact hset

theorem not_a_styles (w : html_widget_t) (h : w.styles.anchor_is_href = false) : (tag_not_a w).styles = w.styles := by
  have hoff : w.m.anchor_is_href = false := h
  unfold tag_not_a
  dsimp only
  rw [hoff, if_neg Bool.false_ne_true]
  exact ite_styles rfl rfl

def Single (e : String × TagFn) : Prop :=
  e.2.Plain ∨ (e.2 = .tag_h ∧ ∃ d : Fin 6, cstring e.1 = [104, BitVec.ofNat 8 (49 + d)]) ∨
    (e.2 = .tag_not_h ∧ ∃ d : Fin 6, cstring e.1 = [47, 104, BitVec.ofNat 8 (49 + d)]) ∨
      (e.2 = .tag_a ∧ cstring e.1 = cstring "a") ∨ e.2 = .tag_not_a

instance (e : String × TagFn) : Decidable (Single e) := by
  unfold Single
  infer_instance

theorem span_styles (w : html_widget_t) (size i : Int) (n : Nat) : (w.span size i n).styles = w.styles := rfl

theorem lowered_styles (E : HtmlEnv) (t : Tag) (w : html_widget_t) : (t.lowered E w).styles = w.styles := by
  unfold Tag.lowered
  exact (span_styles _ _ _ _).trans ((read_styles _ _ _ _).trans (span_styles _ _ _ _))

theorem single_found (h0 : 0 ∉ name) (h : lookup_tag_fn name = some f) (hk : kind name = none)
    (hc : ¬ closes name) : ∃ e ∈ tag_funcs, e.2 = f ∧ cstring e.1 = name ∧ Single e := by
  have htable : ∀ e ∈ tag_funcs, kind (cstring e.1) = none → ¬ closes (cstring e.1) → Single e := by decide +kernel
  obtain ⟨e, he, hf, rfl⟩ := found_name h0 h
  exact ⟨e, he, hf, rfl, htable e he hk hc⟩

theorem single_agrees (h : Agrees opened w.styles) (ht : Fits E opened t)
    (hf : lookup_tag_fn (t.called E) = some f) (hk : kind (t.called E) = none) (hc : ¬ closes (t.called E)) :
    (f.run E w (t.lower E)).styles = w.styles := by
  obtain ⟨e, -, hfn, hname, hplain | ⟨he, d, hd⟩ | ⟨he, d, hd⟩ | ⟨he, ha⟩ | he⟩ :=
    single_found (string_nul_free E (t.lower E) t.name) hf hk hc
  all_goals rw [← hfn]
  · exact plain_styles hplain E w _
  · -- the second byte of the name is the level
    rw [he]
    have hcalled : (t.lower E).string E (t.lower E).name = [104, BitVec.ofNat 8 (49 + d)] := hname.symm.trans hd
    have hbyte : (t.lower E).byte E ((t.lower E).name + (1 : Nat)) = BitVec.ofNat 8 (49 + d) :=
      string_byte (by rw [hcalled]; rfl)
    have hno : ∀ g ∈ headings, ([104, BitVec.ofNat 8 (49 + d)] : List Byte) ≠ cstring g.1 := by
      intro g hg
      rw [← hd, hname]
      exact (ht.heading g hg).1
    have hbig : ∀ d : Fin 6, (∀ g ∈ headings, ([104, BitVec.ofNat 8 (49 + d)] : List Byte) ≠ cstring g.1) →
        (BitVec.ofNat 8 (49 + d)).toNat ≠ 49 ∧ (BitVec.ofNat 8 (49 + d)).toNat ≠ 50 ∧
          (BitVec.ofNat 8 (49 + d)).toNat ≠ 51 := by decide
    exact small_heading (hbig d hno) w (t.lower E) hbyte
  · rw [he]
    have hcalled : (t.lower E).string E (t.lower E).name = [47, 104, BitVec.ofNat 8 (49 + d)] := hname.symm.trans hd
    have hbyte : (t.lower E).byte E ((t.lower E).name + (2 : Nat)) = BitVec.ofNat 8 (49 + d) :=
      string_byte (by rw [hcalled]; rfl)
    have hbyte : (t.lower E).byte E ((t.lower E).name + 2) = BitVec.ofNat 8 (49 + d) := hbyte
    have hend : ∀ g ∈ headings, ([47, 104, BitVec.ofNat 8 (49 + d)] : List Byte) = 47 :: cstring g.1 →
        ∀ c ∈ g.2, w.styles.counter c = 0 := by
      intro g hg heq c hcg
      have hcount := (ht.heading g hg).2 (hname.symm.trans (hd.trans heq)) c hcg
      rw [h.counters, hcount]
      rfl
    refine heading_end w (t.lower E) rfl ?_ ?_ ?_
    · intro hlev
      rw [hbyte] at hlev
      have hd0 : ∀ d : Fin 6, (BitVec.ofNat 8 (49 + d)).toNat = 49 → d = 0 := by decide
      have hoff := hend ("h1", [.bold, .underline]) (by decide) (by rw [hd0 d hlev]; decide)
      exact ⟨hoff .bold (by decide), hoff .underline (by decide)⟩
    · intro hlev
      rw [hbyte] at hlev
      have hd0 : ∀ d : Fin 6, (BitVec.ofNat 8 (49 + d)).toNat = 50 → d = 1 := by decide
      exact hend ("h2", [.bold]) (by decide) (by rw [hd0 d hlev]; decide) .bold (by decide)
    · intro hlev
      rw [hbyte] at hlev
      have hd0 : ∀ d : Fin 6, (BitVec.ofNat 8 (49 + d)).toNat = 51 → d = 2 := by decide
      exact hend ("h3", [.italic]) (by decide) (by rw [hd0 d hlev]; decide) .italic (by decide)
  · rw [he]
    exact a_styles E w (t.lower E) h.href (ht.anchor (hname.symm.trans ha))
  · rw [he]
    exact not_a_styles w h.href

def Named (opened : Opened) : Prop := ∀ e ∈ opened, kind e.1 = some e.2

theorem nest_named {opened opened' : Opened} (h : Named opened) (hn : nest opened name = some opened') :
    Named opened' := by
  unfold nest at hn
  cases hk : kind name with
  | some k =>
    rw [hk] at hn
    obtain rfl := Option.some.inj hn
    intro e he
    rcases mem_cons.1 he with rfl | he
    · exact hk
    · exact h e he
  | none =>
    rw [hk] at hn
    dsimp only at hn
    split_ifs at hn with hc
    · cases opened with
      | nil => cases hn
      | cons e rest =>
        dsimp only at hn
        split_ifs at hn
        obtain rfl := Option.some.inj hn
        exact fun e he => h e (mem_cons_of_mem _ he)
    · obtain rfl := Option.some.inj hn
      exact h

theorem call_agrees {opened opened' : Opened} (h : Agrees opened w.styles) (hnames : Named opened) (hi : t.i ≤ ARGMAX)
    (ht : Fits E opened t) (hn : nest opened (t.called E) = some opened') :
    Agrees opened' (parse_tag_call E w t).styles := by
  have hread : ((t.lower E).readString E (t.lowered E w) t.name).2.styles = w.styles :=
    (read_styles (t.lower E) (t.lowered E w) t.name _).trans (lowered_styles E t w)
  have hname : ((t.lower E).readString E (t.lowered E w) t.name).1 = t.called E := rfl
  unfold parse_tag_call
  rw [if_pos hi]
  dsimp only
  have hlow : (t.lower E).name = t.name := rfl
  rw [hlow, hname]
  generalize ((t.lower E).readString E (t.lowered E w) t.name).2 = u at hread ⊢
  rw [← hread] at h
  unfold nest at hn
  cases hk : kind (t.called E) with
  | some k =>
    rw [hk] at hn
    obtain rfl := Option.some.inj hn
    rw [opening_found hk]
    exact opening_agrees h _ (ht.room k hk) (fun e => ht.depth (by rw [hk, e])) (t.lower E)
  | none =>
    rw [hk] at hn
    dsimp only at hn
    by_cases hc : closes (t.called E)
    · rw [if_pos hc] at hn
      cases opened with
      | nil => cases hn
      | cons e rest =>
        obtain ⟨n, k⟩ := e
        dsimp only at hn
        split_ifs at hn with he
        obtain rfl := Option.some.inj hn
        have hname : t.called E = 47 :: n := by
          rw [he]
          exact (cons_head?_tail hc.1).symm
        have hkind : kind n = some k := hnames (n, k) mem_cons_self
        rw [hname, closing_found hkind (by rw [← hname]; exact ht.dir)]
        exact closing_agrees h (t.lower E)
    · rw [if_neg hc] at hn
      obtain rfl := Option.some.inj hn
      cases hf : lookup_tag_fn (t.called E) with
      | none => exact h
      | some f =>
        dsimp only
        rw [single_agrees h ht hf hk hc]
        exact h

theorem border_mode (p : Parser) : p.border.mode = p.mode := by
  unfold Parser.border
  split_ifs <;> rfl

theorem token_counted (p : Parser) (c : Int) (h : p.mode = .text) : (p.token c).mode.Counted := by
  have hborder : ∀ q : Parser, q.mode = .text → q.border.mode.Counted := by
    intro q hq
    rw [border_mode, hq]
    trivial
  unfold Parser.token
  dsimp only
  split_ifs
  · trivial
  · exact hborder _ h
  · exact hborder _ h
  · refine hborder _ ?_
    unfold Parser.canBreak
    split_ifs <;> exact h
  · exact hborder _ h

theorem html_token_counted (E : HtmlEnv) (p : Parser) (h : p.mode = .text) : (parse_html_token E p).mode.Counted := by
  unfold parse_html_token
  dsimp only
  split_ifs
  · exact (by decide : (0 : Int) ≤ 10)
  · exact token_counted _ _ h
  · trivial

theorem parse_tab_counted (p : Parser) (h : p.mode = .tab) : (parse_tab p).mode.Counted := by
  unfold parse_tab
  dsimp only
  split_ifs
  · rw [h]
    trivial
  · rw [border_mode]
    trivial

theorem step_agrees {opened opened' : Opened} (h : Agrees opened p.w.styles) (hnames : Named opened) (hm : p.mode.Counted)
    (hok : Fitting E opened p) (hn : nestStep E opened p = some opened') :
    Agrees opened' (p.step E).w.styles ∧ Named opened' ∧ (p.step E).mode.Counted := by
  unfold nestStep at hn
  unfold Parser.step
  cases hmode : p.mode with
  | text =>
    rw [hmode] at hn
    obtain rfl := Option.some.inj hn
    dsimp only
    rw [html_token_styles]
    exact ⟨h, hnames, html_token_counted E p hmode⟩
  | tab =>
    rw [hmode] at hn
    obtain rfl := Option.some.inj hn
    dsimp only
    rw [parse_tab_styles]
    exact ⟨h, hnames, parse_tab_counted p hmode⟩
  | arg t =>
    rw [hmode] at hn hm
    obtain rfl := Option.some.inj hn
    have hs := tag_arg_styles E p.w t
    have hc := tag_arg_counted E p.w hm
    dsimp only
    generalize parse_tag_arg E p.w t = r at hs hc ⊢
    obtain ⟨mode, u⟩ := r
    have hs : u.styles = p.w.styles := hs
    rw [← hs] at h
    cases mode with
    | text =>
      dsimp only
      rw [border_styles]
      exact ⟨h, hnames, by rw [border_mode]; trivial⟩
    | tab => exact ⟨h, hnames, hc⟩
    | arg t => exact ⟨h, hnames, hc⟩
    | call t => exact ⟨h, hnames, hc⟩
    | done => exact ⟨h, hnames, hc⟩
  | call t =>
    rw [hmode] at hn hm
    dsimp only
    rw [border_styles]
    exact ⟨call_agrees h hnames hm (hok t hmode) hn, nest_named hnames hn, by rw [border_mode]; trivial⟩
  | done =>
    rw [hmode] at hn
    obtain rfl := Option.some.inj hn
    refine ⟨h, hnames, ?_⟩
    dsimp only
    rw [hmode]
    trivial

variable {start : Parser}

theorem nested_agrees (h : Nested E (Fitting E) start opened p)
    (h₀ : Agrees [] start.w.styles) (hm : start.mode.Counted) :
    Agrees opened p.w.styles ∧ Named opened ∧ p.mode.Counted := by
  induction h with
  | start => exact ⟨h₀, fun e he => absurd he not_mem_nil, hm⟩
  | step _ hok hn ih => exact step_agrees ih.1 ih.2.1 ih.2.2 hok hn

theorem start_agrees (E : HtmlEnv) (w : html_widget_t) (html_code : List Byte) :
    Agrees [] (Parser.start E w html_code).w.styles :=
  ⟨fun c => (by cases c <;> rfl), fun _ => Nat.zero_le _, rfl, (by decide), rfl, rfl⟩

theorem Agrees.balanced {s s₀ : Styles} (h : Agrees opened s) (h₀ : Agrees [] s₀) :
    Styles.Balanced s₀ opened s := by
  refine ⟨fun c => ?_, ?_⟩
  · rw [h.counters c, Int.natCast_ne_zero, ← Nat.pos_iff_ne_zero]
    exact countP_pos_iff
  · rintro rfl
    refine ⟨?_, h.lists.trans h₀.lists.symm, fun c => (h.counters c).trans (h₀.counters c).symm⟩
    have hi : s.indent = 0 := h.nests
    have hi₀ : s₀.indent = 0 := h₀.nests
    rw [hi, hi₀]

/-- Up to any point of a text whose nested tags fit, the styles are those of the open tags. -/
theorem nested_balanced {w : html_widget_t} {html_code : List Byte} {opened : Opened} {p : Parser}
    (h : Nested E (Fitting E) (Parser.start E w html_code) opened p) :
    Styles.Balanced (Parser.start E w html_code).w.styles opened p.w.styles :=
  (nested_agrees h (start_agrees E w html_code) trivial).1.balanced (start_agrees E w html_code)

instance {P : Style → Prop} [DecidablePred P] : Decidable (∀ c, P c) :=
  decidable_of_iff (P .bold ∧ P .italic ∧ P .underline ∧ P .tt ∧ P .preformat)
    ⟨fun ⟨h1, h2, h3, h4, h5⟩ c => by cases c <;> assumption, fun h => ⟨h _, h _, h _, h _, h _⟩⟩

theorem fits_iff (E : HtmlEnv) (opened : Opened) (t : Tag) : Fits E opened t ↔
    (∀ k ∈ kind (t.called E), ∀ c, k.turns c = true → openStyles opened c < 255) ∧
      (kind (t.called E) = some .list → openLists opened + 1 < LIST_STACK_SZ) ∧ t.called E ≠ cstring "/dir" ∧
      (∀ e ∈ headings, t.called E ≠ cstring e.1 ∧
        (t.called E = 47 :: cstring e.1 → ∀ c ∈ e.2, openStyles opened c = 0)) ∧
      (t.called E = cstring "a" → t.href E = false) :=
  ⟨fun h => ⟨h.room, h.depth, h.dir, h.heading, h.anchor⟩, fun ⟨h1, h2, h3, h4, h5⟩ => ⟨h1, h2, h3, h4, h5⟩⟩

instance (E : HtmlEnv) (opened : Opened) (t : Tag) : Decidable (Fits E opened t) := decidable_of_iff' _ (fits_iff E opened t)

def Mode.calling : Mode → Option Tag
  | .call t => some t
  | _ => none

theorem fitting_iff (E : HtmlEnv) (opened : Opened) (p : Parser) :
    Fitting E opened p ↔ ∀ t ∈ p.mode.calling, Fits E opened t := by
  unfold Fitting
  cases p.mode with
  | call u =>
    constructor
    · intro h t ht
      cases ht
      exact h u rfl
    · intro h t ht
      cases ht
      exact h u rfl
  | text => exact iff_of_true (fun _ ht => by cases ht) (fun _ ht => by cases ht)
  | tab => exact iff_of_true (fun _ ht => by cases ht) (fun _ ht => by cases ht)
  | arg u => exact iff_of_true (fun _ ht => by cases ht) (fun _ ht => by cases ht)
  | done => exact iff_of_true (fun _ ht => by cases ht) (fun _ ht => by cases ht)

instance (E : HtmlEnv) (opened : Opened) (p : Parser) : Decidable (Fitting E opened p) :=
  decidable_of_iff' _ (fitting_iff E opened p)

def nestRun (E : HtmlEnv) (start : Parser) : Nat → Option Opened
  | 0 => some []
  | n + 1 => (nestRun E start n).bind fun opened => nestStep E opened ((Parser.step E)^[n] start)

theorem nestRun_nested {ok : Opened → Parser → Prop} {n : Nat}
    (hok : ∀ k < n, ∀ o ∈ nestRun E start k, ok o ((Parser.step E)^[k] start)) (h : nestRun E start n = some opened) :
    Nested E ok start opened ((Parser.step E)^[n] start) := by
  induction n generalizing opened with
  | zero =>
    obtain rfl := Option.some.inj h
    exact .start
  | succ n ih =>
    obtain ⟨o, ho, hn⟩ := Option.bind_eq_some_iff.1 h
    rw [iterate_succ_apply']
    exact .step (ih (fun k hk => hok k (by omega)) ho) (hok n (by omega) o ho) hn

theorem nested_balanced_list : Styles.Balanced (Parser.start plainEnv plainWidget (cstring "<i><ul></ul></i>")).w.styles []
    ((Parser.step plainEnv)^[12] (Parser.start plainEnv plainWidget (cstring "<i><ul></ul></i>"))).w.styles :=
  nested_balanced (nestRun_nested (by decide +kernel) (by decide +kernel))

/-- The function of `/dir` is not found: the list stays on the stack. -/
theorem dir_not_closed : ¬ ∀ (E : HtmlEnv) (w : html_widget_t) (html_code : List Byte) (opened : Opened) (p : Parser),
    Nested E (fun _ _ => True) (Parser.start E w html_code) opened p →
      Styles.Balanced (Parser.start E w html_code).w.styles opened p.w.styles := by
  intro h
  have hrun := h plainEnv plainWidget (cstring "<dir></dir>") [] ((Parser.step plainEnv)^[7] _)
    (nestRun_nested (fun _ _ _ _ => trivial) (by decide +kernel))
  exact absurd (hrun.back rfl).2.1 (by decide +kernel)

end WWindowSystem
