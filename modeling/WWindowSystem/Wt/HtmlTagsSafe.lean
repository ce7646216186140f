import WWindowSystem.Wt.HtmlScan

namespace WWindowSystem

open List

structure Tag.Held (t : Tag) : Prop where
  zero : t.buf = [] ∨ t.buf.getLast? = some 0
  room : (t.buf.length : Int) ≤ ARGBUF
  count : 0 ≤ t.i ∧ t.i ≤ ARGMAX ∧ t.i ≤ t.args.length
  args : ∀ (k : Nat) (a : arg_t), t.args[k]? = some a → (k : Int) < t.i → 0 ≤ a.arg ∧ a.arg < t.buf.length
  vals : ∀ (k : Nat) (a : arg_t), t.args[k]? = some a → (k : Int) < t.i → ∀ v, a.val = some v →
    0 ≤ v ∧ v ≤ t.buf.length ∧ ((k : Int) + 1 < t.i → v < t.buf.length)

/-- The value of the argument is in the buffer: there is something between its `=` and the end of the tag. -/
def Tag.Given (t : Tag) (a : arg_t) : Prop := ∀ v, a.val = some v → v < t.buf.length

variable {E : HtmlEnv} {w w' : html_widget_t} {t : Tag}

def Stays (w w' : html_widget_t) : Prop := w'.core.Good ∧ w'.cp = w.cp

theorem Stays.refl (h : w.core.Good) : Stays w w := ⟨h, rfl⟩

variable {w'' : html_widget_t}

theorem Stays.trans (h : Stays w w') (h' : Stays w' w'') : Stays w w'' :=
  ⟨h'.1, h'.2.trans h.2⟩

variable {u : html_widget_t}

theorem Stays.of_core (h : Stays w w') (hu : u.core = w'.core) : Stays w u := by
  refine ⟨?_, ?_⟩
  · rw [hu]
    exact h.1
  · have hcp : u.core.cp = w'.core.cp := by rw [hu]
    exact hcp.trans h.2

variable {i : Int}

theorem read_stays (h : w.core.Good) (hroom : (t.buf.length : Int) ≤ ARGBUF) {n : Nat} (h0 : 0 ≤ i) (hn : i + n ≤ t.buf.length) :
    Stays w (t.read w i n) := by
  have hs := span_good h h0 (le_trans hn hroom)
  have hnone : ((List.range n).map fun k : Nat => i + (k : Int)).filter (fun k => (t.buf.length : Int) ≤ k) = [] := by
    rw [filter_eq_nil_iff]
    intro k hk
    obtain ⟨j, hj, rfl⟩ := mem_map.mp hk
    rw [mem_range] at hj
    rw [decide_eq_true_eq]
    omega
  refine ⟨⟨hs.inside, ?_, hs.nonzero, hs.ends, hs.wide, hs.lsp, hs.ahead⟩, rfl⟩
  show ((List.range n).map fun k : Nat => i + (k : Int)).filter (fun k => (t.buf.length : Int) ≤ k) ++ w.unwritten = []
  rw [hnone, nil_append]
  exact h.written

theorem last_zero (hz : t.buf.getLast? = some 0) : t.byte E (t.buf.length - 1) = 0 := by
  have hpos : 0 < t.buf.length := by
    apply length_pos_iff.mpr
    intro hnil
    rw [hnil] at hz
    cases hz
  unfold Tag.byte
  rw [if_pos (by omega)]
  rw [getLast?_eq_getElem?] at hz
  have hidx : ((t.buf.length : Int) - 1).toNat = t.buf.length - 1 := by omega
  rw [hidx, getD_eq_getElem?_getD, hz]
  rfl

theorem string_ends (ht : t.Held) (h0 : 0 ≤ i) (hi : i < t.buf.length) :
    i + t.stringLength E i + 1 ≤ t.buf.length := by
  have hpos : 0 < t.buf.length := by omega
  have hlast : t.buf.getLast? = some 0 := by
    rcases ht.zero with hnil | hz
    · rw [hnil] at hpos
      exact absurd hpos (lt_irrefl 0)
    · exact hz
  have hz := last_zero (E := E) hlast
  have hle := stringLength_le hz (ARGBUF - i).toNat (i := i) (by omega)
  unfold Tag.stringLength
  omega

theorem readString_stays (h : w.core.Good) (ht : t.Held) (h0 : 0 ≤ i) (hi : i < t.buf.length) :
    Stays w (t.readString E w i).2 := by
  have hend := string_ends (E := E) ht h0 hi
  apply read_stays h ht.room h0
  push_cast
  omega

@[simp] theorem dolinebreak_core (w : html_widget_t) : (dolinebreak w).core = w.core := rfl

@[simp] theorem down_core (w : html_widget_t) (dy : Int) : (w.down dy).core = w.core := rfl

@[simp] theorem setfont_core (w : html_widget_t) : (setfont w).core = w.core := rfl

@[simp] theorem setList_core (w : html_widget_t) (l : liststack_t) : (w.setList l).core = w.core := rfl

@[simp] theorem underline_on_core (w : html_widget_t) : (underline_on w).core = w.core := rfl

theorem ite_core {c : Prop} [Decidable c] {u v : html_widget_t} (hu : u.core = w.core) (hv : v.core = w.core) :
    (if c then u else v).core = w.core := by
  split_ifs
  · exact hu
  · exact hv

@[simp] theorem freshline_core (w : html_widget_t) : (freshline w).core = w.core := ite_core rfl rfl

@[simp] theorem hresize_core (w : html_widget_t) (area_w : Int) : (html_hresize w area_w).core = w.core := ite_core rfl rfl

@[simp] theorem bold_on_core (w : html_widget_t) : (bold_on w).core = w.core := ite_core rfl rfl

@[simp] theorem bold_off_core (w : html_widget_t) : (bold_off w).core = w.core := ite_core (ite_core rfl rfl) rfl

@[simp] theorem italic_on_core (w : html_widget_t) : (italic_on w).core = w.core := ite_core rfl rfl

@[simp] theorem italic_off_core (w : html_widget_t) : (italic_off w).core = w.core := ite_core (ite_core rfl rfl) rfl

@[simp] theorem underline_off_core (w : html_widget_t) : (underline_off w).core = w.core := ite_core rfl rfl

@[simp] theorem img_place_core (w : html_widget_t) (wd : Int) : (img_place w wd).core = w.core := by
  have hbreak : (if w.m.x + wd + 2 > w.area_x + w.area_w ∧ w.m.x > w.area_x + w.m.indent then dolinebreak w
      else w).core = w.core := ite_core rfl rfl
  unfold img_place
  dsimp only
  exact ite_core ((hresize_core _ _).trans hbreak) hbreak

theorem touch_stays (h : Stays w w') (size i : Int) (h0 : 0 ≤ i) (hi : i < size) : Stays w (w'.touch size i) :=
  ⟨touch_good h.1 h0 hi, h.2⟩

def Tag.last (t : Tag) : Option arg_t := t.rest.getLast?

variable {a : arg_t}

theorem rest_arg (ht : t.Held) (ha : a ∈ t.rest) :
    ∃ k : Nat, t.args[k]? = some a ∧ (k : Int) < t.i ∧ ((k : Int) + 1 < t.i ∨ t.last = some a) := by
  unfold Tag.rest at ha
  obtain ⟨j, hj⟩ := mem_iff_getElem?.mp ha
  have hlen := ht.count
  rw [getElem?_drop, getElem?_take] at hj
  split_ifs at hj with hlt
  refine ⟨1 + j, hj, by omega, ?_⟩
  by_cases hlast : ((1 + j : Nat) : Int) + 1 < t.i
  · exact Or.inl hlast
  · right
    unfold Tag.last Tag.rest
    have hidx : t.i.toNat - 1 = 1 + j := by omega
    rw [getLast?_drop, if_neg, getLast?_take, if_neg (by omega), hidx, hj]
    · rfl
    · rw [length_take]
      omega

theorem rest_name (ht : t.Held) (ha : a ∈ t.rest) : 0 ≤ a.arg ∧ a.arg < t.buf.length := by
  obtain ⟨k, hk, hlt, -⟩ := rest_arg ht ha
  exact ht.args k a hk hlt

variable {v : Int}

theorem rest_val (ht : t.Held) (ha : a ∈ t.rest) (hlast : t.last = some a → t.Given a)
    (hv : a.val = some v) : 0 ≤ v ∧ v < t.buf.length := by
  obtain ⟨k, hk, hlt, hnext | hl⟩ := rest_arg ht ha
  · obtain ⟨h0, -, hin⟩ := ht.vals k a hk hlt v hv
    exact ⟨h0, hin hnext⟩
  · exact ⟨(ht.vals k a hk hlt v hv).1, hlast hl v hv⟩

theorem fold_stays {f : html_widget_t → arg_t → html_widget_t} {l : List arg_t}
    (hf : ∀ a ∈ l, ∀ u : html_widget_t, u.core.Good → Stays u (f u a)) (h : w.core.Good) : Stays w (l.foldl f w) := by
  induction l generalizing w with
  | nil => exact Stays.refl h
  | cons a l ih =>
    have ha := hf a mem_cons_self w h
    exact ha.trans (ih (fun b hb => hf b (mem_cons_of_mem a hb)) ha.1)

theorem readNames_stays (h : w.core.Good) (ht : t.Held) : Stays w (t.readNames E w) := by
  apply fold_stays _ h
  intro a ha u hu
  obtain ⟨h0, hi⟩ := rest_name ht ha
  exact readString_stays hu ht h0 hi

theorem readVal_stays (h : w.core.Good) (ht : t.Held)
    (hv : ∀ v, a.val = some v → 0 ≤ v ∧ v < t.buf.length) : Stays w (t.readVal E w a) := by
  unfold Tag.readVal
  cases hval : a.val with
  | none => exact Stays.refl h
  | some v =>
    obtain ⟨h0, hi⟩ := hv v hval
    exact readString_stays h ht h0 hi

/-- What the function of a tag needs: a list that it opens or closes is on the stack, and the last value is
there when it is used. -/
def TagFn.Ok (E : HtmlEnv) (w : html_widget_t) (t : Tag) : TagFn → Prop
  | .tag_ul => w.m.lsp + 1 < 32768
  | .tag_not_ul => w.m.lsp < LIST_STACK_SZ
  | .tag_textarea => ∀ a, t.last = some a → t.Given a
  | .tag_wfont => ∀ a, t.last = some a → t.isArg E a "teletype" ∨ t.isArg E a "normal" → t.Given a
  | .tag_a => ∀ a, t.last = some a → t.isArg E a "name" ∨ t.isArg E a "href" → t.Given a
  | .tag_img => ∀ a, t.last = some a → ∀ query, E.img_query_cb = some query →
    (t.isArg E a "src" → t.Given a) ∧ (t.isArg E a "alt" → ∀ src, (img_args E t).src = some src →
      ∀ size, query (t.string E src) = some size → alt_fits (img_place w size.1) size.2 → t.Given a)
  | _ => True

variable (r : TextArea)

@[simp] theorem setX_core (w : html_widget_t) : (r.setX w).core = w.core := by
  unfold TextArea.setX
  cases r.ax <;> rfl

@[simp] theorem setY_core (w : html_widget_t) : (r.setY w).core = w.core := by
  unfold TextArea.setY
  cases r.ay <;> rfl

@[simp] theorem setWidth_core (w : html_widget_t) : (r.setWidth w).core = w.core := by
  unfold TextArea.setWidth
  cases r.aw <;> rfl

theorem textarea_stays (h : w.core.Good) (ht : t.Held) (hok : TagFn.Ok E w t .tag_textarea) :
    Stays w (tag_textarea E w t) := by
  have hvals : Stays w (t.rest.foldl (t.readVal E) w) := by
    apply fold_stays _ h
    intro a ha u hu
    exact readVal_stays hu ht fun v hv => rest_val ht ha (hok a) hv
  have hread := hvals.trans (readNames_stays (E := E) hvals.1 ht)
  unfold tag_textarea
  dsimp only
  generalize t.readNames E (t.rest.foldl (t.readVal E) w) = u at hread ⊢
  generalize t.rest.foldl (textarea_arg E t) ⟨none, none, none⟩ = r
  apply hread.of_core
  apply ite_core _ rfl
  exact (setWidth_core r _).trans ((setY_core r _).trans (setX_core r u))

theorem loaded_good (h : u.core.Good) {fonts : Int → HtmlFont}
    (hf : ∀ i c, 0 < (fonts i).widths c) : ({ u with fonts } : html_widget_t).core.Good :=
  ⟨h.inside, h.written, h.nonzero, h.ends, hf, h.lsp, h.ahead⟩

theorem wfont_arg_stays (hE : ∀ s fp, E.loadfonts s = some fp → ∀ i c, 0 < (fp i).widths c) (ht : t.Held)
    (ha : a ∈ t.rest)
    (hok : t.last = some a → t.isArg E a "teletype" ∨ t.isArg E a "normal" → t.Given a) (h : w.core.Good) :
    Stays w (wfont_arg E t w a) := by
  obtain ⟨h0, hi⟩ := rest_name ht ha
  have hname := readString_stays (E := E) h ht h0 hi
  unfold wfont_arg
  dsimp only
  by_cases harg : t.isArg E a "teletype" ∨ t.isArg E a "normal"
  · rw [if_pos harg]
    have hval := hname.trans (readVal_stays (E := E) hname.1 ht fun v hv => rest_val ht ha (fun hl => hok hl harg) hv)
    generalize t.readVal E (t.readString E w a.arg).2 a = u at hval ⊢
    generalize (if t.isArg E a "teletype" then FONT_C else FONT_N) = j
    generalize (a.val.map (t.string E)).getD (if j = FONT_C then E.html_fixed else E.html_normal) = fname
    cases hload : E.loadfonts fname with
    | none => exact hval
    | some fp =>
      refine ⟨loaded_good hval.1 fun i c => ?_, hval.2⟩
      split_ifs
      · exact hE fname fp hload _ c
      · exact hval.1.wide i c
  · rw [if_neg harg]
    exact hname

theorem wfont_stays (hE : ∀ s fp, E.loadfonts s = some fp → ∀ i c, 0 < (fp i).widths c) (h : w.core.Good)
    (ht : t.Held) (hok : TagFn.Ok E w t .tag_wfont) : Stays w (tag_wfont E w t) := by
  have hfold : Stays w (t.rest.foldl (wfont_arg E t) w) := by
    apply fold_stays _ h
    exact fun a ha u hu => wfont_arg_stays hE ht ha (hok a) hu
  unfold tag_wfont
  dsimp only
  generalize t.rest.foldl (wfont_arg E t) w = u at hfold ⊢
  apply hfold.of_core
  split_ifs <;> rfl

variable (l : List arg_t)

theorem fold_src (r : ImgArgs) :
    (l.foldl (img_arg E t) r).src = some v → r.src = some v ∨ ∃ a ∈ l, t.isArg E a "src" ∧ a.val = some v := by
  induction l generalizing r with
  | nil => exact fun h => Or.inl h
  | cons a l ih =>
    intro h
    rcases ih (img_arg E t r a) h with hr | ⟨b, hb, harg⟩
    · unfold img_arg at hr
      split_ifs at hr with hsrc halt
      · exact Or.inr ⟨a, mem_cons_self, hsrc, hr⟩
      · exact Or.inl hr
      · exact Or.inl hr
    · exact Or.inr ⟨b, mem_cons_of_mem a hb, harg⟩

theorem fold_alt (r : ImgArgs) :
    (l.foldl (img_arg E t) r).alt = some v → r.alt = some v ∨ ∃ a ∈ l, t.isArg E a "alt" ∧ a.val = some v := by
  induction l generalizing r with
  | nil => exact fun h => Or.inl h
  | cons a l ih =>
    intro h
    rcases ih (img_arg E t r a) h with hr | ⟨b, hb, harg⟩
    · unfold img_arg at hr
      split_ifs at hr with hsrc halt
      · exact Or.inl hr
      · exact Or.inr ⟨a, mem_cons_self, halt, hr⟩
      · exact Or.inl hr
    · exact Or.inr ⟨b, mem_cons_of_mem a hb, harg⟩

theorem fold_url (r : AnchorArgs) :
    (l.foldl (a_arg E t) r).url = some v →
      r.url = some v ∨ ∃ a ∈ l, (t.isArg E a "name" ∨ t.isArg E a "href") ∧ a.val = some v := by
  induction l generalizing r with
  | nil => exact fun h => Or.inl h
  | cons a l ih =>
    intro h
    rcases ih (a_arg E t r a) h with hr | ⟨b, hb, harg⟩
    · unfold a_arg at hr
      split_ifs at hr with hname hhref
      · exact Or.inr ⟨a, mem_cons_self, Or.inl hname, hr⟩
      · exact Or.inr ⟨a, mem_cons_self, Or.inr hhref, hr⟩
      · exact Or.inl hr
    · exact Or.inr ⟨b, mem_cons_of_mem a hb, harg⟩

theorem a_stays (h : w.core.Good) (ht : t.Held) (hok : TagFn.Ok E w t .tag_a) : Stays w (tag_a E w t) := by
  have hnames := readNames_stays (E := E) h ht
  have hurl {v : Int} := fold_url (E := E) (t := t) t.rest ⟨none, false⟩ (v := v)
  unfold tag_a
  dsimp only
  generalize t.readNames E w = u at hnames ⊢
  generalize t.rest.foldl (a_arg E t) ⟨none, false⟩ = r at hurl ⊢
  obtain ⟨url, is_href⟩ := r
  cases url with
  | none => exact hnames
  | some v =>
    rcases hurl rfl with hnone | ⟨a, ha, harg, hv⟩
    · exact absurd hnone (by simp)
    obtain ⟨h0, hi⟩ := rest_val ht ha (fun hl => hok a hl harg) hv
    have hread := hnames.trans (readString_stays (E := E) hnames.1 ht h0 hi)
    apply hread.of_core
    exact ite_core rfl rfl

def Logs (w w' : html_widget_t) : Prop := ∃ touched unwritten, w' = { w with touched, unwritten }

theorem Logs.trans (h : Logs w w') (h' : Logs w' w'') : Logs w w'' := by
  obtain ⟨_, _, rfl⟩ := h
  obtain ⟨touched, unwritten, rfl⟩ := h'
  exact ⟨touched, unwritten, rfl⟩

theorem readString_logs (w : html_widget_t) (t : Tag) (i : Int) : Logs w (t.readString E w i).2 := ⟨_, _, rfl⟩

theorem readNames_logs (w : html_widget_t) (t : Tag) : Logs w (t.readNames E w) := by
  unfold Tag.readNames
  generalize t.rest = l
  induction l generalizing w with
  | nil => exact ⟨w.touched, w.unwritten, rfl⟩
  | cons a l ih => exact (readString_logs w t a.arg).trans (ih _)

theorem alt_fits_logs (h : Logs w w') (wd ht : Int) : alt_fits (img_place w' wd) ht ↔ alt_fits (img_place w wd) ht := by
  obtain ⟨touched, unwritten, rfl⟩ := h
  unfold img_place html_hresize
  dsimp only
  split_ifs <;> rfl

theorem img_shown_stays (h : w.core.Good) (ht : t.Held) {wd hgt : Int}
    (halt : alt_fits w hgt → ∀ v, (img_args E t).alt = some v → 0 ≤ v ∧ v < t.buf.length) :
    Stays w (img_shown E w t wd hgt) := by
  have hread : Stays w (img_alt E w t hgt) := by
    unfold img_alt
    cases hval : (img_args E t).alt with
    | none => exact Stays.refl h
    | some v =>
      dsimp only
      by_cases hf : alt_fits w hgt
      · rw [if_pos hf]
        obtain ⟨h0, hi⟩ := halt hf v hval
        exact readString_stays h ht h0 hi
      · rw [if_neg hf]
        exact Stays.refl h
  unfold img_shown
  dsimp only
  generalize img_alt E w t hgt = u at hread ⊢
  exact hread.of_core (ite_core rfl rfl)

theorem img_stays (h : w.core.Good) (ht : t.Held) (hok : TagFn.Ok E w t .tag_img) : Stays w (tag_img E w t) := by
  unfold tag_img
  cases hq : E.img_query_cb with
  | none => exact Stays.refl h
  | some query =>
    dsimp only
    have hnames := readNames_stays (E := E) h ht
    have hlog := readNames_logs (E := E) w t
    generalize t.readNames E w = u at hnames hlog ⊢
    cases hsrc : (img_args E t).src with
    | none => exact hnames
    | some src =>
      dsimp only
      rcases fold_src t.rest ⟨none, none⟩ hsrc with hnone | ⟨a, ha, harg, hv⟩
      · exact absurd hnone (by simp)
      obtain ⟨h0, hi⟩ := rest_val ht ha (fun hl => (hok a hl query hq).1 harg) hv
      have hread := hnames.trans (readString_stays (E := E) hnames.1 ht h0 hi)
      have hlog := hlog.trans (readString_logs (E := E) u t src)
      generalize (t.readString E u src).2 = u' at hread hlog ⊢
      cases hsize : query (t.string E src) with
      | none => exact hread
      | some size =>
        obtain ⟨wd, hgt⟩ := size
        have hplace := hread.of_core (img_place_core u' wd)
        refine hplace.trans (img_shown_stays hplace.1 ht fun hf v halt => ?_)
        rcases fold_alt t.rest ⟨none, none⟩ halt with hnone | ⟨b, hb, harg', hv'⟩
        · exact absurd hnone (by simp)
        rw [alt_fits_logs hlog] at hf
        exact rest_val ht hb (fun hl => (hok b hl query hq).2 harg' src hsrc (wd, hgt) hsize hf) hv'

theorem lsp_stays (h : Stays w w') {lsp : Int} (h0 : 0 ≤ lsp) : Stays w { w' with m := { w'.m with lsp } } :=
  ⟨⟨h.1.inside, h.1.written, h.1.nonzero, h.1.ends, h.1.wide, h0, h.1.ahead⟩, h.2⟩

theorem ul_stays (h : w.core.Good) (ht : t.Held) (hname : 0 ≤ t.name ∧ t.name < t.buf.length)
    (hok : TagFn.Ok E w t .tag_ul) : Stays w (tag_ul E w t) := by
  have hlsp : 0 ≤ w.m.lsp := h.lsp
  have hok : w.m.lsp + 1 < 32768 := hok
  have hshort : short (w.m.lsp + 1) = w.m.lsp + 1 := short_of_range (by omega) hok
  have hup : Stays w { w with m := { w.m with lsp := w.m.lsp + 1 } } := lsp_stays (Stays.refl h) (by omega)
  unfold tag_ul
  dsimp only
  rw [hshort]
  by_cases hfull : w.m.lsp + 1 ≥ LIST_STACK_SZ
  · rw [if_pos hfull]
    exact hup
  rw [if_neg hfull]
  have htouch : Stays w (html_widget_t.touch { w with m := { w.m with lsp := w.m.lsp + 1 } } LIST_STACK_SZ (w.m.lsp + 1)) :=
    touch_stays hup _ _ (by omega) (by omega)
  generalize html_widget_t.touch _ LIST_STACK_SZ (w.m.lsp + 1) = u at htouch ⊢
  have hline : Stays w ((freshline u).down (w.line_dist.tdiv 4)) :=
    htouch.of_core ((down_core _ _).trans (freshline_core u))
  generalize (freshline u).down (w.line_dist.tdiv 4) = u' at hline ⊢
  have hread := hline.trans (readString_stays (E := E) hline.1 ht hname.1 hname.2)
  generalize (t.readString E u' t.name) = r at hread ⊢
  exact hread.of_core rfl

theorem entry_stays (h : w.core.Good) (hfull : w.m.lsp < LIST_STACK_SZ) : Stays w (w.touch LIST_STACK_SZ w.m.lsp) :=
  touch_stays (Stays.refl h) _ _ h.lsp hfull

theorem not_ul_stays (h : w.core.Good) (hok : TagFn.Ok E w t .tag_not_ul) : Stays w (tag_not_ul w) := by
  have htouch := entry_stays h hok
  unfold tag_not_ul
  by_cases h0 : w.m.lsp ≤ 0
  · rw [if_pos h0]
    exact Stays.refl h
  rw [if_neg h0]
  dsimp only
  have hback (u : html_widget_t) (hu : u.core = (w.touch LIST_STACK_SZ w.m.lsp).core) :
      Stays w { u with m := { u.m with lsp := u.m.lsp - 1 } } := by
    have hlsp : u.m.lsp = w.m.lsp := congrArg HtmlCore.lsp hu
    exact lsp_stays (htouch.of_core hu) (by omega)
  exact hback _ ((down_core _ _).trans ((freshline_core _).trans rfl))

theorem li_stays (h : w.core.Good) : Stays w (tag_li w) := by
  unfold tag_li
  by_cases hfull : w.m.lsp ≥ LIST_STACK_SZ
  · rw [if_pos hfull]
    exact Stays.refl h
  rw [if_neg hfull]
  exact (entry_stays h (by omega)).of_core ((setList_core _ _).trans ((down_core _ _).trans (ite_core rfl rfl)))

theorem dt_stays (h : w.core.Good) : Stays w (tag_dt w) := by
  unfold tag_dt
  by_cases hfull : w.m.lsp ≥ LIST_STACK_SZ
  · rw [if_pos hfull]
    exact Stays.refl h
  rw [if_neg hfull]
  have hline {c : Prop} [Decidable c] (u : html_widget_t) : (if c then dolinebreak u else u).core = u.core :=
    ite_core rfl rfl
  exact (entry_stays h (by omega)).of_core ((setList_core _ _).trans (hline _))

theorem dd_stays (h : w.core.Good) : Stays w (tag_dd w) := by
  unfold tag_dd
  by_cases hfull : w.m.lsp ≥ LIST_STACK_SZ
  · rw [if_pos hfull]
    exact Stays.refl h
  rw [if_neg hfull]
  have hline {c : Prop} [Decidable c] (u : html_widget_t) : (if c then dolinebreak u else u).core = u.core :=
    ite_core rfl rfl
  exact (entry_stays h (by omega)).of_core ((setList_core _ _).trans (hline _))

theorem h_stays (h : w.core.Good) (ht : t.Held) (h0 : 0 ≤ t.name) (hlen : t.name + 2 ≤ t.buf.length) :
    Stays w (tag_h E w t) := by
  have hread := read_stays h ht.room (i := t.name + 1) (n := 1) (by omega) (by push_cast; omega)
  unfold tag_h
  dsimp only
  generalize t.read w (t.name + 1) 1 = u at hread ⊢
  have hline : Stays w ((freshline u).down w.line_dist) := hread.of_core ((down_core _ _).trans (freshline_core u))
  generalize (freshline u).down w.line_dist = u' at hline ⊢
  apply hline.of_core
  apply ite_core ((bold_on_core _).trans rfl)
  apply ite_core (bold_on_core u')
  exact ite_core (italic_on_core u') rfl

theorem not_h_stays (h : w.core.Good) (ht : t.Held) (h0 : 0 ≤ t.name) (hlen : t.name + 3 ≤ t.buf.length) :
    Stays w (tag_not_h E w t) := by
  have hread := read_stays h ht.room (i := t.name + 2) (n := 1) (by omega) (by push_cast; omega)
  unfold tag_not_h
  dsimp only
  generalize t.read w (t.name + 2) 1 = u at hread ⊢
  apply hread.of_core
  refine (down_core _ _).trans ((freshline_core _).trans ?_)
  apply ite_core ((bold_off_core _).trans (underline_off_core u))
  apply ite_core (bold_off_core u)
  exact ite_core (italic_off_core u) rfl

end WWindowSystem
