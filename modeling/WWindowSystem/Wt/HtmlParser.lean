import WWindowSystem.Wt.Html

namespace WWindowSystem

def Tag.byte (E : HtmlEnv) (t : Tag) (i : Int) : Byte := if i < t.buf.length then t.buf.getD i.toNat 0 else E.junk i

def Tag.read (t : Tag) (w : html_widget_t) (i : Int) (n : Nat) : html_widget_t :=
  { w.span ARGBUF i n with
    unwritten := ((List.range n).map fun k : Nat => i + (k : Int)).filter (fun k => (t.buf.length : Int) ≤ k) ++
      w.unwritten }

def Tag.stringLength (E : HtmlEnv) (t : Tag) (i : Int) : Nat :=
  WWindowSystem.stringLength (t.byte E) (ARGBUF - i).toNat i

def Tag.string (E : HtmlEnv) (t : Tag) (i : Int) : List Byte :=
  (List.range (t.stringLength E i)).map fun k : Nat => t.byte E (i + k)

def Tag.readString (E : HtmlEnv) (t : Tag) (w : html_widget_t) (i : Int) : List Byte × html_widget_t :=
  (t.string E i, t.read w i (t.stringLength E i + 1))

def Tag.rest (t : Tag) : List arg_t := (t.args.take t.i.toNat).drop 1

def Tag.readNames (E : HtmlEnv) (t : Tag) (w : html_widget_t) : html_widget_t :=
  t.rest.foldl (fun w a => (t.readString E w a.arg).2) w

def Tag.readVal (E : HtmlEnv) (t : Tag) (w : html_widget_t) (a : arg_t) : html_widget_t :=
  match a.val with
  | none => w
  | some v => (t.readString E w v).2

def Tag.isArg (E : HtmlEnv) (t : Tag) (a : arg_t) (name : String) : Prop :=
  strcasecmp (cstring name) (t.string E a.arg) = 0

instance (E : HtmlEnv) (t : Tag) (a : arg_t) (name : String) : Decidable (t.isArg E a name) :=
  inferInstanceAs (Decidable (_ = _))

def Tag.name (t : Tag) : Int := (t.args.head?.map arg_t.arg).getD 0

def dolinebreak (w : html_widget_t) : html_widget_t :=
  { w with m := { w.m with
      x := w.area_x + w.m.indent
      y := w.m.y + max w.line_dist w.m.line_ht
      line_ht := w.line_dist } }

def freshline (w : html_widget_t) : html_widget_t := if w.m.x > w.area_x + w.m.indent then dolinebreak w else w

def html_widget_t.down (w : html_widget_t) (dy : Int) : html_widget_t := { w with m := { w.m with y := w.m.y + dy } }

def html_hresize (w : html_widget_t) (area_w : Int) : html_widget_t :=
  if w.area_x + area_w > w.w then { w with w := w.area_x + area_w + w.rborder, area_w } else w

def up (v : Int) : Int := (v + 1) % 256

def bold_on (w : html_widget_t) : html_widget_t :=
  let w := { w with m := { w.m with bold := up w.m.bold } }
  if w.m.bold = 1 then setfont w else w

def bold_off (w : html_widget_t) : html_widget_t :=
  if w.m.bold > 0 then
    let w := { w with m := { w.m with bold := w.m.bold - 1 } }
    if w.m.bold = 0 then setfont w else w
  else w

def italic_on (w : html_widget_t) : html_widget_t :=
  let w := { w with m := { w.m with italic := up w.m.italic } }
  if w.m.italic = 1 then setfont w else w

def italic_off (w : html_widget_t) : html_widget_t :=
  if w.m.italic > 0 then
    let w := { w with m := { w.m with italic := w.m.italic - 1 } }
    if w.m.italic = 0 then setfont w else w
  else w

def underline_on (w : html_widget_t) : html_widget_t := { w with m := { w.m with underline := up w.m.underline } }

def underline_off (w : html_widget_t) : html_widget_t :=
  if w.m.underline > 0 then { w with m := { w.m with underline := w.m.underline - 1 } } else w

def tag_head (w : html_widget_t) : html_widget_t := { w with m := { w.m with header := up w.m.header } }

def tag_not_head (w : html_widget_t) : html_widget_t :=
  if w.m.header ≠ 0 then { w with m := { w.m with header := w.m.header - 1 } } else w

def tag_title (w : html_widget_t) : html_widget_t :=
  if w.m.header ≠ 0 then { w with m := { w.m with title := up w.m.title } } else w

def tag_not_title (w : html_widget_t) : html_widget_t :=
  if w.m.title ≠ 0 then { w with m := { w.m with title := w.m.title - 1 } } else w

def tag_body (w : html_widget_t) : html_widget_t := { w with m := { w.m with header := 0, title := 0 } }

def tag_h (E : HtmlEnv) (w : html_widget_t) (t : Tag) : html_widget_t :=
  let level := (t.byte E (t.name + 1)).toNat
  let w := (freshline (t.read w (t.name + 1) 1)).down w.line_dist
  if level = 49 then bold_on (underline_on w)
  else if level = 50 then bold_on w
  else if level = 51 then italic_on w
  else w

def tag_not_h (E : HtmlEnv) (w : html_widget_t) (t : Tag) : html_widget_t :=
  let level := (t.byte E (t.name + 2)).toNat
  let w := t.read w (t.name + 2) 1
  let w :=
    if level = 49 then bold_off (underline_off w)
    else if level = 50 then bold_off w
    else if level = 51 then italic_off w
    else w
  (freshline w).down (w.line_dist.tdiv 2)

def tag_hr (w : html_widget_t) : html_widget_t := ((freshline w).down w.line_dist).down w.line_dist

def tag_br (w : html_widget_t) : html_widget_t := freshline w

def tag_p (w : html_widget_t) : html_widget_t := (freshline w).down w.line_dist

def tag_pre (w : html_widget_t) : html_widget_t := { w with m := { w.m with preformat := up w.m.preformat } }

def tag_not_pre (w : html_widget_t) : html_widget_t :=
  if w.m.preformat > 0 then { w with m := { w.m with preformat := w.m.preformat - 1 } } else w

def tag_b (w : html_widget_t) : html_widget_t := bold_on w

def tag_not_b (w : html_widget_t) : html_widget_t := bold_off w

def tag_i (w : html_widget_t) : html_widget_t := italic_on w

def tag_not_i (w : html_widget_t) : html_widget_t := italic_off w

def tag_u (w : html_widget_t) : html_widget_t := underline_on w

def tag_not_u (w : html_widget_t) : html_widget_t := underline_off w

def tag_tt (w : html_widget_t) : html_widget_t :=
  let w := { w with m := { w.m with tt := up w.m.tt } }
  if w.m.tt = 1 then setfont w else w

def tag_not_tt (w : html_widget_t) : html_widget_t :=
  if w.m.tt > 0 then
    let w := { w with m := { w.m with tt := w.m.tt - 1 } }
    if w.m.tt = 0 then setfont w else w
  else w

structure TextArea where
  ax : Option Int
  ay : Option Int
  aw : Option Int

def textarea_arg (E : HtmlEnv) (t : Tag) (r : TextArea) (a : arg_t) : TextArea :=
  let j := toint (strtol E.longMax ((a.val.map (t.string E)).getD []))
  if t.isArg E a "x" then { r with ax := some j }
  else if t.isArg E a "y" then { r with ay := some j }
  else if t.isArg E a "width" then { r with aw := some j }
  else r

def TextArea.setX (r : TextArea) (w : html_widget_t) : html_widget_t :=
  match r.ax with
  | none => w
  | some ax => { w with area_x := max 0 ax }

def TextArea.setY (r : TextArea) (w : html_widget_t) : html_widget_t :=
  match r.ay with
  | none => w
  | some ay => { w with area_y := max 0 ay }

def TextArea.setWidth (r : TextArea) (w : html_widget_t) : html_widget_t :=
  match r.aw with
  | none => w
  | some aw => { w with area_w := w.w + min 0 aw, rborder := max 0 (-aw) }

def tag_textarea (E : HtmlEnv) (w : html_widget_t) (t : Tag) : html_widget_t :=
  let w := t.readNames E (t.rest.foldl (t.readVal E) w)
  let r := t.rest.foldl (textarea_arg E t) ⟨none, none, none⟩
  if r.ax ≠ none ∨ r.ay ≠ none ∨ r.aw ≠ none then
    let w := r.setWidth (r.setY (r.setX w))
    { w with m := { w.m with x := w.area_x + w.m.indent, y := w.area_y } }
  else w

def wfont_arg (E : HtmlEnv) (t : Tag) (w : html_widget_t) (a : arg_t) : html_widget_t :=
  let w := (t.readString E w a.arg).2
  if t.isArg E a "teletype" ∨ t.isArg E a "normal" then
    let j := if t.isArg E a "teletype" then FONT_C else FONT_N
    let w := t.readVal E w a
    let fname := (a.val.map (t.string E)).getD (if j = FONT_C then E.html_fixed else E.html_normal)
    match E.loadfonts fname with
    | none => w
    | some fp => { w with fonts := fun k => if j ≤ k ∧ k < j + 4 then fp (k - j) else w.fonts k }
  else w

def tag_wfont (E : HtmlEnv) (w : html_widget_t) (t : Tag) : html_widget_t :=
  let w := t.rest.foldl (wfont_arg E t) w
  let i := max (w.fonts FONT_N).height (w.fonts FONT_C).height
  let w :=
    if i < w.line_dist ∧ w.m.x > w.area_x + w.m.indent ∧ w.line_dist > w.m.line_ht then
      { w with m := { w.m with line_ht := w.line_dist } }
    else w
  { w with line_dist := short i }

def html_widget_t.setList (w : html_widget_t) (l : liststack_t) : html_widget_t :=
  { w with m := { w.m with lstack := Function.update w.m.lstack w.m.lsp l } }

def tag_ul (E : HtmlEnv) (w : html_widget_t) (t : Tag) : html_widget_t :=
  let w := { w with m := { w.m with lsp := short (w.m.lsp + 1) } }
  if w.m.lsp ≥ LIST_STACK_SZ then w
  else
    let w := (freshline (w.touch LIST_STACK_SZ w.m.lsp)).down (w.line_dist.tdiv 4)
    let s := t.readString E w t.name
    let w := s.2
    let ol := strcmp (cstring "ol") s.1 = 0
    let dl := ¬ ol ∧ strcmp (cstring "dl") s.1 = 0
    let indent := if ol then short (5 * w.font.widths 32)
      else if dl then short (min ((w.area_w - w.m.indent).tdiv 4) 20)
      else short (3 * w.font.widths 32)
    let w := w.setList { n := if ol then 1 else 0, y := w.m.y - 1, indent }
    { w with m := { w.m with
        indent := short (w.m.indent + indent)
        x := (if dl then w.m.x - indent else w.m.x) + indent } }

def tag_not_ul (w : html_widget_t) : html_widget_t :=
  if w.m.lsp ≤ 0 then w
  else
    let w := w.touch LIST_STACK_SZ w.m.lsp
    let indent := (w.m.lstack w.m.lsp).indent
    let w := { w with m := { w.m with indent := short (w.m.indent - indent), x := w.m.x - indent } }
    let w := (freshline w).down (w.line_dist.tdiv 4)
    { w with m := { w.m with lsp := w.m.lsp - 1 } }

def tag_li (w : html_widget_t) : html_widget_t :=
  if w.m.lsp ≥ LIST_STACK_SZ then w
  else
    let w := w.touch LIST_STACK_SZ w.m.lsp
    let l := w.m.lstack w.m.lsp
    let w := if w.m.x > w.area_x + w.m.indent ∨ l.y = w.m.y then dolinebreak w else w
    let w := w.down (w.line_dist.tdiv 4)
    w.setList { l with y := w.m.y, n := if l.n = 0 then l.n else l.n + 1 }

def tag_dt (w : html_widget_t) : html_widget_t :=
  if w.m.lsp ≥ LIST_STACK_SZ then w
  else
    let w := w.touch LIST_STACK_SZ w.m.lsp
    let l := w.m.lstack w.m.lsp
    let w := if w.m.x > w.area_x + w.m.indent - l.indent ∨ l.y = w.m.y then dolinebreak w else w
    let w := w.down (w.line_dist.tdiv 4)
    let w := { w with m := { w.m with x := w.area_x + w.m.indent - l.indent } }
    w.setList { l with n := w.m.y - 1, y := w.m.y }

def tag_dd (w : html_widget_t) : html_widget_t :=
  if w.m.lsp ≥ LIST_STACK_SZ then w
  else
    let w := w.touch LIST_STACK_SZ w.m.lsp
    let l := w.m.lstack w.m.lsp
    let w := if w.m.x > w.area_x + w.m.indent ∨ l.n = w.m.y then dolinebreak w else w
    let w := { w with m := { w.m with x := w.area_x + w.m.indent } }
    w.setList { l with n := w.m.y }

structure ImgArgs where
  src : Option Int
  alt : Option Int

def img_arg (E : HtmlEnv) (t : Tag) (r : ImgArgs) (a : arg_t) : ImgArgs :=
  if t.isArg E a "src" then { r with src := a.val }
  else if t.isArg E a "alt" then { r with alt := a.val }
  else r

def img_args (E : HtmlEnv) (t : Tag) : ImgArgs := t.rest.foldl (img_arg E t) ⟨none, none⟩

def img_place (w : html_widget_t) (wd : Int) : html_widget_t :=
  let w := if w.m.x + wd + 2 > w.area_x + w.area_w ∧ w.m.x > w.area_x + w.m.indent then dolinebreak w else w
  if w.m.x + wd + 2 > w.area_x + w.area_w then html_hresize w (w.m.x + wd + 2 - w.area_x) else w

def alt_fits (w : html_widget_t) (ht : Int) : Prop :=
  isvisible w (w.m.y + 1) ht ∧ (w.fonts FONT_N).height ≤ ht - 4

instance (w : html_widget_t) (ht : Int) : Decidable (alt_fits w ht) := inferInstanceAs (Decidable (_ ∧ _))

def img_alt (E : HtmlEnv) (w : html_widget_t) (t : Tag) (ht : Int) : html_widget_t :=
  match (img_args E t).alt with
  | none => w
  | some alt => if alt_fits w ht then (t.readString E w alt).2 else w

def img_shown (E : HtmlEnv) (w : html_widget_t) (t : Tag) (wd ht : Int) : html_widget_t :=
  let w := img_alt E w t ht
  let w := { w with m := { w.m with
    last_char_was_space := false
    line_ht := if ht + 2 > w.m.line_ht then short (ht + 2) else w.m.line_ht
    x := w.m.x + (wd + 2) } }
  if w.m.x ≥ w.area_x + w.area_w then dolinebreak w else w

def tag_img (E : HtmlEnv) (w : html_widget_t) (t : Tag) : html_widget_t :=
  match E.img_query_cb with
  | none => w
  | some query =>
    let w := t.readNames E w
    match (img_args E t).src with
    | none => w
    | some src =>
      let w := (t.readString E w src).2
      match query (t.string E src) with
      | none => w
      | some (wd, ht) => img_shown E (img_place w wd) t wd ht

structure AnchorArgs where
  url : Option Int
  is_href : Bool

def a_arg (E : HtmlEnv) (t : Tag) (r : AnchorArgs) (a : arg_t) : AnchorArgs :=
  if t.isArg E a "name" then ⟨a.val, false⟩
  else if t.isArg E a "href" then ⟨a.val, true⟩
  else r

def tag_a (E : HtmlEnv) (w : html_widget_t) (t : Tag) : html_widget_t :=
  let w := t.readNames E w
  let r := t.rest.foldl (a_arg E t) ⟨none, false⟩
  match r.url with
  | none => w
  | some url =>
    let w := { (t.readString E w url).2 with cur_a := true }
    let w := { w with m := { w.m with anchor_is_href := r.is_href } }
    if r.is_href then underline_on w else w

def tag_not_a (w : html_widget_t) : html_widget_t :=
  if ¬ w.cur_a then w
  else
    let w := { w with cur_a := false }
    if w.m.anchor_is_href then underline_off w else w

def tag_bq (w : html_widget_t) : html_widget_t :=
  let w := (freshline w).down w.line_dist
  let w := { w with m := { w.m with indent := short (w.m.indent + 10) } }
  italic_on { w with m := { w.m with x := w.area_x + w.m.indent } }

def tag_not_bq (w : html_widget_t) : html_widget_t :=
  let w := (freshline w).down w.line_dist
  let w := { w with m := { w.m with indent := short (w.m.indent - 10) } }
  italic_off { w with m := { w.m with x := w.area_x + w.m.indent } }

def TagFn.run (E : HtmlEnv) (w : html_widget_t) (t : Tag) : TagFn → html_widget_t
  | .tag_head => WWindowSystem.tag_head w
  | .tag_title => WWindowSystem.tag_title w
  | .tag_not_title => WWindowSystem.tag_not_title w
  | .tag_not_head => WWindowSystem.tag_not_head w
  | .tag_body => WWindowSystem.tag_body w
  | .tag_h => WWindowSystem.tag_h E w t
  | .tag_not_h => WWindowSystem.tag_not_h E w t
  | .tag_hr => WWindowSystem.tag_hr w
  | .tag_br => WWindowSystem.tag_br w
  | .tag_p => WWindowSystem.tag_p w
  | .tag_pre => WWindowSystem.tag_pre w
  | .tag_not_pre => WWindowSystem.tag_not_pre w
  | .tag_b => WWindowSystem.tag_b w
  | .tag_not_b => WWindowSystem.tag_not_b w
  | .tag_i => WWindowSystem.tag_i w
  | .tag_not_i => WWindowSystem.tag_not_i w
  | .tag_u => WWindowSystem.tag_u w
  | .tag_not_u => WWindowSystem.tag_not_u w
  | .tag_tt => WWindowSystem.tag_tt w
  | .tag_not_tt => WWindowSystem.tag_not_tt w
  | .tag_ul => WWindowSystem.tag_ul E w t
  | .tag_not_ul => WWindowSystem.tag_not_ul w
  | .tag_li => WWindowSystem.tag_li w
  | .tag_dt => WWindowSystem.tag_dt w
  | .tag_dd => WWindowSystem.tag_dd w
  | .tag_textarea => WWindowSystem.tag_textarea E w t
  | .tag_wfont => WWindowSystem.tag_wfont E w t
  | .tag_img => WWindowSystem.tag_img E w t
  | .tag_a => WWindowSystem.tag_a E w t
  | .tag_not_a => WWindowSystem.tag_not_a w
  | .tag_bq => WWindowSystem.tag_bq w
  | .tag_not_bq => WWindowSystem.tag_not_bq w

def bad_tag (w : html_widget_t) : html_widget_t :=
  eattoken (eatWhile (fun c => c ≠ TOK_EOF ∧ c ≠ TOK_GT) w).2

def Tag.isComment (E : HtmlEnv) (t : Tag) (w : html_widget_t) (arg : Int) : Bool × html_widget_t :=
  let w := t.read w arg 1
  if t.byte E arg ≠ 33 then (false, w)
  else
    let w := t.read w (arg + 1) 1
    if t.byte E (arg + 1) ≠ 45 then (false, w)
    else (t.byte E (arg + 2) = 45, t.read w (arg + 2) 1)

/-- Where the parser is: in `parse_html` before a token or in the loop for a tab, in `parse_tag` before an
argument or before it calls the function of the tag, or at the end. -/
inductive Mode where
  | text
  | tab
  | arg (t : Tag)
  | call (t : Tag)
  | done

def arg_rest (E : HtmlEnv) (w : html_widget_t) (t : Tag) (arg : Int) : Mode × html_widget_t :=
  let r := eatWhile (fun c => c = TOK_SPACE) w
  if r.1 = TOK_EOF then (.text, bad_tag r.2)
  else if r.1 = TOK_GT then (.call { t with args := t.args ++ [⟨arg, none⟩] }, eattoken r.2)
  else if r.1 = TOK_EQU then
    match parse_name E (eattoken r.2) t.buf (ARGBUF - t.buf.length) with
    | (none, w) => (.text, bad_tag w)
    | (some buf', w) => (.arg { t with buf := buf', args := t.args ++ [⟨arg, some t.buf.length⟩] }, w)
  else (.arg { t with args := t.args ++ [⟨arg, none⟩] }, r.2)

def parse_tag_arg (E : HtmlEnv) (w : html_widget_t) (t : Tag) : Mode × html_widget_t :=
  if ¬ t.i < ARGMAX then (.call t, w)
  else
    let w := w.touch ARGMAX t.args.length
    let arg := (t.buf.length : Int)
    match parse_name E w t.buf (ARGBUF - t.buf.length) with
    | (none, w) => (.text, bad_tag w)
    | (some buf, w) =>
      let t := { t with buf, i := if buf.length ≠ t.buf.length then t.i + 1 else t.i }
      let r := if t.i = (1 : Int) then t.isComment E w arg else (false, w)
      if r.1 then (.text, parse_comment r.2)
      else arg_rest E r.2 t arg

def Tag.lower (E : HtmlEnv) (t : Tag) : Tag :=
  { t with buf := t.buf.take t.name.toNat ++ (t.string E t.name).map tolower ++
      t.buf.drop (t.name.toNat + t.stringLength E t.name) }

def Tag.lowered (E : HtmlEnv) (t : Tag) (w : html_widget_t) : html_widget_t :=
  (t.readString E (w.span ARGMAX 0 (max t.i.toNat 1)) t.name).2.span ARGBUF t.name (t.stringLength E t.name)

def parse_tag_call (E : HtmlEnv) (w : html_widget_t) (t : Tag) : html_widget_t :=
  if t.i ≤ ARGMAX then
    let w := t.lowered E w
    let t := t.lower E
    let r := t.readString E w t.name
    match lookup_tag_fn r.1 with
    | none => r.2
    | some f => f.run E r.2 t
  else bad_tag w

def skipspace (s : List Byte) : List Byte := s.dropWhile fun c => c = 32

def doprint (w : html_widget_t) (buf : List Byte) : html_widget_t :=
  if w.m.header ≠ 0 then w
  else
    let w := w.span WORDBUF 0 ((cstr buf).length + 1)
    let s := if w.m.preformat = 0 ∧ w.m.x ≤ w.area_x + w.m.indent then skipspace (cstr buf) else cstr buf
    if s ≠ [] then { w with m := { w.m with x := w.m.x + w_strlen w.font s } } else w

structure Parser where
  w : html_widget_t
  buf : List Byte
  breakchar : Int
  wd : Int
  mode : Mode

def Parser.print (p : Parser) : Parser :=
  { p with w := doprint (p.w.touch WORDBUF p.buf.length) p.buf, buf := [], breakchar := 0 }

def Parser.add (p : Parser) (c : Byte) : Parser :=
  { p with
    w := p.w.touch WORDBUF p.buf.length
    buf := p.buf ++ [c]
    wd := p.wd + p.w.font.widths c }

def Parser.breakWord (p : Parser) : Parser :=
  let k := p.breakchar.toNat
  let w := doprint ((p.w.touch WORDBUF p.buf.length).touch WORDBUF p.breakchar) (p.buf.take k)
  let rest := (p.buf.set k 32).drop k
  let w := (w.touch WORDBUF p.breakchar).span WORDBUF p.breakchar (rest.length + 1)
  let rest := if w.m.preformat = 0 then skipspace rest else rest
  let wd := w_strlen w.font (cstr rest)
  { p with w := dolinebreak (w.span WORDBUF 0 rest.length), buf := rest, breakchar := 0, wd }

/-- The end of the loop of `parse_html`: the word may be too long for the line or for the buffer. -/
def Parser.border (p : Parser) : Parser :=
  if p.w.m.x + p.wd > p.w.area_x + p.w.area_w then
    if 0 < p.breakchar ∧ p.breakchar < p.buf.length then p.breakWord
    else if p.w.m.x > p.w.area_x + p.w.m.indent then
      let p := { p with w := p.w.touch WORDBUF p.buf.length }
      { p with w := doprint (dolinebreak p.w) p.buf, buf := [], breakchar := 0, wd := 0 }
    else
      let p := { p with w := html_hresize (p.w.touch WORDBUF p.buf.length) (p.w.m.x + p.wd - p.w.area_x) }
      { p with w := dolinebreak (doprint p.w p.buf), buf := [], breakchar := 0, wd := 0 }
  else if (p.buf.length : Int) ≥ WORDBUF - 2 then { p.print with wd := 0 }
  else p

def tabstop (w : html_widget_t) : html_widget_t :=
  let wd := 8 * w.font.widths 32
  let i := w.m.x - w.area_x + wd
  { w with m := { w.m with x := w.area_x + i - i.tmod wd }, divisors := wd :: w.divisors }

def parse_tab (p : Parser) : Parser :=
  let w := p.w
  if w.m.x > w.area_x + w.area_w then
    { p with w := { w with m := { w.m with
        x := w.m.x - (w.area_w - w.m.indent)
        y := w.m.y + max w.line_dist w.m.line_ht
        line_ht := w.line_dist } } }
  else { p with wd := 0, mode := .text }.border

def Parser.spaced (p : Parser) (last_char_was_space : Bool) : Parser :=
  { p with w := { p.w with m := { p.w.m with last_char_was_space } } }

def Parser.canBreak (p : Parser) : Parser :=
  if p.w.m.x + p.wd ≤ p.w.area_x + p.w.area_w then { p with breakchar := p.buf.length } else p

def Parser.token (p : Parser) (c : Int) : Parser :=
  if c = TOK_TAB then
    let p := p.print
    { p with w := tabstop p.w, wd := 8 * p.w.font.widths 32, mode := .tab }
  else if c = TOK_NL then
    let p := p.print
    { p with w := dolinebreak p.w, wd := 0 }.border
  else if c = TOK_SPACE then
    if p.w.m.preformat = 0 ∧ p.w.m.last_char_was_space then p.border
    else
      (((p.spaced true).canBreak).add 32).border
  else ((p.spaced false).add (BitVec.ofInt 8 c)).border

def parse_html_token (E : HtmlEnv) (p : Parser) : Parser :=
  let r := gettoken p.w (p.w.m.preformat ≠ 0)
  if p.w.m.y ≤ p.w.ymax ∧ r.1 ≠ TOK_EOF then
    let w := eattoken r.2
    if r.1 = TOK_LT then { Parser.print { p with w } with wd := 0, mode := .arg ⟨[], [], 0⟩ }
    else
      let r := convert_special E w r.1
      Parser.token { p with w := r.2 } r.1
  else { p.print with mode := .done }

def Parser.step (E : HtmlEnv) (p : Parser) : Parser :=
  match p.mode with
  | .text => parse_html_token E p
  | .tab => parse_tab p
  | .arg t =>
    match parse_tag_arg E p.w t with
    | (.text, w) => Parser.border { p with w, mode := .text }
    | (mode, w) => { p with w, mode }
  | .call t => Parser.border { p with w := parse_tag_call E p.w t, mode := .text }
  | .done => p

def marker_init (w : html_widget_t) : marker_t :=
  { w.m with
    preformat := 0, italic := 0, bold := 0, underline := 0, tt := 0, header := 0, last_char_was_space := false
    anchor_is_href := false, line_ht := w.line_dist, indent := 0, x := w.area_x, y := w.area_y, lsp := 0 }

def Parser.start (E : HtmlEnv) (w : html_widget_t) (html_code : List Byte) : Parser :=
  { w := setfont { w with
      m := marker_init w, cp := html_code, cp2 := html_code, ymin := 0, ymax := E.longMax
      touched := [], unwritten := [], divisors := [], stuck := false }
    buf := []
    breakchar := 0
    wd := 0
    mode := .text }

end WWindowSystem
