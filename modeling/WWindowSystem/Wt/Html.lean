import WWindowSystem.Library.Loops
import WWindowSystem.Library.Strings
import WWindowSystem.Wt.Getstring

namespace WWindowSystem

open List

inductive TagFn where
  | tag_head
  | tag_title
  | tag_not_title
  | tag_not_head
  | tag_body
  | tag_h
  | tag_not_h
  | tag_hr
  | tag_br
  | tag_p
  | tag_pre
  | tag_not_pre
  | tag_b
  | tag_not_b
  | tag_i
  | tag_not_i
  | tag_u
  | tag_not_u
  | tag_tt
  | tag_not_tt
  | tag_ul
  | tag_not_ul
  | tag_li
  | tag_dt
  | tag_dd
  | tag_textarea
  | tag_wfont
  | tag_img
  | tag_a
  | tag_not_a
  | tag_bq
  | tag_not_bq
  deriving DecidableEq

def tag_funcs : List (String × TagFn) := [
  ("/a", .tag_not_a), ("/address", .tag_not_bq), ("/b", .tag_not_b), ("/blockquote", .tag_not_bq),
  ("/cite", .tag_not_i), ("/code", .tag_not_tt), ("/dir", .tag_not_ul), ("/dfn", .tag_not_i),
  ("/dl", .tag_not_ul), ("/em", .tag_not_i), ("/h1", .tag_not_h), ("/h2", .tag_not_h), ("/h3", .tag_not_h),
  ("/h4", .tag_not_h), ("/h5", .tag_not_h), ("/h6", .tag_not_h), ("/head", .tag_not_head), ("/i", .tag_not_i),
  ("/kbd", .tag_not_tt), ("/menu", .tag_not_ul), ("/ol", .tag_not_ul), ("/pre", .tag_not_pre),
  ("/samp", .tag_not_tt), ("/strong", .tag_not_b), ("/title", .tag_not_title), ("/tt", .tag_not_tt),
  ("/u", .tag_not_u), ("/ul", .tag_not_ul), ("/var", .tag_not_i), ("a", .tag_a), ("address", .tag_bq),
  ("b", .tag_b), ("blockquote", .tag_bq), ("body", .tag_body), ("br", .tag_br), ("cite", .tag_i),
  ("code", .tag_tt), ("dd", .tag_dd), ("dfn", .tag_i), ("dir", .tag_ul), ("dl", .tag_ul), ("dt", .tag_dt),
  ("em", .tag_i), ("h1", .tag_h), ("h2", .tag_h), ("h3", .tag_h), ("h4", .tag_h), ("h5", .tag_h),
  ("h6", .tag_h), ("head", .tag_head), ("hr", .tag_hr), ("i", .tag_i), ("img", .tag_img), ("kbd", .tag_tt),
  ("li", .tag_li), ("menu", .tag_ul), ("ol", .tag_ul), ("p", .tag_p), ("pre", .tag_pre), ("samp", .tag_tt),
  ("strong", .tag_b), ("textarea", .tag_textarea), ("title", .tag_title), ("tt", .tag_tt), ("u", .tag_u),
  ("ul", .tag_ul), ("var", .tag_i), ("wfont", .tag_wfont)]

def special_chars : List (String × Int) := [
  ("AElig", 198), ("Aacute", 193), ("Acirc", 194), ("Agrave", 192), ("Aring", 197), ("Atilde", 195),
  ("Auml", 196), ("Ccedil", 199), ("ETH", 208), ("Eacute", 201), ("Ecirc", 202), ("Egrave", 200),
  ("Euml", 203), ("Iacute", 205), ("Icirc", 206), ("Igrave", 204), ("Iuml", 207), ("Ntilde", 209),
  ("Oacute", 211), ("Ocirc", 212), ("Ograve", 210), ("Oslash", 216), ("Otilde", 213), ("Ouml", 214),
  ("THORN", 222), ("Uacute", 218), ("Ucirc", 219), ("Ugrave", 217), ("Uuml", 220), ("Yacute", 221),
  ("aacute", 225), ("acirc", 226), ("acute", 180), ("aelig", 230), ("agrave", 224), ("amp", 38),
  ("aring", 229), ("atilde", 227), ("auml", 228), ("brvbar", 166), ("ccedil", 231), ("cedil", 184),
  ("cent", 162), ("copy", 169), ("curren", 164), ("deg", 176), ("divide", 247), ("eacute", 233),
  ("ecirc", 234), ("egrave", 232), ("eth", 240), ("euml", 235), ("frac12", 189), ("frac14", 188),
  ("frac34", 190), ("gt", 62), ("iacute", 237), ("icirc", 238), ("iexcl", 161), ("igrave", 236),
  ("iquest", 191), ("iuml", 239), ("laquo", 171), ("lt", 60), ("macr", 175), ("micro", 181), ("middot", 183),
  ("nbsp", 160), ("not", 172), ("ntilde", 241), ("oacute", 243), ("ocirc", 244), ("ograve", 242),
  ("ordf", 170), ("ordm", 186), ("oslash", 248), ("otilde", 245), ("ouml", 246), ("para", 182),
  ("plusmn", 177), ("pound", 163), ("quot", 34), ("raquo", 187), ("reg", 174), ("sect", 167), ("shy", 173),
  ("sup1", 185), ("sup2", 178), ("sup3", 179), ("szlig", 223), ("thorn", 254), ("times", 215), ("uacute", 250),
  ("ucirc", 251), ("ugrave", 249), ("uml", 168), ("uuml", 252), ("yacute", 253), ("yen", 165), ("yuml", 255)]

variable {α : Type}

def lookupTurn (table : List (String × α)) (name : List Byte) : Int × Int → (Int × Int) ⊕ Option α
  | (l, r) =>
    let m := (l + r) / 2
    match table[m.toNat]? with
    | none => .inr none
    | some e =>
      let i := strcmp name (cstring e.1)
      if i = 0 then .inr (some e.2)
      else
        let r := if i < 0 then m - 1 else r
        let l := if i < 0 then l else m + 1
        if l ≤ r then .inl (l, r) else .inr none

def lookup (table : List (String × α)) (name : List Byte) : Option α :=
  (runLoop (lookupTurn table name) (table.length + 1) (0, table.length - 1)).join

def lookup_tag_fn (name : List Byte) : Option TagFn := lookup tag_funcs name

def lookup_special_char (name : List Byte) : Option Int := lookup special_chars name

variable {table : List (String × α)} {name : List Byte}

theorem lookupTurn_next {l r l' r' : Int}
    (h : lookupTurn table name (l, r) = .inl (l', r')) :
    table ≠ [] ∧ l' ≤ r' ∧ (l' = l ∧ r' = (l + r) / 2 - 1 ∨ l' = (l + r) / 2 + 1 ∧ r' = r) := by
  unfold lookupTurn at h
  dsimp only at h
  cases he : table[((l + r) / 2).toNat]? with
  | none =>
    rw [he] at h
    cases h
  | some e =>
    rw [he] at h
    dsimp only at h
    split_ifs at h with hi hneg hle hle
    · obtain ⟨rfl, rfl⟩ := Prod.mk.inj (Sum.inl.inj h)
      exact ⟨ne_nil_of_mem (mem_of_getElem? he), hle, Or.inl ⟨rfl, rfl⟩⟩
    · obtain ⟨rfl, rfl⟩ := Prod.mk.inj (Sum.inl.inj h)
      exact ⟨ne_nil_of_mem (mem_of_getElem? he), hle, Or.inr ⟨rfl, rfl⟩⟩

theorem lookup_ends (table : List (String × α)) (name : List Byte) :
    runLoop (lookupTurn table name) (table.length + 1) (0, table.length - 1) = some (lookup table name) := by
  have hends : ∃ r, runLoop (lookupTurn table name) (table.length + 1) (0, table.length - 1) = some r ∧ True := by
    apply runLoop_spec (fun s : Int × Int => table ≠ [] → s.1 ≤ s.2) (fun s => (s.2 - s.1 + 1).toNat)
    · rintro ⟨l, r⟩ ⟨l', r'⟩ hle h
      obtain ⟨hne, hle', hmid⟩ := lookupTurn_next h
      have hlr : l ≤ r := hle hne
      refine ⟨fun _ => hle', ?_⟩
      dsimp only
      omega
    · exact fun _ _ _ _ => trivial
    · intro hne
      have hpos := length_pos_iff.mpr hne
      dsimp only
      omega
    · dsimp only
      omega
  obtain ⟨r, hr, -⟩ := hends
  unfold lookup
  rw [hr]
  rfl

theorem lookupTurn_found {s : Int × Int} {r : Option α}
    (h : lookupTurn table name s = .inr r) : ∀ x, r = some x → ∃ e ∈ table, e.2 = x ∧ strcmp name (cstring e.1) = 0 := by
  rintro x rfl
  obtain ⟨l, r⟩ := s
  unfold lookupTurn at h
  dsimp only at h
  cases he : table[((l + r) / 2).toNat]? with
  | none =>
    rw [he] at h
    cases h
  | some e =>
    rw [he] at h
    dsimp only at h
    split_ifs at h with hi
    · cases h
      exact ⟨e, mem_of_getElem? he, rfl, hi⟩
    · cases h
    · cases h

theorem lookup_mem {x : α} (h : lookup table name = some x) :
    ∃ e ∈ table, e.2 = x ∧ strcmp name (cstring e.1) = 0 :=
  runLoop_result (fun _ _ ht => lookupTurn_found ht) (lookup_ends table name) x h

theorem strcmp_length {s u : List Byte} (h : strcmp s u = 0) (hu : ∀ c ∈ u, c ≠ 0) : u.length ≤ s.length := by
  induction u generalizing s with
  | nil => exact Nat.zero_le _
  | cons d u ih =>
    have hd : d.toNat ≠ 0 := by
      intro hz
      exact hu d mem_cons_self (BitVec.eq_of_toNat_eq hz)
    cases s with
    | nil =>
      unfold strcmp at h
      omega
    | cons c s =>
      unfold strcmp at h
      split_ifs at h with hc
      · have hle := ih h fun c hm => hu c (mem_cons_of_mem d hm)
        rw [length_cons, length_cons]
        omega
      · exact absurd (BitVec.eq_of_toNat_eq (by omega)) hc

theorem heading_length :
    (lookup_tag_fn name = some .tag_h → 2 ≤ name.length) ∧ (lookup_tag_fn name = some .tag_not_h → 3 ≤ name.length) := by
  have htable : ∀ e ∈ tag_funcs, (e.2 = .tag_h → e.1 ∈ ["h1", "h2", "h3", "h4", "h5", "h6"]) ∧
      (e.2 = .tag_not_h → e.1 ∈ ["/h1", "/h2", "/h3", "/h4", "/h5", "/h6"]) := by decide +kernel
  have hopen : ∀ s ∈ ["h1", "h2", "h3", "h4", "h5", "h6"], (∀ c ∈ cstring s, c ≠ 0) ∧ (cstring s).length = 2 := by simp [cstring]
  have hclose : ∀ s ∈ ["/h1", "/h2", "/h3", "/h4", "/h5", "/h6"], (∀ c ∈ cstring s, c ≠ 0) ∧ (cstring s).length = 3 := by
    simp [cstring]
  constructor
  · intro h
    obtain ⟨e, hm, he, hc⟩ := lookup_mem h
    obtain ⟨hz, hlen⟩ := hopen _ ((htable e hm).1 he)
    rw [← hlen]
    exact strcmp_length hc hz
  · intro h
    obtain ⟨e, hm, he, hc⟩ := lookup_mem h
    obtain ⟨hz, hlen⟩ := hclose _ ((htable e hm).2 he)
    rw [← hlen]
    exact strcmp_length hc hz

end WWindowSystem

namespace WWindowSystem

def FONT_N : Int := 0
def FONT_C : Int := 4
def FONT_BFLAG : Int := 1
def FONT_IFLAG : Int := 2
def LIST_STACK_SZ : Int := 8
def TOK_SPACE : Int := 32
def TOK_TAB : Int := 9
def TOK_NL : Int := 10
def TOK_LT : Int := 60
def TOK_GT : Int := 62
def TOK_AMP : Int := 38
def TOK_SEMICO : Int := 59
def TOK_QUOT : Int := 34
def TOK_EQU : Int := 61
def TOK_EOF : Int := -1
def ARGBUF : Int := 1024
def ARGMAX : Int := 10
def WORDBUF : Int := 100
def NAMEBUF : Int := 20

structure HtmlFont where
  height : Int
  widths : Byte → Int

def w_strlen (font : HtmlFont) (s : List Byte) : Int := (s.map font.widths).sum

structure liststack_t where
  n : Int
  y : Int
  indent : Int

structure marker_t where
  x : Int
  y : Int
  last_char_was_space : Bool
  anchor_is_href : Bool
  preformat : Int
  underline : Int
  italic : Int
  bold : Int
  tt : Int
  header : Int
  title : Int
  indent : Int
  line_ht : Int
  lstack : Int → liststack_t
  lsp : Int

/-- The widget while it parses with the marker `m0`; `cp` and `cp2` are what is left of the code behind
them. `cur_a` says that there is an anchor. The accesses to arrays are in `touched`, the bytes of the
argument buffer that are read before they are written in `unwritten`, and `stuck` is set when a loop does
not end. Drawing, the rectangles of the anchors and the saved markers are left out. -/
structure html_widget_t where
  w : Int
  yoffs : Int
  ymin : Int
  ymax : Int
  parent_h : Int
  fonts : Int → HtmlFont
  cur_f : Int
  line_dist : Int
  cp : List Byte
  cp2 : List Byte
  m : marker_t
  area_x : Int
  area_y : Int
  area_w : Int
  rborder : Int
  cur_a : Bool
  touched : List Access
  unwritten : List Int
  divisors : List Int
  stuck : Bool

/-- What is not in the code: the bytes that the stack has in the argument buffer, the fonts that are there,
and what the callback says about a picture. -/
structure HtmlEnv where
  junk : Int → Byte
  longMax : Int
  html_fixed : List Byte
  html_normal : List Byte
  loadfonts : List Byte → Option (Int → HtmlFont)
  img_query_cb : Option (List Byte → Option (Int × Int))

structure arg_t where
  arg : Int
  val : Option Int

/-- The locals of `parse_tag`: what is written to the buffer, the arguments, and how many of them count. -/
structure Tag where
  buf : List Byte
  args : List arg_t
  i : Int

def html_widget_t.font (w : html_widget_t) : HtmlFont := w.fonts w.cur_f

def html_widget_t.touch (w : html_widget_t) (size i : Int) : html_widget_t :=
  { w with touched := ⟨size, i⟩ :: w.touched }

def html_widget_t.span (w : html_widget_t) (size i : Int) (n : Nat) : html_widget_t :=
  { w with touched := (List.range n).map (fun k : Nat => (⟨size, i + k⟩ : Access)) ++ w.touched }

def setfont (w : html_widget_t) : html_widget_t :=
  let idx := if w.m.tt ≠ 0 then FONT_C else FONT_N
  let idx := if w.m.bold ≠ 0 then idx + FONT_BFLAG else idx
  let idx := if w.m.italic ≠ 0 then idx + FONT_IFLAG else idx
  { w with cur_f := idx }

def isvisible (w : html_widget_t) (y0 ht : Int) : Prop :=
  y0 + ht > w.ymin ∧ y0 < min w.ymax (w.yoffs + 3 * w.parent_h)

instance (w : html_widget_t) (y0 ht : Int) : Decidable (isvisible w y0 ht) := inferInstanceAs (Decidable (_ ∧ _))

def gettoken (w : html_widget_t) (preformat : Bool) : Int × html_widget_t :=
  match w.cp with
  | [] => (TOK_EOF, w)
  | c :: cp =>
    if c = 0 then (TOK_EOF, w)
    else if ¬ isspace c ∨ preformat then (c.toNat, { w with cp2 := cp })
    else (TOK_SPACE, { w with cp2 := (c :: cp).dropWhile isspace })

def eattoken (w : html_widget_t) : html_widget_t := { w with cp := w.cp2 }

def eatTurn (p : Int → Bool) (w : html_widget_t) : html_widget_t ⊕ (Int × html_widget_t) :=
  let r := gettoken w false
  if p r.1 then .inl (eattoken r.2) else .inr r

def eatWhile (p : Int → Bool) (w : html_widget_t) : Int × html_widget_t :=
  (runLoop (eatTurn p) (w.cp.length + 1) w).getD (TOK_EOF, { w with stuck := true })

def specialTurn : html_widget_t × List Byte → (html_widget_t × List Byte) ⊕ (Int × html_widget_t × List Byte)
  | (w, name) =>
    let r := gettoken w false
    if r.1 ≠ TOK_EOF ∧ r.1 ≠ TOK_SEMICO then
      if (name.length : Int) < NAMEBUF - 1 then
        .inl ((eattoken r.2).touch NAMEBUF name.length, name ++ [BitVec.ofInt 8 r.1])
      else .inl (eattoken r.2, name)
    else .inr (r.1, r.2, name)

def parse_special (E : HtmlEnv) (w : html_widget_t) : Int × html_widget_t :=
  match runLoop specialTurn (w.cp.length + 1) (w, []) with
  | none => (TOK_AMP, { w with stuck := true })
  | some (c, w', name) =>
    if c ≠ TOK_SEMICO then (TOK_AMP, { w' with cp := w.cp, cp2 := w.cp })
    else
      let w' := (eattoken w').touch NAMEBUF name.length
      if name.head? = some 35 ∨ name.head?.any isdigit then
        let c := strtol E.longMax (if name.head? = some 35 then name.tail else name) % 256
        (if c ≠ 0 then c else TOK_SPACE, w')
      else
        match lookup_special_char name with
        | some val => (val, w')
        | none => (TOK_AMP, { w' with cp := w.cp, cp2 := w.cp })

def convert_special (E : HtmlEnv) (w : html_widget_t) (c : Int) : Int × html_widget_t :=
  if c ≠ TOK_AMP then (c, w) else parse_special E w

def nameTurn (E : HtmlEnv) (last : Int) :
    html_widget_t × List Byte × Int → (html_widget_t × List Byte × Int) ⊕ (Int × html_widget_t × List Byte × Int)
  | (w, buf, sz) =>
    let r := gettoken w false
    if r.1 ≠ TOK_EOF ∧ r.1 ≠ TOK_GT ∧ r.1 ≠ TOK_EQU ∧ r.1 ≠ last then
      let r := convert_special E (eattoken r.2) r.1
      if sz > 0 then .inl (r.2.touch ARGBUF buf.length, buf ++ [BitVec.ofInt 8 r.1], sz - 1)
      else .inl (r.2, buf, sz)
    else .inr (r.1, r.2, buf, sz)

def name_rest (E : HtmlEnv) (w : html_widget_t) (buf : List Byte) (sz last : Int) :
    Option (List Byte) × html_widget_t :=
  match runLoop (nameTurn E last) (w.cp.length + 1) (w, buf, sz) with
  | none => (none, { w with stuck := true })
  | some (c, w, buf, sz) =>
    let w := if c ≠ TOK_GT ∧ c ≠ TOK_EQU then eattoken w else w
    if sz > 0 then (some (buf ++ [0]), w.touch ARGBUF buf.length) else (none, w)

def parse_name (E : HtmlEnv) (w : html_widget_t) (buf : List Byte) (sz : Int) : Option (List Byte) × html_widget_t :=
  if sz ≤ 0 then (none, w)
  else
    let r := eatWhile (fun c => c = TOK_SPACE) w
    if r.1 = TOK_EOF then (none, eattoken r.2)
    else if r.1 = TOK_GT then (some buf, r.2)
    else if r.1 = TOK_QUOT then name_rest E (eattoken r.2) buf sz TOK_QUOT
    else
      let r := convert_special E (eattoken r.2) r.1
      name_rest E (r.2.touch ARGBUF buf.length) (buf ++ [BitVec.ofInt 8 r.1]) (sz - 1) TOK_SPACE

def dashTurn : html_widget_t × Int → (html_widget_t × Int) ⊕ (Int × html_widget_t × Int)
  | (w, lastc) =>
    let r := gettoken w false
    if r.1 ≠ TOK_EOF then
      if lastc = 45 ∧ r.1 = 45 then .inr (r.1, eattoken r.2, lastc) else .inl (eattoken r.2, r.1)
    else .inr (r.1, r.2, lastc)

def commentTurn : html_widget_t × Int → (html_widget_t × Int) ⊕ html_widget_t
  | (w, lastc) =>
    match runLoop dashTurn (w.cp.length + 1) (w, lastc) with
    | none => .inr { w with stuck := true }
    | some (c, w, lastc) =>
      let w := eattoken w
      if c = TOK_EOF then .inr w
      else
        let r := eatWhile (fun c => c ≠ TOK_EOF ∧ isspace (BitVec.ofInt 8 c)) w
        let w := eattoken r.2
        if r.1 = TOK_EOF ∨ r.1 = TOK_GT then .inr w else .inl (w, lastc)

def parse_comment (w : html_widget_t) : html_widget_t :=
  (runLoop commentTurn (w.cp.length + 1) (w, 0)).getD { w with stuck := true }

end WWindowSystem
