import Mathlib.Data.List.DropRight
import WWindowSystem.Wt.HtmlParser

namespace WWindowSystem

open List

structure HtmlCore where
  touched : List Access
  unwritten : List Int
  divisors : List Int
  stuck : Bool
  fonts : Int → HtmlFont
  lsp : Int
  cp : List Byte
  cp2 : List Byte

def html_widget_t.core (w : html_widget_t) : HtmlCore :=
  { touched := w.touched, unwritten := w.unwritten, divisors := w.divisors, stuck := w.stuck, fonts := w.fonts
    lsp := w.m.lsp, cp := w.cp, cp2 := w.cp2 }

structure HtmlCore.Good (k : HtmlCore) : Prop where
  inside : ∀ a ∈ k.touched, a.Inside
  written : k.unwritten = []
  nonzero : ∀ d ∈ k.divisors, d ≠ 0
  ends : k.stuck = false
  wide : ∀ i c, 0 < (k.fonts i).widths c
  lsp : 0 ≤ k.lsp
  ahead : k.cp2.length ≤ k.cp.length

variable {E : HtmlEnv} {w w' w'' : html_widget_t}

variable {size i : Int}

theorem touch_good (h : w.core.Good) (h0 : 0 ≤ i) (hi : i < size) : (w.touch size i).core.Good := by
  refine ⟨?_, h.written, h.nonzero, h.ends, h.wide, h.lsp, h.ahead⟩
  intro a ha
  rcases mem_cons.mp ha with rfl | ha
  · exact ⟨h0, hi⟩
  · exact h.inside a ha

theorem span_good (h : w.core.Good) {n : Nat} (h0 : 0 ≤ i) (hi : i + n ≤ size) :
    (w.span size i n).core.Good := by
  refine ⟨?_, h.written, h.nonzero, h.ends, h.wide, h.lsp, h.ahead⟩
  intro a ha
  rcases mem_append.mp ha with ha | ha
  · obtain ⟨k, hk, rfl⟩ := mem_map.mp ha
    rw [mem_range] at hk
    constructor
    · dsimp only
      omega
    · dsimp only
      omega
  · exact h.inside a ha

def Scans (w w' : html_widget_t) : Prop := w'.core.Good ∧ w'.cp.length ≤ w.cp.length

theorem Scans.refl (h : w.core.Good) : Scans w w := ⟨h, le_refl _⟩

theorem Scans.trans (h : Scans w w') (h' : Scans w' w'') : Scans w w'' := ⟨h'.1, le_trans h'.2 h.2⟩

theorem Scans.touch (h : Scans w w') (h0 : 0 ≤ i) (hi : i < size) : Scans w (w'.touch size i) :=
  ⟨touch_good h.1 h0 hi, h.2⟩

def html_widget_t.peek (w : html_widget_t) : Int := (gettoken w false).1

theorem gettoken_cp (w : html_widget_t) (preformat : Bool) : (gettoken w preformat).2.cp = w.cp := by
  unfold gettoken
  cases hcp : w.cp with
  | nil => exact hcp
  | cons c cp =>
    dsimp only
    split_ifs
    · exact hcp
    · rfl
    · rfl

theorem gettoken_congr (h : w'.cp = w.cp) (preformat : Bool) : (gettoken w' preformat).1 = (gettoken w preformat).1 := by
  unfold gettoken
  rw [h]
  cases w.cp with
  | nil => rfl
  | cons c cp =>
    dsimp only
    split_ifs <;> rfl

theorem peek_gettoken (w : html_widget_t) (preformat : Bool) : (gettoken w preformat).2.peek = w.peek :=
  gettoken_congr (gettoken_cp w preformat) false

theorem gettoken_scans (h : w.core.Good) (preformat : Bool) : Scans w (gettoken w preformat).2 ∧
      ((gettoken w preformat).1 ≠ TOK_EOF → (gettoken w preformat).2.cp2.length < w.cp.length) := by
  have hsame : Scans w w := Scans.refl h
  unfold gettoken
  cases hcp : w.cp with
  | nil => exact ⟨hsame, fun hne => absurd rfl hne⟩
  | cons c cp =>
    have hmove {cp2 : List Byte} (hle : cp2.length ≤ cp.length) :
        Scans w { w with cp := c :: cp, cp2 } ∧ cp2.length < (c :: cp).length := by
      have hlt : cp2.length < (c :: cp).length := by
        rw [length_cons]
        omega
      refine ⟨⟨⟨h.inside, h.written, h.nonzero, h.ends, h.wide, h.lsp, hlt.le⟩, ?_⟩, hlt⟩
      rw [hcp]
    dsimp only
    split_ifs with hz hs
    · exact ⟨hsame, fun hne => absurd rfl hne⟩
    · obtain ⟨hk, hlt⟩ := hmove (le_refl cp.length)
      exact ⟨hk, fun _ => hlt⟩
    · have hspace : isspace c = true := by
        by_contra hno
        exact hs (Or.inl hno)
      have hdrop : ((c :: cp).dropWhile isspace).length ≤ cp.length := by
        rw [dropWhile_cons_of_pos hspace]
        exact (dropWhile_sublist _).length_le
      obtain ⟨hk, hlt⟩ := hmove hdrop
      exact ⟨hk, fun _ => hlt⟩

theorem eattoken_scans (h : w.core.Good) : Scans w (eattoken w) :=
  ⟨⟨h.inside, h.written, h.nonzero, h.ends, h.wide, h.lsp, le_refl _⟩, h.ahead⟩

theorem token_eaten (h : w.core.Good) (preformat : Bool) (hne : (gettoken w preformat).1 ≠ TOK_EOF) :
    (eattoken (gettoken w preformat).2).core.Good ∧ (eattoken (gettoken w preformat).2).cp.length < w.cp.length := by
  obtain ⟨hs, hlt⟩ := gettoken_scans h preformat
  exact ⟨(eattoken_scans hs.1).1, hlt hne⟩

variable {p : Int → Bool}

theorem eatWhile_scans (h : w.core.Good) (hp : p TOK_EOF = false) :
    Scans w (eatWhile p w).2 ∧ (eatWhile p w).2.peek = (eatWhile p w).1 ∧ p (eatWhile p w).1 = false ∧
      ((eatWhile p w).1 ≠ TOK_EOF → (eatWhile p w).2.cp2.length < (eatWhile p w).2.cp.length) := by
  have hrun : ∃ r, runLoop (eatTurn p) (w.cp.length + 1) w = some r ∧ (Scans w r.2 ∧ r.2.peek = r.1 ∧ p r.1 = false ∧
      (r.1 ≠ TOK_EOF → r.2.cp2.length < r.2.cp.length)) := by
    apply runLoop_spec (fun u => Scans w u) (fun u => u.cp.length)
    · intro u u' hu ht
      unfold eatTurn at ht
      dsimp only at ht
      split_ifs at ht with hc
      have hne : (gettoken u false).1 ≠ TOK_EOF := by
        intro he
        rw [he, hp] at hc
        exact Bool.false_ne_true hc
      obtain ⟨hg, hlt⟩ := token_eaten hu.1 false hne
      have hs := hu.2
      cases ht
      exact ⟨⟨hg, by omega⟩, hlt⟩
    · intro u r hu ht
      unfold eatTurn at ht
      dsimp only at ht
      split_ifs at ht with hc
      cases ht
      obtain ⟨hs, hlt⟩ := gettoken_scans hu.1 false
      refine ⟨hu.trans hs, peek_gettoken u false, Bool.eq_false_of_not_eq_true hc, fun hne => ?_⟩
      rw [gettoken_cp]
      exact hlt hne
    · exact Scans.refl h
    · exact Nat.lt_succ_self _
  obtain ⟨r, hr, hpost⟩ := hrun
  unfold eatWhile
  rw [hr]
  exact hpost

theorem eatWhile_stop (hp : p w.peek = false) : eatWhile p w = gettoken w false := by
  have hturn : eatTurn p w = .inr (gettoken w false) := by
    unfold eatTurn
    dsimp only
    rw [if_neg]
    exact ne_true_of_eq_false hp
  unfold eatWhile runLoop
  rw [hturn]
  rfl

theorem specialTurn_spec (h : w.core.Good) :
    ∃ r, runLoop specialTurn (w.cp.length + 1) (w, []) = some r ∧ (Scans w r.2.1 ∧ (r.2.2.length : Int) < NAMEBUF) := by
  apply runLoop_spec (fun s : html_widget_t × List Byte => Scans w s.1 ∧ (s.2.length : Int) < NAMEBUF)
    (fun s => s.1.cp.length)
  · rintro ⟨u, name⟩ s' ⟨hu, hname⟩ ht
    have hu : Scans w u := hu
    unfold specialTurn at ht
    dsimp only at ht
    split_ifs at ht with hc hroom
    · obtain ⟨hg, hlt⟩ := token_eaten hu.1 false hc.1
      have hs : Scans w (eattoken (gettoken u false).2) := ⟨hg, le_trans hlt.le hu.2⟩
      cases ht
      refine ⟨⟨hs.touch (by omega) (by omega), ?_⟩, hlt⟩
      dsimp only
      rw [length_append, length_singleton]
      push_cast
      omega
    · obtain ⟨hg, hlt⟩ := token_eaten hu.1 false hc.1
      cases ht
      exact ⟨⟨⟨hg, le_trans hlt.le hu.2⟩, hname⟩, hlt⟩
  · rintro ⟨u, name⟩ r ⟨hu, hname⟩ ht
    unfold specialTurn at ht
    dsimp only at ht
    split_ifs at ht
    cases ht
    exact ⟨hu.trans (gettoken_scans hu.1 false).1, hname⟩
  · exact ⟨Scans.refl h, (by decide : ((0 : Nat) : Int) < NAMEBUF)⟩
  · exact Nat.lt_succ_self _

theorem parse_special_scans (h : w.core.Good) : Scans w (parse_special E w).2 := by
  obtain ⟨⟨c, u, name⟩, hr, hs, hname⟩ := specialTurn_spec h
  have hs : Scans w u := hs
  have hend : Scans w ((eattoken u).touch NAMEBUF name.length) :=
    (hs.trans (eattoken_scans hs.1)).touch (by omega) hname
  -- the characters are given back
  have hback {v : html_widget_t} (hv : Scans w v) : Scans w { v with cp := w.cp, cp2 := w.cp } :=
    ⟨⟨hv.1.inside, hv.1.written, hv.1.nonzero, hv.1.ends, hv.1.wide, hv.1.lsp, le_refl _⟩, le_refl _⟩
  unfold parse_special
  rw [hr]
  dsimp only
  by_cases hc : c ≠ TOK_SEMICO
  · rw [if_pos hc]
    exact hback hs
  rw [if_neg hc]
  by_cases hnum : name.head? = some 35 ∨ name.head?.any isdigit
  · rw [if_pos hnum]
    exact hend
  rw [if_neg hnum]
  cases lookup_special_char name with
  | none => exact hback hend
  | some val => exact hend

theorem convert_special_scans (h : w.core.Good) (c : Int) : Scans w (convert_special E w c).2 := by
  unfold convert_special
  split_ifs
  · exact Scans.refl h
  · exact parse_special_scans h

structure Grown (buf buf' : List Byte) : Prop where
  start : buf <+: buf'
  longer : buf.length < buf'.length
  zero : buf'.getLast? = some 0
  room : (buf'.length : Int) ≤ ARGBUF

theorem name_rest_scans (h : w.core.Good) (buf : List Byte) {sz : Int} (last : Int) (hsz : buf.length + sz = ARGBUF)
    (h0 : 0 ≤ sz) :
    Scans w (name_rest E w buf sz last).2 ∧ ∀ buf', (name_rest E w buf sz last).1 = some buf' → Grown buf buf' := by
  have hrun : ∃ r, runLoop (nameTurn E last) (w.cp.length + 1) (w, buf, sz) = some r ∧
      (Scans w r.2.1 ∧ buf <+: r.2.2.1 ∧ r.2.2.1.length + r.2.2.2 = ARGBUF ∧ 0 ≤ r.2.2.2) := by
    apply runLoop_spec (fun s : html_widget_t × List Byte × Int =>
      Scans w s.1 ∧ buf <+: s.2.1 ∧ s.2.1.length + s.2.2 = ARGBUF ∧ 0 ≤ s.2.2) (fun s => s.1.cp.length)
    · rintro ⟨u, b, z⟩ s' ⟨hu, hb, hz, hz0⟩ ht
      have hu : Scans w u := hu
      have hz : b.length + z = ARGBUF := hz
      unfold nameTurn at ht
      dsimp only at ht
      split_ifs at ht with hc hroom
      · obtain ⟨hg, hlt⟩ := token_eaten hu.1 false hc.1
        have hs := convert_special_scans (E := E) hg (gettoken u false).1
        have hle := hs.2
        have hs' : Scans w (convert_special E (eattoken (gettoken u false).2) (gettoken u false).1).2 :=
          ⟨hs.1, le_trans hle (le_trans hlt.le hu.2)⟩
        cases ht
        refine ⟨⟨hs'.touch (by omega) (by omega), prefix_append_of_prefix hb, ?_, ?_⟩, ?_⟩
        · dsimp only
          rw [length_append, length_singleton]
          push_cast
          omega
        · dsimp only
          omega
        · exact lt_of_le_of_lt hle hlt
      · obtain ⟨hg, hlt⟩ := token_eaten hu.1 false hc.1
        have hs := convert_special_scans (E := E) hg (gettoken u false).1
        have hle := hs.2
        cases ht
        have hcp : u.cp.length ≤ w.cp.length := hu.2
        exact ⟨⟨⟨hs.1, le_trans hle (le_trans hlt.le hcp)⟩, hb, hz, hz0⟩, lt_of_le_of_lt hle hlt⟩
    · rintro ⟨u, b, z⟩ r ⟨hu, hb, hz, hz0⟩ ht
      have hu : Scans w u := hu
      unfold nameTurn at ht
      dsimp only at ht
      split_ifs at ht
      cases ht
      exact ⟨hu.trans (gettoken_scans hu.1 false).1, hb, hz, hz0⟩
    · exact ⟨Scans.refl h, prefix_refl _, hsz, h0⟩
    · exact Nat.lt_succ_self _
  obtain ⟨⟨c, u, b, z⟩, hr, hu, hb, hz, hz0⟩ := hrun
  have hu : Scans w u := hu
  have hz : b.length + z = ARGBUF := hz
  have heat : Scans w (if c ≠ TOK_GT ∧ c ≠ TOK_EQU then eattoken u else u) := by
    split_ifs
    · exact hu.trans (eattoken_scans hu.1)
    · exact hu
  unfold name_rest
  rw [hr]
  dsimp only
  by_cases hroom : z > 0
  · rw [if_pos hroom]
    refine ⟨heat.touch (by omega) (by omega), fun buf' he => ?_⟩
    cases he
    have hlen := hb.length_le
    dsimp only at hlen
    refine ⟨List.prefix_append_of_prefix hb, ?_, getLast?_concat, ?_⟩
    · rw [length_append, length_singleton]
      omega
    · rw [length_append, length_singleton]
      push_cast
      omega
  · rw [if_neg hroom]
    exact ⟨heat, fun buf' he => absurd he (by simp)⟩

def html_widget_t.next (w : html_widget_t) : Option Byte := (w.cp.dropWhile isspace).head?

variable {u : html_widget_t}

theorem space_eaten (hc : (gettoken u false).1 = TOK_SPACE) :
    (eattoken (gettoken u false).2).cp.dropWhile isspace = u.cp.dropWhile isspace := by
  have heof : ¬ TOK_EOF = TOK_SPACE := by decide
  unfold gettoken at hc ⊢
  unfold eattoken
  cases hcp : u.cp with
  | nil =>
    rw [hcp] at hc
    exact absurd hc heof
  | cons c cp =>
    rw [hcp] at hc
    dsimp only at hc ⊢
    split_ifs at hc ⊢ with hz hs
    · exact absurd hc heof
    · have h32 : (c.toNat : Int) = TOK_SPACE := hc
      have hval : TOK_SPACE = 32 := rfl
      have hspace : isspace c = true := by
        unfold isspace
        rw [decide_eq_true_eq]
        omega
      simp [hspace] at hs
    · exact dropWhile_idempotent isspace (c :: cp)

theorem gt_next (hc : (gettoken u false).1 = TOK_GT) : u.next = some 62 := by
  have heof : ¬ TOK_EOF = TOK_GT := by decide
  have hspace : ¬ TOK_SPACE = TOK_GT := by decide
  unfold html_widget_t.next
  unfold gettoken at hc
  cases hcp : u.cp with
  | nil =>
    rw [hcp] at hc
    exact absurd hc heof
  | cons c cp =>
    rw [hcp] at hc
    dsimp only at hc
    split_ifs at hc with hz hs
    · exact absurd hc heof
    · have h62 : (c.toNat : Int) = TOK_GT := hc
      have hval : TOK_GT = 62 := rfl
      have hc62 : c = 62 := by
        apply BitVec.eq_of_toNat_eq
        show c.toNat = 62
        omega
      rw [hc62]
      rfl
    · exact absurd hc hspace

theorem eatWhile_next (h : w.core.Good) (hgt : (eatWhile (fun c => c = TOK_SPACE) w).1 = TOK_GT) : w.next = some 62 := by
  have hrun : ∃ r, runLoop (eatTurn fun c => c = TOK_SPACE) (w.cp.length + 1) w = some r ∧
      (r.1 = TOK_GT → w.next = some 62) := by
    apply runLoop_spec (fun u => u.core.Good ∧ u.cp.dropWhile isspace = w.cp.dropWhile isspace) (fun u => u.cp.length)
    · rintro u u' ⟨hu, hsame⟩ ht
      unfold eatTurn at ht
      dsimp only at ht
      split_ifs at ht with hc
      rw [decide_eq_true_eq] at hc
      obtain ⟨hg, hlt⟩ := token_eaten hu false (by rw [hc]; decide)
      have hspace := space_eaten hc
      cases ht
      exact ⟨⟨hg, hspace.trans hsame⟩, hlt⟩
    · rintro u r ⟨hu, hsame⟩ ht hr
      unfold eatTurn at ht
      dsimp only at ht
      split_ifs at ht with hc
      cases ht
      have hnext := gt_next hr
      unfold html_widget_t.next at hnext ⊢
      rw [← hsame]
      exact hnext
    · exact ⟨h, rfl⟩
    · exact Nat.lt_succ_self _
  obtain ⟨r, hr, hpost⟩ := hrun
  unfold eatWhile at hgt
  rw [hr] at hgt
  exact hpost hgt

theorem Grown.of_append {buf buf' : List Byte} {c : Byte} (h : Grown (buf ++ [c]) buf') : Grown buf buf' := by
  have hlen := h.longer
  rw [length_append, length_singleton] at hlen
  exact ⟨(prefix_append buf [c]).trans h.start, by omega, h.zero, h.room⟩

theorem parse_name_scans (h : w.core.Good) (buf : List Byte) : Scans w (parse_name E w buf (ARGBUF - buf.length)).2 ∧
      ∀ buf', (parse_name E w buf (ARGBUF - buf.length)).1 = some buf' →
        w.next = some 62 ∧ (parse_name E w buf (ARGBUF - buf.length)).2.peek = TOK_GT ∧ buf' = buf ∨
          Grown buf buf' ∧ (parse_name E w buf (ARGBUF - buf.length)).2.cp.length < w.cp.length := by
  have hspace := eatWhile_scans h (p := fun c => c = TOK_SPACE) (by decide)
  have hnext := eatWhile_next h
  unfold parse_name
  by_cases hsz : ARGBUF - (buf.length : Int) ≤ 0
  · rw [if_pos hsz]
    exact ⟨Scans.refl h, fun buf' he => absurd he (by simp)⟩
  rw [if_neg hsz]
  dsimp only
  generalize eatWhile (fun c => decide (c = TOK_SPACE)) w = r at hspace hnext ⊢
  obtain ⟨hs, hpeek, -, hlt⟩ := hspace
  by_cases heof : r.1 = TOK_EOF
  · rw [if_pos heof]
    exact ⟨hs.trans (eattoken_scans hs.1), fun buf' he => absurd he (by simp)⟩
  rw [if_neg heof]
  by_cases hgt : r.1 = TOK_GT
  · rw [if_pos hgt]
    refine ⟨hs, fun buf' he => Or.inl ⟨hnext hgt, hpeek.trans hgt, ?_⟩⟩
    cases he
    rfl
  rw [if_neg hgt]
  have heat := eattoken_scans hs.1
  have hshort : (eattoken r.2).cp.length < w.cp.length := lt_of_lt_of_le (hlt heof) hs.2
  by_cases hq : r.1 = TOK_QUOT
  · rw [if_pos hq]
    obtain ⟨hn, hg⟩ := name_rest_scans (E := E) heat.1 buf TOK_QUOT
      (by omega : buf.length + (ARGBUF - buf.length) = ARGBUF) (by omega)
    exact ⟨(hs.trans heat).trans hn, fun buf' he => Or.inr ⟨hg buf' he, lt_of_le_of_lt hn.2 hshort⟩⟩
  · rw [if_neg hq]
    have hc := convert_special_scans (E := E) heat.1 r.1
    generalize convert_special E (eattoken r.2) r.1 = r' at hc ⊢
    have ht : Scans (eattoken r.2) (r'.2.touch ARGBUF buf.length) := hc.touch (by omega) (by omega)
    have hroom : (buf ++ [BitVec.ofInt 8 r'.1]).length + (ARGBUF - buf.length - 1) = ARGBUF := by simp
    obtain ⟨hn, hg⟩ := name_rest_scans (E := E) ht.1 (buf ++ [BitVec.ofInt 8 r'.1]) TOK_SPACE hroom (by omega)
    refine ⟨((hs.trans heat).trans ht).trans hn, fun buf' he => Or.inr ⟨(hg buf' he).of_append, ?_⟩⟩
    exact lt_of_le_of_lt (le_trans hn.2 ht.2) hshort

theorem bad_tag_scans (h : w.core.Good) : Scans w (bad_tag w) := by
  obtain ⟨hs, -⟩ := eatWhile_scans h (p := fun c => c ≠ TOK_EOF ∧ c ≠ TOK_GT) (by decide)
  exact hs.trans (eattoken_scans hs.1)

theorem dashTurn_spec (h : w.core.Good) (lastc : Int) : ∃ r, runLoop dashTurn (w.cp.length + 1) (w, lastc) = some r ∧
      (Scans w r.2.1 ∧ (r.1 ≠ TOK_EOF → r.2.1.cp.length < w.cp.length)) := by
  apply runLoop_spec (fun s : html_widget_t × Int => Scans w s.1) (fun s => s.1.cp.length)
  · rintro ⟨u, l⟩ s' hu ht
    have hu : Scans w u := hu
    unfold dashTurn at ht
    dsimp only at ht
    split_ifs at ht with hc hd
    obtain ⟨hg, hlt⟩ := token_eaten hu.1 false hc
    cases ht
    exact ⟨⟨hg, le_trans hlt.le hu.2⟩, hlt⟩
  · rintro ⟨u, l⟩ r hu ht
    have hu : Scans w u := hu
    unfold dashTurn at ht
    dsimp only at ht
    split_ifs at ht with hc hd
    · obtain ⟨hg, hlt⟩ := token_eaten hu.1 false hc
      cases ht
      exact ⟨⟨hg, le_trans hlt.le hu.2⟩, fun _ => lt_of_lt_of_le hlt hu.2⟩
    · cases ht
      exact ⟨hu.trans (gettoken_scans hu.1 false).1, fun hne => absurd (not_not.mp hc) hne⟩
  · exact Scans.refl h
  · exact Nat.lt_succ_self _

theorem commentTurn_scans (h : w.core.Good) (lastc : Int) :
    (∀ s', commentTurn (w, lastc) = .inl s' → Scans w s'.1 ∧ s'.1.cp.length < w.cp.length) ∧
      ∀ r, commentTurn (w, lastc) = .inr r → Scans w r := by
  obtain ⟨⟨c, u, l⟩, hr, hu, hlt⟩ := dashTurn_spec h lastc
  have hu : Scans w u := hu
  have hlt : c ≠ TOK_EOF → u.cp.length < w.cp.length := hlt
  have heat := eattoken_scans hu.1
  have hskip := eatWhile_scans heat.1 (p := fun c => c ≠ TOK_EOF ∧ isspace (BitVec.ofInt 8 c)) (by decide)
  unfold commentTurn
  dsimp only
  rw [hr]
  dsimp only
  generalize eatWhile _ (eattoken u) = r at hskip ⊢
  obtain ⟨hs, -⟩ := hskip
  have hrest : Scans u (eattoken r.2) := (heat.trans hs).trans (eattoken_scans hs.1)
  by_cases hc : c = TOK_EOF
  · rw [if_pos hc]
    refine ⟨fun s' he => absurd he (by simp), fun r' he => ?_⟩
    cases he
    exact hu.trans heat
  rw [if_neg hc]
  by_cases hend : r.1 = TOK_EOF ∨ r.1 = TOK_GT
  · rw [if_pos hend]
    refine ⟨fun s' he => absurd he (by simp), fun r' he => ?_⟩
    cases he
    exact hu.trans hrest
  · rw [if_neg hend]
    refine ⟨fun s' he => ?_, fun r' he => absurd he (by simp)⟩
    cases he
    exact ⟨hu.trans hrest, lt_of_le_of_lt hrest.2 (hlt hc)⟩

theorem parse_comment_scans (h : w.core.Good) : Scans w (parse_comment w) := by
  have hrun : ∃ r, runLoop commentTurn (w.cp.length + 1) (w, 0) = some r ∧ Scans w r := by
    apply runLoop_spec (fun s : html_widget_t × Int => Scans w s.1) (fun s => s.1.cp.length)
    · rintro ⟨u, l⟩ s' hu ht
      have hu : Scans w u := hu
      obtain ⟨hs, hlt⟩ := (commentTurn_scans hu.1 l).1 s' ht
      exact ⟨hu.trans hs, hlt⟩
    · rintro ⟨u, l⟩ r hu ht
      have hu : Scans w u := hu
      exact hu.trans ((commentTurn_scans hu.1 l).2 r ht)
    · exact Scans.refl h
    · exact Nat.lt_succ_self _
  obtain ⟨r, hr, hs⟩ := hrun
  unfold parse_comment
  rw [hr]
  exact hs

end WWindowSystem
