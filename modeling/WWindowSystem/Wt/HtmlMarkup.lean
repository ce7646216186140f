import Mathlib.Data.List.Chain
import Mathlib.Data.List.Forall2
import Mathlib.Data.List.GetD
import WWindowSystem.Wt.HtmlSafe

namespace WWindowSystem.Html

open List

def tagTurn (E : HtmlEnv) : html_widget_t × Tag → (html_widget_t × Tag) ⊕ (Mode × html_widget_t)
  | (w, t) =>
    match parse_tag_arg E w t with
    | (.arg t, w) => .inl (w, t)
    | r => .inr r

/-- `parse_tag` up to the call of the function of the tag; behind a comment or a bad tag the parser is back
in the text. -/
def parse_tag (E : HtmlEnv) (w : html_widget_t) : Option (Mode × html_widget_t) :=
  runLoop (tagTurn E) (w.cp.length + 2) (w, ⟨[], [], 0⟩)

inductive Value where
  | plain (s : List Byte)
  | quoted (s : List Byte)

def Value.bytes : Value → List Byte
  | plain s => s
  | quoted s => s

def Value.text : Value → List Byte
  | plain s => s
  | quoted s => 34 :: s ++ [34]

structure Attr where
  blanks : List Byte
  name : List Byte
  value : Option Value

def Attr.core (a : Attr) : List Byte := a.name ++ (a.value.map fun v => 61 :: v.text).getD []

def Attr.text (a : Attr) : List Byte := a.blanks ++ a.core

def Attr.size (a : Attr) : Nat := a.name.length + 1 + (a.value.map fun v => v.bytes.length + 1).getD 0

def attrsText (as : List Attr) : List Byte := as.flatMap Attr.text

def Inner (s : List Byte) : Prop := ∀ c ∈ s, c ≠ 0 ∧ c ≠ 62 ∧ c ≠ 61 ∧ c ≠ 60 ∧ c ≠ 38 ∧ c ≠ 34

def Blanks (s : List Byte) : Prop := ∀ c ∈ s, isspace c = true

structure Word (s : List Byte) : Prop where
  nonempty : s ≠ []
  inner : Inner s
  joined : ∀ c ∈ s, isspace c = false

/-- Blanks that follow each other are read as one space; `blank` says that there was one already. -/
def squeeze : Bool → List Byte → List Byte
  | _, [] => []
  | blank, c :: s =>
    if isspace c then (if blank then squeeze true s else 32 :: squeeze true s) else c :: squeeze false s

def Single (s : List Byte) : Prop := squeeze false s = s

def Value.squeezed : Value → Value
  | plain s => plain s
  | quoted s => quoted (squeeze false s)

def Value.Formed : Value → Prop
  | plain s => Word s
  | quoted s => Inner s

def Value.Fits : Value → Prop
  | plain _ => True
  | quoted s => Single s

structure Attr.Formed (a : Attr) : Prop where
  blanks : a.blanks ≠ [] ∧ Blanks a.blanks
  name : Word a.name
  value : ∀ v ∈ a.value, v.Formed

variable {E : HtmlEnv} {w w' : html_widget_t} {s v g : List Byte} {c : Byte}

theorem toNat_ne {d : Byte} (h : c ≠ d) : (c.toNat : Int) ≠ d.toNat := by
  intro he
  apply h
  exact BitVec.eq_of_toNat_eq (by exact_mod_cast he)

theorem toNat_ne_eof (c : Byte) : (c.toNat : Int) ≠ TOK_EOF := by
  unfold TOK_EOF
  omega

theorem gettoken_plain (h : w.cp = c :: s) (h0 : c ≠ 0) (hc : isspace c = false) :
    gettoken w false = ((c.toNat : Int), { w with cp2 := s }) := by
  unfold gettoken
  rw [h]
  dsimp only
  rw [if_neg h0, if_pos (Or.inl (by rw [hc]; exact Bool.false_ne_true)), ← h]

theorem gettoken_blank (h : w.cp = c :: s) (hc : isspace c = true) :
    gettoken w false = (TOK_SPACE, { w with cp2 := (c :: s).dropWhile isspace }) := by
  have h0 : c ≠ 0 := by
    rintro rfl
    cases hc
  unfold gettoken
  rw [h]
  dsimp only
  rw [if_neg h0, if_neg (by simp [hc]), ← h]

theorem drop_blanks (hg : Blanks g) (hs : ∀ d ∈ s.head?, isspace d = false) : (g ++ s).dropWhile isspace = s := by
  rw [dropWhile_append_of_pos hg]
  cases s with
  | nil => rfl
  | cons d s =>
    rw [dropWhile_cons_of_neg]
    rw [hs d rfl]
    exact Bool.false_ne_true

theorem skip_blanks {p : Int → Bool} (h : w.cp = g ++ c :: s) (hg : Blanks g) (h0 : c ≠ 0) (hc : isspace c = false)
    (hp : p TOK_SPACE = true) (hpc : p c.toNat = false) :
    ∃ w', eatWhile p w = ((c.toNat : Int), w') ∧ w'.cp = c :: s ∧ w'.cp2 = s := by
  have hstop {u : html_widget_t} (hu : u.cp = c :: s) : eatTurn p u = .inr ((c.toNat : Int), { u with cp2 := s }) := by
    unfold eatTurn
    rw [gettoken_plain hu h0 hc]
    dsimp only
    rw [if_neg (ne_true_of_eq_false hpc)]
  unfold eatWhile
  cases g with
  | nil =>
    refine ⟨{ w with cp2 := s }, ?_, h, rfl⟩
    unfold runLoop
    rw [hstop h]
    rfl
  | cons b g =>
    have hdrop : (b :: g ++ c :: s).dropWhile isspace = c :: s := drop_blanks hg (by simpa using hc)
    have hcp : (eattoken { w with cp2 := c :: s }).cp = c :: s := rfl
    refine ⟨{ eattoken { w with cp2 := c :: s } with cp2 := s }, ?_, rfl, rfl⟩
    have hblank : gettoken w false = (TOK_SPACE, { w with cp2 := (b :: g ++ c :: s).dropWhile isspace }) :=
      gettoken_blank h (hg b mem_cons_self)
    have hturn : eatTurn p w = .inl (eattoken { w with cp2 := c :: s }) := by
      unfold eatTurn
      rw [hblank]
      dsimp only
      rw [if_pos hp, hdrop]
    rw [h, cons_append, length_cons, length_append, length_cons]
    unfold runLoop
    rw [hturn]
    dsimp only
    unfold runLoop
    rw [hstop hcp]
    rfl

theorem drop_append (hs : ∀ d ∈ s.head?, isspace d = false) (v : List Byte) :
    (v ++ s).dropWhile isspace = v.dropWhile isspace ++ s := by
  induction v with
  | nil => exact drop_blanks (g := []) (by simp [Blanks]) hs
  | cons c v ih =>
    rw [cons_append, dropWhile_cons, dropWhile_cons]
    split_ifs
    · exact ih
    · rfl

theorem squeeze_drop (v : List Byte) : squeeze true v = squeeze false (v.dropWhile isspace) := by
  induction v with
  | nil => rfl
  | cons c v ih =>
    cases hc : isspace c with
    | true =>
      rw [dropWhile_cons_of_pos hc, ← ih]
      simp [squeeze, hc]
    | false =>
      rw [dropWhile_cons_of_neg (by simp [hc])]
      simp [squeeze, hc]

theorem squeeze_joined (h : ∀ c ∈ v, isspace c = false) : squeeze false v = v := by
  induction v with
  | nil => rfl
  | cons c v ih =>
    rw [squeeze, if_neg (by rw [h c mem_cons_self]; exact Bool.false_ne_true),
      ih fun d hd => h d (mem_cons_of_mem c hd)]

theorem ofInt_toNat (c : Byte) : BitVec.ofInt 8 (c.toNat : Int) = c := by
  simp

structure Goes (last : Int) (c : Byte) : Prop where
  code : c ≠ 0
  gt : c ≠ 62
  equ : c ≠ 61
  amp : c ≠ 38
  last : (c.toNat : Int) ≠ last

theorem name_turn {e k : Int} {b r : List Byte} {m : Nat} (h : gettoken w false = (k, { w with cp2 := r }))
    (heof : k ≠ TOK_EOF) (hgt : k ≠ TOK_GT) (hequ : k ≠ TOK_EQU) (hamp : k ≠ TOK_AMP) (hlast : k ≠ e) :
    ∃ w', w'.cp = r ∧
      nameTurn E e (w, b, (m : Int)) = .inl (w', b ++ [BitVec.ofInt 8 k].take m, ((m - 1 : Nat) : Int)) := by
  unfold nameTurn convert_special
  dsimp only
  rw [h]
  dsimp only
  rw [if_pos ⟨heof, hgt, hequ, hlast⟩, if_pos hamp]
  cases m with
  | zero =>
    refine ⟨eattoken { w with cp2 := r }, rfl, ?_⟩
    rw [if_neg (by simp)]
    simp
  | succ m =>
    refine ⟨(eattoken { w with cp2 := r }).touch ARGBUF b.length, rfl, ?_⟩
    rw [if_pos (by omega)]
    simp

def nameEnd (w : html_widget_t) : html_widget_t :=
  let r := gettoken w false
  if r.1 ≠ TOK_GT ∧ r.1 ≠ TOK_EQU then eattoken r.2 else r.2

def Stops (last : Int) (s : List Byte) : Prop :=
  ∀ w : html_widget_t, w.cp = s → w.peek = TOK_EOF ∨ w.peek = TOK_GT ∨ w.peek = TOK_EQU ∨ w.peek = last

variable {b : List Byte}

theorem name_loop {e : Int} {n j : Nat} (h : w.cp = v ++ s)
    (hv : ∀ c ∈ v, Goes e c) (hb : ∀ c ∈ v, isspace c = true → e ≠ TOK_SPACE ∧ ∀ d ∈ s.head?, isspace d = false)
    (hend : Stops e s) (hn : v.length < n) :
    ∃ u, u.cp = s ∧ runLoop (nameTurn E e) n (w, b, (j : Int)) = some ((gettoken u false).1, (gettoken u false).2,
      b ++ (squeeze false v).take j, ((j - (squeeze false v).length : Nat) : Int)) := by
  induction hlen : v.length using Nat.strong_induction_on generalizing v w b j n with
  | _ k ih =>
    obtain ⟨n, rfl⟩ : ∃ m, n = m + 1 := ⟨n - 1, by omega⟩
    have htake (c : Byte) (r : List Byte) : [c].take j ++ r.take (j - 1) = (c :: r).take j := by
      cases j <;> simp
    cases v with
    | nil =>
      refine ⟨w, h, ?_⟩
      have hno : ¬((gettoken w false).1 ≠ TOK_EOF ∧ (gettoken w false).1 ≠ TOK_GT ∧ (gettoken w false).1 ≠ TOK_EQU ∧
          (gettoken w false).1 ≠ e) := by
        have := hend w h
        unfold html_widget_t.peek at this
        tauto
      unfold runLoop nameTurn
      dsimp only
      rw [if_neg hno]
      simp [squeeze]
    | cons c v =>
      rw [length_cons] at hlen hn
      have hgoes := hv c mem_cons_self
      cases hc : isspace c with
      | true =>
        obtain ⟨hlast, hs⟩ := hb c mem_cons_self hc
        have hshort : (v.dropWhile isspace).length ≤ v.length := (dropWhile_sublist _).length_le
        have htok : gettoken w false = (TOK_SPACE, { w with cp2 := (c :: v ++ s).dropWhile isspace }) :=
          gettoken_blank h hc
        obtain ⟨w', hw', hturn⟩ := name_turn (E := E) (b := b) (m := j) htok (by decide) (by decide) (by decide)
          (by decide) hlast.symm
        rw [drop_append hs, dropWhile_cons_of_pos hc] at hw'
        have hin {d : Byte} (hd : d ∈ v.dropWhile isspace) : d ∈ c :: v :=
          mem_cons_of_mem c ((dropWhile_sublist _).subset hd)
        obtain ⟨u, hu, hrun⟩ := ih _ (by omega) (n := n) (j := j - 1) (b := b ++ [32].take j) hw'
          (fun d hd => hv d (hin hd)) (fun d hd => hb d (hin hd)) (by omega) rfl
        refine ⟨u, hu, ?_⟩
        unfold runLoop
        rw [hturn]
        dsimp only
        rw [squeeze, if_pos hc, if_neg Bool.false_ne_true, squeeze_drop, ← htake 32 (squeeze false _), ← append_assoc,
          length_cons, Nat.add_comm, Nat.sub_add_eq]
        exact hrun
      | false =>
        have hgt : (c.toNat : Int) ≠ TOK_GT := toNat_ne (d := 62) hgoes.gt
        have hequ : (c.toNat : Int) ≠ TOK_EQU := toNat_ne (d := 61) hgoes.equ
        have hamp : (c.toNat : Int) ≠ TOK_AMP := toNat_ne (d := 38) hgoes.amp
        have htok : gettoken w false = ((c.toNat : Int), { w with cp2 := v ++ s }) := gettoken_plain h hgoes.code hc
        obtain ⟨w', hw', hturn⟩ := name_turn (E := E) (b := b) (m := j) htok (toNat_ne_eof c) hgt hequ hamp hgoes.last
        rw [ofInt_toNat] at hturn
        obtain ⟨u, hu, hrun⟩ := ih _ (by omega) (n := n) (j := j - 1) (b := b ++ [c].take j) hw'
          (fun d hd => hv d (mem_cons_of_mem c hd)) (fun d hd => hb d (mem_cons_of_mem c hd)) (by omega) rfl
        refine ⟨u, hu, ?_⟩
        unfold runLoop
        rw [hturn]
        dsimp only
        rw [squeeze, if_neg (by rw [hc]; exact Bool.false_ne_true), ← htake c (squeeze false v), ← append_assoc, length_cons,
          Nat.add_comm, Nat.sub_add_eq]
        exact hrun

def Reads (r : Option (List Byte) × html_widget_t) (buf x : List Byte) (sz : Int) (s : List Byte) : Prop :=
  if (x.length : Int) < sz then r.1 = some (buf ++ x ++ [0]) ∧ r.2.cp = s else r.1 = none

variable {r : Option (List Byte) × html_widget_t}

theorem Reads.fits {buf x : List Byte} {sz : Int} (h : Reads r buf x sz s)
    (hsz : (x.length : Int) < sz) : r.1 = some (buf ++ x ++ [0]) ∧ r.2.cp = s := by
  rwa [Reads, if_pos hsz] at h

theorem Reads.full {buf x : List Byte} {sz : Int} (h : Reads r buf x sz s)
    (hsz : ¬ (x.length : Int) < sz) : r.1 = none := by
  rwa [Reads, if_neg hsz] at h

theorem name_rest_reads {e z : Int} (h : w.cp = v ++ s) (hv : ∀ c ∈ v, Goes e c)
    (hb : ∀ c ∈ v, isspace c = true → e ≠ TOK_SPACE ∧ ∀ d ∈ s.head?, isspace d = false)
    (hend : Stops e s) (hsz : 0 ≤ z) :
    ∃ u, u.cp = s ∧ Reads (name_rest E w b z e) b (squeeze false v) z (nameEnd u).cp := by
  have hn : v.length < w.cp.length + 1 := by
    rw [h, length_append]
    omega
  obtain ⟨m, rfl⟩ := Int.eq_ofNat_of_zero_le hsz
  obtain ⟨u, hu, hrun⟩ := name_loop (E := E) (b := b) (j := m) h hv hb hend hn
  refine ⟨u, hu, ?_⟩
  unfold name_rest Reads
  rw [hrun]
  dsimp only
  have hend : (if (gettoken u false).1 ≠ TOK_GT ∧ (gettoken u false).1 ≠ TOK_EQU then eattoken (gettoken u false).2
      else (gettoken u false).2).cp = (nameEnd u).cp := rfl
  by_cases hlt : ((squeeze false v).length : Int) < m
  · rw [if_pos hlt, if_pos (by omega), take_of_length_le (by omega)]
    exact ⟨rfl, hend⟩
  · rw [if_neg hlt, if_neg (by omega)]

def Ending (s : List Byte) : Prop := ∃ d r, s = d :: r ∧ (isspace d = true ∨ d = 62 ∨ d = 61)

theorem ending_stops (h : Ending s) : Stops TOK_SPACE s := by
  obtain ⟨d, r, rfl, hd⟩ := h
  intro w hw
  unfold html_widget_t.peek
  rcases hd with hd | rfl | rfl
  · rw [gettoken_blank hw hd]
    exact Or.inr (Or.inr (Or.inr rfl))
  · rw [gettoken_plain hw (by decide) (by decide)]
    exact Or.inr (Or.inl rfl)
  · rw [gettoken_plain hw (by decide) (by decide)]
    exact Or.inr (Or.inr (Or.inl rfl))

theorem nameEnd_ending (h : Ending s) (hw : w.cp = s) : (nameEnd w).cp = s.dropWhile isspace := by
  obtain ⟨d, r, rfl, hd⟩ := h
  unfold nameEnd
  rcases hd with hd | rfl | rfl
  · rw [gettoken_blank hw hd]
    rfl
  · rw [gettoken_plain hw (by decide) (by decide)]
    exact hw
  · rw [gettoken_plain hw (by decide) (by decide)]
    exact hw

variable {z : Int}

theorem parse_name_word (h : w.cp = g ++ v ++ s) (hg : Blanks g) (hne : v ≠ [])
    (hq : v.head? ≠ some 34) (hv : ∀ c ∈ v, Goes TOK_SPACE c) (hj : ∀ c ∈ v, isspace c = false) (hs : Ending s) :
    Reads (parse_name E w b z) b v z (s.dropWhile isspace) := by
  by_cases hsz : z ≤ 0
  · unfold parse_name Reads
    rw [if_pos hsz, if_neg (by omega)]
  obtain ⟨c, r, rfl⟩ := exists_cons_of_ne_nil hne
  have hc := hv c mem_cons_self
  have hcj := hj c mem_cons_self
  have hspace : (c.toNat : Int) ≠ TOK_SPACE := hc.last
  have hgt : (c.toNat : Int) ≠ TOK_GT := toNat_ne (d := 62) hc.gt
  have hamp : (c.toNat : Int) ≠ TOK_AMP := toNat_ne (d := 38) hc.amp
  have hquot : (c.toNat : Int) ≠ TOK_QUOT := by
    apply toNat_ne (d := 34)
    rintro rfl
    exact hq rfl
  have hcp : w.cp = g ++ c :: (r ++ s) := by simpa using h
  have hr : ∀ d ∈ r, isspace d = false := fun d hd => hj d (mem_cons_of_mem c hd)
  obtain ⟨u, hu, -, hu2⟩ := skip_blanks (p := fun c => c = TOK_SPACE) hcp hg hc.code hcj (by simp)
    (by simpa using hspace)
  have hrest : ((eattoken u).touch ARGBUF b.length).cp = r ++ s := hu2
  obtain ⟨x, hx, hname⟩ := name_rest_reads (E := E) (e := TOK_SPACE) (b := b ++ [c]) (z := z - 1) hrest
    (fun d hd => hv d (mem_cons_of_mem c hd))
    (fun d hd hsp => absurd hsp (by rw [hr d hd]; exact Bool.false_ne_true)) (ending_stops hs) (by omega)
  rw [nameEnd_ending hs hx, squeeze_joined hr] at hname
  unfold parse_name convert_special
  rw [if_neg hsz, hu]
  dsimp only
  rw [if_neg (toNat_ne_eof c), if_neg hgt, if_neg hquot, if_pos hamp, ofInt_toNat]
  unfold Reads at hname ⊢
  rw [length_cons]
  push_cast
  by_cases hlt : (r.length : Int) < z - 1
  · rw [if_pos hlt] at hname
    rw [if_pos (by omega)]
    refine ⟨?_, hname.2⟩
    rw [hname.1]
    simp
  · rw [if_neg hlt] at hname
    rwa [if_neg (by omega)]

theorem parse_name_quoted (h : w.cp = 34 :: v ++ 34 :: s) (hv : Inner v) :
    Reads (parse_name E w b z) b (squeeze false v) z s := by
  by_cases hsz : z ≤ 0
  · unfold parse_name Reads
    rw [if_pos hsz, if_neg (by omega)]
  have hquot : isspace (34 : Byte) = false := by decide
  have hcp : w.cp = [] ++ 34 :: (v ++ 34 :: s) := by simpa using h
  obtain ⟨u, hu, -, hu2⟩ := skip_blanks (p := fun c => c = TOK_SPACE) hcp (by simp [Blanks]) (by decide) hquot (by simp)
    (by decide)
  have hrest : (eattoken u).cp = v ++ 34 :: s := hu2
  have hgoes : ∀ c ∈ v, Goes TOK_QUOT c := by
    intro c hc
    obtain ⟨h0, hgt, hequ, -, hamp, hq⟩ := hv c hc
    exact ⟨h0, hgt, hequ, hamp, toNat_ne (d := 34) hq⟩
  have htok {x : html_widget_t} (hx : x.cp = 34 :: s) : gettoken x false = (TOK_QUOT, { x with cp2 := s }) :=
    gettoken_plain hx (by decide) hquot
  have hstops : Stops TOK_QUOT (34 :: s) := by
    intro x hx
    unfold html_widget_t.peek
    rw [htok hx]
    exact Or.inr (Or.inr (Or.inr rfl))
  obtain ⟨x, hx, hname⟩ := name_rest_reads (E := E) (b := b) (z := z) hrest hgoes
    (fun c _ _ => ⟨by decide, by simpa using hquot⟩) hstops (by omega)
  have hend : (nameEnd x).cp = s := by
    unfold nameEnd
    rw [htok hx]
    rfl
  rw [hend] at hname
  unfold parse_name
  rw [if_neg hsz, hu]
  dsimp only
  rw [if_neg (by decide), if_neg (by decide), if_pos (by decide)]
  exact hname

theorem parse_name_none (h : w.cp = g ++ 62 :: s) (hg : Blanks g) (hsz : 0 < z) :
    (parse_name E w b z).1 = some b ∧ (parse_name E w b z).2.cp = 62 :: s := by
  obtain ⟨u, hu, hcp, -⟩ := skip_blanks (p := fun c => c = TOK_SPACE) h hg (by decide) (by decide) (by simp) (by decide)
  unfold parse_name
  rw [if_neg (by omega), hu]
  dsimp only
  rw [if_neg (by decide), if_pos (by decide)]
  exact ⟨rfl, hcp⟩

theorem read_cp (t : Tag) (w : html_widget_t) (i : Int) (n : Nat) : (t.read w i n).cp = w.cp := rfl

theorem isComment_cp (t : Tag) (arg : Int) : (t.isComment E w arg).2.cp = w.cp := by
  unfold Tag.isComment
  dsimp only
  split_ifs
  · exact read_cp t w arg 1
  · exact (read_cp t _ (arg + 1) 1).trans (read_cp t w arg 1)
  · exact (read_cp t _ (arg + 2) 1).trans ((read_cp t _ (arg + 1) 1).trans (read_cp t w arg 1))

def dashes : List Byte := [33, 45, 45]

theorem isComment_bytes (t : Tag) :
    (t.isComment E w 0).1 = true ↔ t.byte E 0 = 33 ∧ t.byte E 1 = 45 ∧ t.byte E 2 = 45 := by
  unfold Tag.isComment
  dsimp only
  rw [show (0 : Int) + 1 = 1 by rfl, show (0 : Int) + 2 = 2 by rfl]
  by_cases h0 : t.byte E 0 = 33
  · rw [if_neg (not_not.2 h0)]
    by_cases h1 : t.byte E 1 = 45
    · rw [if_neg (not_not.2 h1)]
      simp [h0, h1]
    · rw [if_pos h1]
      exact ⟨fun h => absurd h Bool.false_ne_true, fun h => absurd h.2.1 h1⟩
  · rw [if_pos h0]
    exact ⟨fun h => absurd h Bool.false_ne_true, fun h => absurd h.1 h0⟩

theorem isComment_iff {t : Tag} (h : t.buf = v ++ [0]) : (t.isComment E w 0).1 = true ↔ dashes <+: v := by
  rw [isComment_bytes]
  unfold Tag.byte dashes
  rw [h]
  rcases v with _ | ⟨a, _ | ⟨b, _ | ⟨c, v⟩⟩⟩
  · simp
  · simp
  · simp
  · have hlen : (2 : Int) < ((a :: b :: c :: v ++ [0] : List Byte).length : Int) := by
      simp
      omega
    rw [if_pos (by omega), if_pos (by omega), if_pos hlen]
    simp [cons_prefix_cons, eq_comm]

def Stored (buf : List Byte) (i : Int) (v : List Byte) : Prop :=
  ∃ pre post, buf = pre ++ v ++ 0 :: post ∧ i = pre.length ∧ 0 ∉ v

variable {buf : List Byte} {i : Int}

theorem Stored.append (h : Stored buf i v) (x : List Byte) : Stored (buf ++ x) i v := by
  obtain ⟨pre, post, rfl, hi, hv⟩ := h
  exact ⟨pre, post ++ x, by simp, hi, hv⟩

theorem stored_last (hv : 0 ∉ v) : Stored (b ++ v ++ [0]) b.length v := ⟨b, [], rfl, rfl, hv⟩

theorem stringLength_eq {text : Int → Byte} {m n : Nat} (h : ∀ k < m, text (i + k) ≠ 0) (h0 : text (i + m) = 0)
    (hn : m < n) : stringLength text n i = m := by
  induction m generalizing n i with
  | zero =>
    obtain ⟨n, rfl⟩ : ∃ k, n = k + 1 := ⟨n - 1, by omega⟩
    rw [stringLength, if_pos (by simpa using h0)]
  | succ m ih =>
    obtain ⟨n, rfl⟩ : ∃ k, n = k + 1 := ⟨n - 1, by omega⟩
    have hi := h 0 (Nat.succ_pos m)
    rw [Nat.cast_zero, Int.add_zero] at hi
    rw [stringLength, if_neg hi, ih (n := n)]
    · intro k hk
      have := h (k + 1) (by omega)
      push_cast at this
      rwa [show i + ((k : Int) + 1) = i + 1 + k by omega] at this
    · push_cast at h0
      rwa [show i + ((m : Int) + 1) = i + 1 + m by omega] at h0
    · omega

theorem Stored.string {t : Tag} (h : Stored t.buf i v) (hroom : (t.buf.length : Int) ≤ ARGBUF) :
    t.string E i = v := by
  obtain ⟨pre, post, hbuf, rfl, hv⟩ := h
  have hmax : ARGBUF = 1024 := rfl
  have hlen : t.buf.length = pre.length + v.length + (post.length + 1) := by
    rw [hbuf, length_append, length_append, length_cons]
  have hbyte {k : Nat} (hk : k < v.length + 1) : t.byte E (pre.length + k) = (v ++ [0]).getD k 0 := by
    unfold Tag.byte
    rw [if_pos (by omega), hbuf, show ((pre.length : Int) + k).toNat = pre.length + k by omega]
    rw [append_assoc, getD_append_right _ _ _ _ (by omega), Nat.add_sub_cancel_left]
    rw [show v ++ 0 :: post = v ++ [0] ++ post by simp, getD_append]
    simpa using hk
  have hin {k : Nat} (hk : k < v.length) : t.byte E (pre.length + k) = v[k] := by
    rw [hbyte (by omega), getD_append _ _ _ _ hk, getD_eq_getElem]
  have hstr : t.stringLength E pre.length = v.length := by
    apply stringLength_eq
    · intro k hk h0
      rw [hin hk] at h0
      exact hv (h0 ▸ getElem_mem hk)
    · rw [hbyte (by omega)]
      simp
    · omega
  unfold Tag.string
  rw [hstr]
  apply ext_getElem
  · simp
  · intro k hk _
    rw [getElem_map, getElem_range]
    exact hin (by simpa using hk)

def Matches (buf : List Byte) (a : arg_t) (x : Attr) : Prop :=
  Stored buf a.arg x.name ∧ Option.Rel (fun i v => Stored buf i (Value.bytes v)) a.val x.value

theorem Matches.append {a : arg_t} {x : Attr} (h : Matches buf a x) (r : List Byte) :
    Matches (buf ++ r) a x := by
  obtain ⟨arg, val⟩ := a
  obtain ⟨blanks, name, value⟩ := x
  have hval : Option.Rel (fun i v => Stored buf i (Value.bytes v)) val value := h.2
  refine ⟨h.1.append r, ?_⟩
  cases hval with
  | none => exact Option.Rel.none
  | some hv => exact Option.Rel.some (hv.append r)

def Passes (E : HtmlEnv) (t : Tag) (items : List Attr) : Prop :=
  (t.args.take t.i.toNat).map (fun a => (t.string E a.arg, a.val.map (t.string E))) =
    items.map fun x => (x.name, x.value.map Value.bytes)

theorem matches_push {args : List arg_t} {items : List Attr} {a : arg_t} {x : Attr}
    (h : List.Forall₂ (Matches buf) args items) (r : List Byte) (hx : Matches (buf ++ r) a x) :
    List.Forall₂ (Matches (buf ++ r)) (args ++ [a]) (items ++ [x]) :=
  rel_append (h.imp fun _ _ hm => hm.append r) (List.Forall₂.cons hx List.Forall₂.nil)

theorem matches_pass {t : Tag} {args r : List arg_t} {items : List Attr} (h : List.Forall₂ (Matches t.buf) args items)
    (hargs : t.args = args ++ r) (hi : t.i = items.length) (hroom : (t.buf.length : Int) ≤ ARGBUF) :
    Passes E t items := by
  unfold Passes
  rw [hi, Int.toNat_natCast, hargs, ← h.length_eq, take_left]
  rw [← forall₂_eq_eq_eq, forall₂_map_left_iff, forall₂_map_right_iff]
  apply h.imp
  rintro ⟨arg, val⟩ ⟨blanks, name, value⟩ ⟨hname, hval⟩
  have hname : Stored t.buf arg name := hname
  have hval : Option.Rel (fun i v => Stored t.buf i (Value.bytes v)) val value := hval
  dsimp only
  rw [hname.string hroom]
  congr 1
  cases hval with
  | none => rfl
  | some hv => exact congrArg some (hv.string hroom)

theorem inner_goes (h : Inner v) (hj : ∀ c ∈ v, isspace c = false) : ∀ c ∈ v, Goes TOK_SPACE c := by
  intro c hc
  obtain ⟨h0, hgt, hequ, -, hamp, -⟩ := h c hc
  refine ⟨h0, hgt, hequ, hamp, toNat_ne (d := 32) ?_⟩
  rintro rfl
  cases hj _ hc

theorem inner_nul (h : Inner v) : 0 ∉ v := fun h0 => (h 0 h0).1 rfl

theorem Word.head (h : Word v) : v.head? ≠ some 34 := by
  intro hq
  exact (h.inner 34 (mem_of_head? hq)).2.2.2.2.2 rfl

theorem parse_word (h : w.cp = g ++ v ++ s) (hg : Blanks g) (hv : Word v) (hs : Ending s) :
    Reads (parse_name E w b z) b v z (s.dropWhile isspace) :=
  parse_name_word h hg hv.nonempty hv.head (inner_goes hv.inner hv.joined) hv.joined hs

theorem arg_turn {t : Tag} (ht : t.i < ARGMAX) (h : w.cp = g ++ v ++ s) (hg : Blanks g) (hv : Word v)
    (hs : Ending s) (hfirst : t.i ≠ 0 ∨ t.buf = [] ∧ ¬ dashes <+: v) (hroom : (t.buf.length : Int) + v.length < ARGBUF) :
    ∃ u, u.cp = s.dropWhile isspace ∧
      parse_tag_arg E w t = arg_rest E u ⟨t.buf ++ v ++ [0], t.args, t.i + 1⟩ t.buf.length := by
  have hcp : (w.touch ARGMAX t.args.length).cp = g ++ v ++ s := h
  obtain ⟨hname, hend⟩ := (parse_word (E := E) (b := t.buf) (z := ARGBUF - t.buf.length) hcp hg hv hs).fits (by omega)
  have hlen : (t.buf ++ v ++ [0]).length ≠ t.buf.length := by
    rw [length_append, length_append, length_singleton]
    omega
  unfold parse_tag_arg
  rw [if_neg (not_not.2 ht)]
  dsimp only
  generalize parse_name E (w.touch ARGMAX t.args.length) t.buf (ARGBUF - t.buf.length) = r at hname hend
  obtain ⟨_, u⟩ := r
  dsimp only at hname hend
  subst hname
  dsimp only
  rw [if_pos hlen]
  by_cases h1 : t.i + 1 = 1
  · have hbuf : t.buf = [] ∧ ¬ dashes <+: v := by
      rcases hfirst with hne | hbuf
      · omega
      · exact hbuf
    rw [if_pos h1, hbuf.1]
    rw [if_neg]
    · exact ⟨_, (isComment_cp _ _).trans hend, rfl⟩
    · rw [length_nil, Nat.cast_zero, isComment_iff (v := v) (by simp)]
      exact hbuf.2
  · rw [if_neg h1]
    exact ⟨u, hend, rfl⟩

theorem arg_turn_full {t : Tag} (ht : t.i < ARGMAX) (h : w.cp = g ++ v ++ s) (hg : Blanks g) (hv : Word v)
    (hs : Ending s) (hroom : ¬ (t.buf.length : Int) + v.length < ARGBUF) : ∃ u, parse_tag_arg E w t = (.text, u) := by
  have hcp : (w.touch ARGMAX t.args.length).cp = g ++ v ++ s := h
  have hname := (parse_word (E := E) (b := t.buf) (z := ARGBUF - t.buf.length) hcp hg hv hs).full (by omega)
  unfold parse_tag_arg
  rw [if_neg (not_not.2 ht)]
  dsimp only
  generalize parse_name E (w.touch ARGMAX t.args.length) t.buf (ARGBUF - t.buf.length) = r at hname
  obtain ⟨_, u⟩ := r
  dsimp only at hname
  subst hname
  exact ⟨_, rfl⟩

variable {k : Int}

theorem arg_rest_gt {t : Tag} (h : w.cp = 62 :: s) :
    ∃ u, u.cp = s ∧ arg_rest E w t k = (.call { t with args := t.args ++ [⟨k, none⟩] }, u) := by
  obtain ⟨u, hu, -, hcp⟩ := skip_blanks (g := []) (p := fun c => c = TOK_SPACE) h (by simp [Blanks]) (by decide)
    (by decide) (by simp) (by decide)
  refine ⟨eattoken u, hcp, ?_⟩
  unfold arg_rest
  rw [hu]
  dsimp only
  rw [if_neg (by decide), if_pos (by decide)]

theorem arg_rest_next {t : Tag} (h : w.cp = v ++ s) (hv : Word v) :
    ∃ u, u.cp = v ++ s ∧ arg_rest E w t k = (.arg { t with args := t.args ++ [⟨k, none⟩] }, u) := by
  obtain ⟨c, r, rfl⟩ := exists_cons_of_ne_nil hv.nonempty
  obtain ⟨h0, hgt, hequ, -⟩ := hv.inner c mem_cons_self
  have hc := hv.joined c mem_cons_self
  have hne : (c.toNat : Int) ≠ TOK_SPACE := (inner_goes hv.inner hv.joined c mem_cons_self).last
  obtain ⟨u, hu, hcp, -⟩ := skip_blanks (g := []) (p := fun c => c = TOK_SPACE) h (by simp [Blanks]) h0 hc (by simp)
    (by simpa using hne)
  have hgt : (c.toNat : Int) ≠ TOK_GT := toNat_ne (d := 62) hgt
  have hequ : (c.toNat : Int) ≠ TOK_EQU := toNat_ne (d := 61) hequ
  refine ⟨u, hcp, ?_⟩
  unfold arg_rest
  rw [hu]
  dsimp only
  rw [if_neg (toNat_ne_eof c), if_neg hgt, if_neg hequ]

variable {x : Value}

theorem squeezed_fits (h : x.Fits) : x.squeezed = x := by
  cases x with
  | plain v => rfl
  | quoted v => exact congrArg Value.quoted h

theorem squeeze_nul {blank : Bool} (h : 0 ∉ v) : 0 ∉ squeeze blank v := by
  induction v generalizing blank with
  | nil => simp [squeeze]
  | cons c v ih =>
    rw [mem_cons, not_or] at h
    unfold squeeze
    split_ifs
    · exact ih h.2
    · simpa using ih h.2
    · simpa using ⟨h.1, ih h.2⟩

theorem squeezed_nul_free (h : 0 ∉ x.bytes) : 0 ∉ x.squeezed.bytes := by
  cases x with
  | plain v => exact h
  | quoted v => exact squeeze_nul h

theorem parse_value (h : w.cp = x.text ++ s) (hx : x.Formed) (hs : Ending s) :
    ∃ g, Blanks g ∧ Reads (parse_name E w b z) b x.squeezed.bytes z (g ++ s.dropWhile isspace) := by
  cases x with
  | plain v => exact ⟨[], by simp [Blanks], parse_word (g := []) h (by simp [Blanks]) hx hs⟩
  | quoted v =>
    have hcp : w.cp = 34 :: v ++ 34 :: s := by
      rw [h]
      simp [Value.text]
    refine ⟨s.takeWhile isspace, fun c hc => mem_takeWhile_imp hc, ?_⟩
    rw [takeWhile_append_dropWhile]
    exact parse_name_quoted hcp hx

theorem arg_rest_equ (t : Tag) (h : w.cp = 61 :: x.text ++ s) (hx : x.Formed) (hs : Ending s) :
    ∃ g r, Blanks g ∧ Reads r t.buf x.squeezed.bytes (ARGBUF - t.buf.length) (g ++ s.dropWhile isspace) ∧
      (∀ y, r = (none, y) → arg_rest E w t k = (.text, bad_tag y)) ∧ ∀ buf y, r = (some buf, y) →
        arg_rest E w t k = (.arg { t with buf, args := t.args ++ [⟨k, some t.buf.length⟩] }, y) := by
  obtain ⟨u, hu, -, hcp⟩ := skip_blanks (g := []) (p := fun c => c = TOK_SPACE) h (by simp [Blanks]) (by decide)
    (by decide) (by simp) (by decide)
  have hcp : (eattoken u).cp = x.text ++ s := hcp
  obtain ⟨g, hg, hreads⟩ := parse_value (E := E) (b := t.buf) (z := ARGBUF - t.buf.length) hcp hx hs
  refine ⟨g, _, hg, hreads, fun y hy => ?_, fun buf y hy => ?_⟩
  · unfold arg_rest
    rw [hu]
    dsimp only
    rw [if_neg (by decide), if_neg (by decide), if_pos (by decide), hy]
  · unfold arg_rest
    rw [hu]
    dsimp only
    rw [if_neg (by decide), if_neg (by decide), if_pos (by decide), hy]

theorem arg_rest_value (t : Tag) (h : w.cp = 61 :: x.text ++ s) (hx : x.Formed) (hs : Ending s)
    (hroom : (t.buf.length : Int) + x.squeezed.bytes.length < ARGBUF) :
    ∃ g u, Blanks g ∧ u.cp = g ++ s.dropWhile isspace ∧ arg_rest E w t k =
      (.arg { t with buf := t.buf ++ x.squeezed.bytes ++ [0], args := t.args ++ [⟨k, some t.buf.length⟩] }, u) := by
  obtain ⟨g, ⟨o, u⟩, hg, hreads, -, hrest⟩ := arg_rest_equ (E := E) (k := k) t h hx hs
  obtain ⟨hname, hend⟩ := hreads.fits (by omega)
  dsimp only at hname hend
  subst hname
  exact ⟨g, u, hg, hend, hrest _ u rfl⟩

theorem arg_rest_full (t : Tag) (h : w.cp = 61 :: x.text ++ s) (hx : x.Formed) (hs : Ending s)
    (hroom : ¬ (t.buf.length : Int) + x.squeezed.bytes.length < ARGBUF) : ∃ u, arg_rest E w t k = (.text, u) := by
  obtain ⟨g, ⟨o, u⟩, -, hreads, hrest, -⟩ := arg_rest_equ (E := E) (k := k) t h hx hs
  have hnone := hreads.full (by omega)
  dsimp only at hnone
  subst hnone
  exact ⟨_, hrest u rfl⟩

def behind (as : List Attr) (blanks s : List Byte) : List Byte := attrsText as ++ blanks ++ 62 :: s

def onward (blanks s : List Byte) : List Attr → List Byte
  | [] => 62 :: s
  | a :: as => a.core ++ behind as blanks s

variable {as : List Attr} {a : Attr} {items : List Attr} {bl : List Byte} {t : Tag}

theorem behind_ending (h : ∀ b ∈ as, b.Formed) (hbl : Blanks bl) : Ending (behind as bl s) := by
  unfold behind attrsText
  cases as with
  | nil =>
    cases bl with
    | nil => exact ⟨62, s, rfl, Or.inr (Or.inl rfl)⟩
    | cons d bl => exact ⟨d, bl ++ 62 :: s, rfl, Or.inl (hbl d mem_cons_self)⟩
  | cons b as =>
    obtain ⟨hne, hblanks⟩ := (h b mem_cons_self).blanks
    obtain ⟨d, r, hd⟩ := exists_cons_of_ne_nil hne
    refine ⟨d, r ++ b.core ++ as.flatMap Attr.text ++ bl ++ 62 :: s, ?_, Or.inl (hblanks d (by simp [hd]))⟩
    rw [flatMap_cons, Attr.text, hd]
    simp

theorem core_none {r : List Byte} (hv : a.value = none) : a.core ++ r = a.name ++ r := by
  rw [Attr.core, hv]
  simp

theorem core_some {r : List Byte} (hv : a.value = some x) : a.core ++ r = a.name ++ (61 :: x.text ++ r) := by
  rw [Attr.core, hv]
  simp

theorem word_core (h : a.Formed) (r : List Byte) : ∀ d ∈ (a.core ++ r).head?, isspace d = false := by
  intro d hd
  unfold Attr.core at hd
  obtain ⟨c, v, hv⟩ := exists_cons_of_ne_nil h.name.nonempty
  rw [hv] at hd
  cases hd
  exact h.name.joined d (by simp [hv])

theorem behind_drop (h : ∀ b ∈ as, b.Formed) (hbl : Blanks bl) :
    (behind as bl s).dropWhile isspace = onward bl s as := by
  unfold behind attrsText onward
  cases as with
  | nil => exact drop_blanks hbl (by simp; decide)
  | cons b as =>
    rw [flatMap_cons, Attr.text]
    have hb := h b mem_cons_self
    have hdrop := drop_blanks hb.blanks.2 (word_core hb (behind as bl s))
    simpa [behind, attrsText] using hdrop

structure Doing (t : Tag) (items : List Attr) : Prop where
  i : t.i = items.length
  args : List.Forall₂ (Matches t.buf) t.args items

theorem Value.nul_free (h : x.Formed) : 0 ∉ x.bytes := by
  cases x with
  | plain v => exact inner_nul h.inner
  | quoted v => exact inner_nul h

theorem Doing.name (h : Doing t items) (ha : Word a.name) (hval : a.value = none) :
    Doing ⟨t.buf ++ a.name ++ [0], t.args ++ [⟨t.buf.length, none⟩], t.i + 1⟩ (items ++ [a]) := by
  constructor
  · change t.i + 1 = ((items ++ [a]).length : Int)
    rw [length_append, length_singleton, h.i]
    push_cast
    rfl
  · dsimp only
    rw [append_assoc]
    apply matches_push h.args
    refine ⟨?_, ?_⟩
    · rw [← append_assoc]
      exact stored_last (inner_nul ha.inner)
    · rw [hval]
      exact Option.Rel.none

theorem Doing.both (h : Doing t items) (ha : Word a.name) (hval : a.value = some x) (hx : 0 ∉ x.bytes) :
    Doing ⟨t.buf ++ a.name ++ [0] ++ x.bytes ++ [0],
      t.args ++ [⟨t.buf.length, some (t.buf ++ a.name ++ [0]).length⟩], t.i + 1⟩ (items ++ [a]) := by
  constructor
  · change t.i + 1 = ((items ++ [a]).length : Int)
    rw [length_append, length_singleton, h.i]
    push_cast
    rfl
  · dsimp only
    have hassoc : t.buf ++ a.name ++ [0] ++ x.bytes ++ [0] = t.buf ++ (a.name ++ [0] ++ x.bytes ++ [0]) := by simp
    have hname := (stored_last (b := t.buf) (inner_nul ha.inner)).append (x.bytes ++ [0])
    have hbytes := stored_last (b := t.buf ++ a.name ++ [0]) hx
    rw [← append_assoc] at hname
    rw [hassoc] at hname hbytes ⊢
    apply matches_push h.args
    refine ⟨hname, ?_⟩
    rw [hval]
    exact Option.Rel.some hbytes

variable {t' : Tag}

theorem tagTurn_arg (h : parse_tag_arg E w t = (.arg t', w')) : tagTurn E (w, t) = .inl (w', t') := by
  unfold tagTurn
  dsimp only
  rw [h]

theorem tagTurn_call (h : parse_tag_arg E w t = (.call t', w')) :
    tagTurn E (w, t) = .inr (.call t', w') := by
  unfold tagTurn
  dsimp only
  rw [h]

theorem end_turn (ht : t.i < ARGMAX) (h1 : 1 < t.i) (h : w.cp = g ++ 62 :: s) (hg : Blanks g)
    (hroom : (t.buf.length : Int) < ARGBUF) :
    ∃ u, u.cp = s ∧ parse_tag_arg E w t = (.call { t with args := t.args ++ [⟨t.buf.length, none⟩] }, u) := by
  have hcp : (w.touch ARGMAX t.args.length).cp = g ++ 62 :: s := h
  obtain ⟨hname, hend⟩ := parse_name_none (E := E) (b := t.buf) (z := ARGBUF - t.buf.length) hcp hg (by omega)
  unfold parse_tag_arg
  rw [if_neg (not_not.2 ht)]
  dsimp only
  generalize parse_name E (w.touch ARGMAX t.args.length) t.buf (ARGBUF - t.buf.length) = r at hname hend
  obtain ⟨_, u⟩ := r
  dsimp only at hname hend
  subst hname
  have hne : t.i ≠ 1 := by omega
  dsimp only
  rw [if_neg (not_not.2 rfl), if_neg hne]
  exact arg_rest_gt hend

def extra (items : List Attr) : Nat := if (items.getLast?.bind Attr.value).isSome then 1 else 0

def sizes (items : List Attr) : Nat := (items.map Attr.size).sum

def Opens (t : Tag) (a : Attr) : Prop := t.i ≠ 0 ∨ t.buf = [] ∧ a.value = none ∧ ¬ dashes <+: a.name

theorem Opens.later (h : Opens t a) (hv : a.value = some x) : t.i ≠ 0 := by
  rcases h with hne | hf
  · exact hne
  · rw [hv] at hf
    cases hf.2.1

def Attr.squeezed (a : Attr) : Attr := { a with value := a.value.map Value.squeezed }

theorem size_none (hv : a.value = none) : a.squeezed.size = a.name.length + 1 := by
  simp [Attr.squeezed, Attr.size, hv]

theorem size_some (hv : a.value = some x) :
    a.squeezed.size = a.name.length + 1 + (x.squeezed.bytes.length + 1) := by
  simp [Attr.squeezed, Attr.size, hv]

theorem value_turn (hi : t.i < ARGMAX) (h : w.cp = g ++ (a.core ++ behind as bl s)) (hg : Blanks g)
    (ha : Word a.name) (hv : a.value = some x) (hx : x.Formed) (hending : Ending (behind as bl s)) (ht : Doing t items)
    (hopens : Opens t a) (hroom : (t.buf.length : Int) + a.squeezed.size ≤ ARGBUF) :
    ∃ g' u t', Blanks g' ∧ u.cp = g' ++ (behind as bl s).dropWhile isspace ∧ Doing t' (items ++ [a.squeezed]) ∧
      t'.buf.length = t.buf.length + a.squeezed.size ∧ parse_tag_arg E w t = (.arg t', u) := by
  have hcp : w.cp = g ++ a.name ++ (61 :: x.text ++ behind as bl s) := by rw [h, core_some hv, append_assoc]
  have hsize := size_some hv
  obtain ⟨y, hy, hturn⟩ := arg_turn (E := E) hi hcp hg ha ⟨61, _, rfl, Or.inr (Or.inr rfl)⟩ (Or.inl (hopens.later hv))
    (by omega)
  have hy : y.cp = 61 :: x.text ++ behind as bl s := hy
  have hfits : ((t.buf ++ a.name ++ [0]).length : Int) + x.squeezed.bytes.length < ARGBUF := by
    simp
    omega
  obtain ⟨g', u, hg', hu, hrest⟩ := arg_rest_value (E := E) (k := t.buf.length)
    ⟨t.buf ++ a.name ++ [0], t.args, t.i + 1⟩ hy hx hending hfits
  refine ⟨g', u, _, hg', hu, ht.both (a := a.squeezed) ha (x := x.squeezed) (by simp [Attr.squeezed, hv])
    (squeezed_nul_free (Value.nul_free hx)), ?_, hturn.trans hrest⟩
  rw [hsize]
  simp [Attr.squeezed]
  omega

theorem turn_full (hi : t.i < ARGMAX) (h : w.cp = g ++ (a.core ++ behind as bl s)) (hg : Blanks g) (ha : Word a.name)
    (hval : ∀ x ∈ a.value, x.Formed) (hending : Ending (behind as bl s)) (hopens : Opens t a)
    (hroom : ¬ (t.buf.length : Int) + a.squeezed.size ≤ ARGBUF) : ∃ u, parse_tag_arg E w t = (.text, u) := by
  cases hv : a.value with
  | none =>
    have hcp : w.cp = g ++ a.name ++ behind as bl s := by rw [h, core_none hv, append_assoc]
    rw [size_none hv] at hroom
    exact arg_turn_full hi hcp hg ha hending (by push_cast at hroom; omega)
  | some x =>
    have hcp : w.cp = g ++ a.name ++ (61 :: x.text ++ behind as bl s) := by rw [h, core_some hv, append_assoc]
    have hequ : Ending (61 :: x.text ++ behind as bl s) := ⟨61, _, rfl, Or.inr (Or.inr rfl)⟩
    by_cases hname : (t.buf.length : Int) + a.name.length < ARGBUF
    · obtain ⟨y, hy, hturn⟩ := arg_turn (E := E) hi hcp hg ha hequ (Or.inl (hopens.later hv)) hname
      rw [size_some hv] at hroom
      obtain ⟨z, hz⟩ := arg_rest_full (E := E) (k := t.buf.length) ⟨t.buf ++ a.name ++ [0], t.args, t.i + 1⟩
        (show y.cp = 61 :: x.text ++ behind as bl s from hy) (hval x hv) hending (by
          dsimp only
          simp at hroom ⊢
          omega)
      exact ⟨z, hturn.trans hz⟩
    · exact arg_turn_full hi hcp hg ha hequ hname

theorem last_turn (hi : t.i < ARGMAX) (h : w.cp = g ++ (a.core ++ behind [] bl s)) (hg : Blanks g) (hbl : Blanks bl)
    (ha : Word a.name) (hv : a.value = none) (ht : Doing t items) (hopens : Opens t a)
    (hroom : (t.buf.length : Int) + a.squeezed.size ≤ ARGBUF) :
    ∃ u t', u.cp = s ∧ Passes E t' (items ++ [a.squeezed]) ∧ parse_tag_arg E w t = (.call t', u) := by
  have hcp : w.cp = g ++ a.name ++ behind [] bl s := by rw [h, core_none hv, append_assoc]
  rw [size_none hv] at hroom
  push_cast at hroom
  obtain ⟨u, hu, hturn⟩ := arg_turn (E := E) hi hcp hg ha (behind_ending (by simp) hbl)
    (hopens.imp id fun hf => ⟨hf.1, hf.2.2⟩) (by omega)
  rw [behind_drop (by simp) hbl] at hu
  obtain ⟨u', hu', hrest⟩ := arg_rest_gt (E := E) (t := ⟨t.buf ++ a.name ++ [0], t.args, t.i + 1⟩) (k := t.buf.length) hu
  have hdone := ht.name (a := a.squeezed) ha (by simp [Attr.squeezed, hv])
  have hlast : ((t.buf ++ a.name ++ [0]).length : Int) ≤ ARGBUF := by
    simp
    omega
  exact ⟨u', _, hu', matches_pass (r := []) hdone.args (by simp) hdone.i hlast, hturn.trans hrest⟩

theorem next_turn {b : Attr} (hi : t.i < ARGMAX) (h : w.cp = g ++ (a.core ++ behind (b :: as) bl s)) (hg : Blanks g)
    (hbl : Blanks bl) (ha : Word a.name) (hval : ∀ x ∈ a.value, x.Formed) (has : ∀ d ∈ b :: as, d.Formed)
    (ht : Doing t items) (hopens : Opens t a) (hroom : (t.buf.length : Int) + a.squeezed.size ≤ ARGBUF) :
    ∃ g' u t', Blanks g' ∧ u.cp = g' ++ (b.core ++ behind as bl s) ∧ Doing t' (items ++ [a.squeezed]) ∧
      t'.buf.length = t.buf.length + a.squeezed.size ∧ parse_tag_arg E w t = (.arg t', u) := by
  have hending : Ending (behind (b :: as) bl s) := behind_ending has hbl
  have hdrop : (behind (b :: as) bl s).dropWhile isspace = b.core ++ behind as bl s := behind_drop has hbl
  cases hv : a.value with
  | none =>
    have hcp : w.cp = g ++ a.name ++ behind (b :: as) bl s := by rw [h, core_none hv, append_assoc]
    rw [size_none hv] at hroom ⊢
    push_cast at hroom
    obtain ⟨u, hu, hturn⟩ := arg_turn (E := E) hi hcp hg ha hending (hopens.imp id fun hf => ⟨hf.1, hf.2.2⟩) (by omega)
    rw [hdrop, Attr.core, append_assoc] at hu
    obtain ⟨u', hu', hrest⟩ := arg_rest_next (E := E) (t := ⟨t.buf ++ a.name ++ [0], t.args, t.i + 1⟩)
      (k := t.buf.length) hu (has b mem_cons_self).name
    refine ⟨[], u', _, by simp [Blanks], ?_, ht.name (a := a.squeezed) ha (by simp [Attr.squeezed, hv]), ?_,
      hturn.trans hrest⟩
    · rw [hu', Attr.core]
      simp
    · simp [Attr.squeezed]
  | some x =>
    obtain ⟨g', u, t', hg', hu, hdone, hlen, hturn⟩ := value_turn (E := E) hi h hg ha hv (hval x hv) hending ht hopens hroom
    rw [hdrop] at hu
    exact ⟨g', u, t', hg', hu, hdone, hlen, hturn⟩

theorem extra_cons (b : Attr) : extra (a :: b :: as) = extra (b :: as) := by
  simp [extra]

theorem sizes_cons : sizes (a :: as) = a.size + sizes as := by
  simp [sizes]

variable {n : Nat}

theorem tag_run (h : w.cp = g ++ (a.core ++ behind as bl s)) (hg : Blanks g) (hbl : Blanks bl)
    (ha : Word a.name) (hval : ∀ x ∈ a.value, x.Formed) (has : ∀ b ∈ as, b.Formed) (ht : Doing t items)
    (hopens : Opens t a) (hcount : items.length + (as.length + 1) + extra (a :: as) ≤ 10)
    (hsize : t.buf.length + sizes ((a :: as).map Attr.squeezed) + extra (a :: as) ≤ 1024) (hn : as.length + 2 ≤ n) :
    ∃ t' u, runLoop (tagTurn E) n (w, t) = some (.call t', u) ∧ u.cp = s ∧
      Passes E t' (items ++ (a :: as).map Attr.squeezed) := by
  have hmax : ARGMAX = 10 := rfl
  have hbuf : ARGBUF = 1024 := rfl
  have hi := ht.i
  rw [map_cons, sizes_cons] at hsize
  induction as generalizing a w t g items n with
  | nil =>
    obtain ⟨n, rfl⟩ : ∃ m, n = m + 1 := ⟨n - 1, by omega⟩
    cases hv : a.value with
    | none =>
      obtain ⟨u, t', hu, hpass, hturn⟩ := last_turn (E := E) (by omega) h hg hbl ha hv ht hopens (by omega)
      refine ⟨t', u, ?_, hu, hpass⟩
      unfold runLoop
      rw [tagTurn_call hturn]
    | some x =>
      have hextra : extra [a] = 1 := by simp [extra, hv]
      rw [hextra] at hsize hcount
      rw [length_nil] at hcount hn
      obtain ⟨n, rfl⟩ : ∃ m, n = m + 1 := ⟨n - 1, by omega⟩
      have hi0 := hopens.later hv
      obtain ⟨g', u, t', hg', hu, hdone, hlen, hturn⟩ := value_turn (E := E) (by omega) h hg ha hv (hval x hv)
        (behind_ending (by simp) hbl) ht hopens (by omega)
      rw [behind_drop (by simp) hbl] at hu
      have hi' := hdone.i
      rw [length_append, length_singleton] at hi'
      obtain ⟨v, hv', hlast⟩ := end_turn (E := E) (t := t') (by omega) (by omega) hu hg' (by omega)
      refine ⟨{ t' with args := t'.args ++ [⟨t'.buf.length, none⟩] }, v, ?_, hv',
        matches_pass hdone.args rfl hdone.i (by dsimp only; omega)⟩
      unfold runLoop
      rw [tagTurn_arg hturn]
      dsimp only
      unfold runLoop
      rw [tagTurn_call hlast]
  | cons b as ih =>
    obtain ⟨n, rfl⟩ : ∃ m, n = m + 1 := ⟨n - 1, by omega⟩
    rw [extra_cons] at hsize hcount
    rw [map_cons, sizes_cons] at hsize
    rw [length_cons] at hcount hn
    have hb := has b mem_cons_self
    obtain ⟨g', u, t', hg', hu, hdone, hlen, hturn⟩ := next_turn (E := E) (by omega) h hg hbl ha hval has ht hopens
      (by omega)
    have hi' := hdone.i
    have hlength : (items ++ [a.squeezed]).length = items.length + 1 := by simp
    obtain ⟨t'', x, hrun, hx, hpass⟩ := ih (n := n) hu hg' hb.name hb.value
      (fun d hd => has d (mem_cons_of_mem b hd)) hdone (Or.inl (by omega)) (by omega) (by omega) (by omega) hi'
    refine ⟨t'', x, ?_, hx, by simpa using hpass⟩
    unfold runLoop
    rw [tagTurn_arg hturn]
    exact hrun

theorem tagTurn_text (h : parse_tag_arg E w t = (.text, w')) : tagTurn E (w, t) = .inr (.text, w') := by
  unfold tagTurn
  dsimp only
  rw [h]

theorem tagTurn_over (h : ¬ t.i < ARGMAX) : tagTurn E (w, t) = .inr (.call t, w) := by
  apply tagTurn_call
  unfold parse_tag_arg
  rw [if_pos h]

theorem run_turn {r : Mode × html_widget_t} (h : runLoop (tagTurn E) n (w, t) = some r) :
    tagTurn E (w, t) = .inr r ∨
      ∃ t' w' m, n = m + 1 ∧ tagTurn E (w, t) = .inl (w', t') ∧ runLoop (tagTurn E) m (w', t') = some r := by
  cases n with
  | zero => cases h
  | succ n =>
    unfold runLoop at h
    cases ht : tagTurn E (w, t) with
    | inl p =>
      rw [ht] at h
      exact Or.inr ⟨p.2, p.1, n, rfl, rfl, h⟩
    | inr q =>
      rw [ht] at h
      cases h
      exact Or.inl rfl

variable {u : html_widget_t}

theorem not_text (h : tagTurn E (w, t) = .inr (.text, w')) :
    runLoop (tagTurn E) n (w, t) ≠ some (.call t', u) := by
  intro hrun
  rcases run_turn hrun with hend | ⟨_, _, _, -, hinl, -⟩
  · rw [h] at hend
    cases hend
  · rw [h] at hinl
    cases hinl

theorem under {n k : Nat} (hrun : runLoop (tagTurn E) n (w, t) = some (.call t', u))
    (hargs : t.args.length = k) (hlen : k < (t'.args.take t'.i.toNat).length) : t.i < ARGMAX := by
  by_contra hno
  rcases run_turn hrun with hend | ⟨_, _, _, -, hinl, -⟩
  · rw [tagTurn_over hno] at hend
    cases hend
    rw [length_take] at hlen
    omega
  · rw [tagTurn_over hno] at hinl
    cases hinl

theorem arg_run {t₁ : Tag} {r : Mode × html_widget_t} (hrun : runLoop (tagTurn E) n (w, t) = some r)
    (h : parse_tag_arg E w t = (.arg t₁, w')) : ∃ m, runLoop (tagTurn E) m (w', t₁) = some r := by
  rcases run_turn hrun with hend | ⟨_, _, m, -, hinl, hrun⟩
  · rw [tagTurn_arg h] at hend
    cases hend
  · rw [tagTurn_arg h] at hinl
    cases hinl
    exact ⟨m, hrun⟩

theorem end_turn_full (ht : t.i < ARGMAX) (hroom : ¬ (t.buf.length : Int) < ARGBUF) :
    ∃ u, parse_tag_arg E w t = (.text, u) := by
  unfold parse_tag_arg parse_name
  rw [if_neg (not_not.2 ht)]
  dsimp only
  rw [if_pos (by omega)]
  exact ⟨_, rfl⟩

theorem tag_back (h : w.cp = g ++ (a.core ++ behind as bl s)) (hg : Blanks g)
    (hbl : Blanks bl) (ha : Word a.name) (hval : ∀ x ∈ a.value, x.Formed) (has : ∀ b ∈ as, b.Formed)
    (ht : Doing t items) (hopens : Opens t a) (hrun : runLoop (tagTurn E) n (w, t) = some (.call t', u)) (hu : u.cp = s)
    (hlen : (t'.args.take t'.i.toNat).length = items.length + (as.length + 1)) :
    items.length + (as.length + 1) + extra (a :: as) ≤ 10 ∧
      t.buf.length + sizes ((a :: as).map Attr.squeezed) + extra (a :: as) ≤ 1024 ∧
      Passes E t' (items ++ (a :: as).map Attr.squeezed) := by
  have hmax : ARGMAX = 10 := rfl
  have hbuf : ARGBUF = 1024 := rfl
  have hi := ht.i
  rw [map_cons, sizes_cons]
  induction as generalizing a w t g items n with
  | nil =>
    have hi10 : t.i < ARGMAX := under hrun ht.args.length_eq (by omega)
    have hroom : (t.buf.length : Int) + a.squeezed.size ≤ ARGBUF := by
      by_contra hno
      obtain ⟨x, hx⟩ := turn_full (E := E) hi10 h hg ha hval (behind_ending (by simp) hbl) hopens hno
      exact not_text (tagTurn_text hx) hrun
    have hnone : sizes ([].map Attr.squeezed) = 0 := rfl
    rw [hnone, length_nil]
    cases hv : a.value with
    | none =>
      obtain ⟨x, t₁, -, hpass, hturn⟩ := last_turn (E := E) hi10 h hg hbl ha hv ht hopens hroom
      have hextra : extra [a] = 0 := by simp [extra, hv]
      rw [hextra]
      rcases run_turn hrun with hend | ⟨_, _, _, -, hinl, -⟩
      · rw [tagTurn_call hturn] at hend
        cases hend
        exact ⟨by omega, by omega, hpass⟩
      · rw [tagTurn_call hturn] at hinl
        cases hinl
    | some x =>
      obtain ⟨g', u', t₁, hg', hu', hdone, hlen', hturn⟩ := value_turn (E := E) hi10 h hg ha hv (hval x hv)
        (behind_ending (by simp) hbl) ht hopens hroom
      rw [behind_drop (by simp) hbl] at hu'
      have hi₁ := hdone.i
      have hi0 := hopens.later hv
      rw [length_append, length_singleton] at hi₁
      obtain ⟨m, hrun⟩ := arg_run hrun hturn
      -- with ten arguments the loop would end before the end of the tag
      have hmore : t₁.i < ARGMAX := by
        by_contra hno
        rcases run_turn hrun with hend | ⟨_, _, _, -, hinl, -⟩
        · rw [tagTurn_over hno] at hend
          cases hend
          have hlong : (g' ++ 62 :: s).length = s.length := congrArg List.length (hu'.symm.trans hu)
          simp at hlong
          omega
        · rw [tagTurn_over hno] at hinl
          cases hinl
      have hroom₁ : (t₁.buf.length : Int) < ARGBUF := by
        by_contra hno
        obtain ⟨y, hy⟩ := end_turn_full (E := E) (w := u') hmore hno
        exact not_text (tagTurn_text hy) hrun
      obtain ⟨y, -, hlast⟩ := end_turn (E := E) hmore (by omega) hu' hg' hroom₁
      have hextra : extra [a] = 1 := by simp [extra, hv]
      rw [hextra]
      rcases run_turn hrun with hend | ⟨_, _, _, -, hinl, -⟩
      · rw [tagTurn_call hlast] at hend
        cases hend
        exact ⟨by omega, by omega, matches_pass hdone.args rfl hdone.i hroom₁.le⟩
      · rw [tagTurn_call hlast] at hinl
        cases hinl
  | cons b as ih =>
    have hb := has b mem_cons_self
    rw [length_cons] at hlen ⊢
    have hi10 : t.i < ARGMAX := under hrun ht.args.length_eq (by omega)
    have hroom : (t.buf.length : Int) + a.squeezed.size ≤ ARGBUF := by
      by_contra hno
      obtain ⟨x, hx⟩ := turn_full (E := E) hi10 h hg ha hval (behind_ending has hbl) hopens hno
      exact not_text (tagTurn_text hx) hrun
    obtain ⟨g', u', t₁, hg', hu', hdone, hlen', hturn⟩ := next_turn (E := E) hi10 h hg hbl ha hval has ht hopens hroom
    have hi₁ := hdone.i
    have hlength : (items ++ [a.squeezed]).length = items.length + 1 := by simp
    obtain ⟨m, hrun⟩ := arg_run hrun hturn
    obtain ⟨hcount, hsize, hpass⟩ := ih hu' hg' hb.name hb.value (fun d hd => has d (mem_cons_of_mem b hd)) hdone
      (Or.inl (by omega)) hrun (by omega) hi₁
    rw [extra_cons, map_cons, sizes_cons]
    exact ⟨by omega, by omega, by simpa using hpass⟩

structure Quiet (v : List Byte) : Prop where
  code : 0 ∉ v
  dashes : v.IsChain fun c d => ¬ (c = 45 ∧ d = 45)
  last : v.getLast? ≠ some 45

theorem Quiet.tail (h : Quiet (c :: v)) : Quiet v := by
  refine ⟨fun h0 => h.code (mem_cons_of_mem c h0), h.dashes.tail, ?_⟩
  cases v with
  | nil => simp
  | cons d v =>
    have hlast := h.last
    rwa [getLast?_cons_cons] at hlast

theorem Quiet.drop (h : Quiet v) (p : Byte → Bool) : Quiet (v.dropWhile p) := by
  induction v with
  | nil => exact h
  | cons c v ih =>
    rw [dropWhile_cons]
    split_ifs
    · exact ih h.tail
    · exact h

theorem Quiet.cons (h : Quiet v) (h0 : c ≠ 0) (hc : c ≠ 45) : Quiet (c :: v) := by
  refine ⟨?_, ?_, ?_⟩
  · intro hmem
    rcases mem_cons.1 hmem with rfl | hmem
    · exact h0 rfl
    · exact h.code hmem
  · cases v with
    | nil => exact isChain_singleton c
    | cons d v => exact isChain_cons_cons.2 ⟨fun hd => hc hd.1, h.dashes⟩
  · cases v with
    | nil => simpa using hc
    | cons d v =>
      rw [getLast?_cons_cons]
      exact h.last

theorem dropWhile_dash (v s : List Byte) : (v ++ 45 :: s).dropWhile isspace = v.dropWhile isspace ++ 45 :: s := by
  induction v with
  | nil =>
    rw [nil_append, dropWhile_cons_of_neg (by decide)]
    rfl
  | cons c v ih =>
    rw [cons_append, dropWhile_cons, dropWhile_cons]
    split_ifs
    · exact ih
    · rfl

variable {l : Int}

theorem dash_token (h : w.cp = 45 :: s) (hlast : l ≠ 45) :
    dashTurn (w, l) = .inl (eattoken { w with cp2 := s }, 45) := by
  unfold dashTurn
  dsimp only
  rw [gettoken_plain h (by decide) (by decide)]
  dsimp only
  rw [if_pos (by decide), if_neg (fun hc => hlast hc.1)]
  rfl

theorem dash_loop (h : w.cp = v ++ 45 :: 45 :: s) (hv : Quiet v)
    (hlast : l = 45 → ∃ c ∈ v.head?, c ≠ 45) (hn : v.length + 2 ≤ n) :
    ∃ u k, u.cp = s ∧ u.cp2 = s ∧ runLoop dashTurn n (w, l) = some (45, u, k) := by
  induction hlen : v.length using Nat.strong_induction_on generalizing v w l n with
  | _ j ih =>
    obtain ⟨n, rfl⟩ : ∃ m, n = m + 1 := ⟨n - 1, by omega⟩
    cases v with
    | nil =>
      obtain ⟨n, rfl⟩ : ∃ m, n = m + 1 := ⟨n - 1, by simp at hn; omega⟩
      have hne : l ≠ 45 := by
        intro hl
        obtain ⟨c, hc, -⟩ := hlast hl
        cases hc
      have hcp : (eattoken { w with cp2 := 45 :: s }).cp = 45 :: s := rfl
      refine ⟨eattoken { eattoken { w with cp2 := 45 :: s } with cp2 := s }, 45, rfl, rfl, ?_⟩
      unfold runLoop
      rw [dash_token h hne]
      dsimp only
      unfold runLoop dashTurn
      dsimp only
      rw [gettoken_plain hcp (by decide) (by decide)]
      dsimp only
      rw [if_pos (by decide), if_pos ⟨rfl, rfl⟩]
      rfl
    | cons c v =>
      rw [length_cons] at hlen hn
      have h0 : c ≠ 0 := fun hc => hv.code (hc ▸ mem_cons_self)
      cases hc : isspace c with
      | true =>
        have hshort : (v.dropWhile isspace).length ≤ v.length := (dropWhile_sublist _).length_le
        have hcp : (eattoken { w with cp2 := (c :: v ++ 45 :: 45 :: s).dropWhile isspace }).cp =
            v.dropWhile isspace ++ 45 :: 45 :: s := by
          change (c :: v ++ 45 :: 45 :: s).dropWhile isspace = _
          rw [dropWhile_dash, dropWhile_cons_of_pos hc]
        obtain ⟨u, k, hu, hu2, hrun⟩ := ih _ (by omega) (n := n) (l := TOK_SPACE) hcp (hv.tail.drop isspace)
          (fun hl => absurd hl (by decide)) (by omega) rfl
        refine ⟨u, k, hu, hu2, ?_⟩
        have htok : gettoken w false = (TOK_SPACE, { w with cp2 := (c :: v ++ 45 :: 45 :: s).dropWhile isspace }) :=
          gettoken_blank h hc
        unfold runLoop dashTurn
        dsimp only
        rw [htok]
        dsimp only
        rw [if_pos (by decide), if_neg (fun hd => absurd hd.2 (by decide))]
        exact hrun
      | false =>
        have hpair : ¬ (l = 45 ∧ (c.toNat : Int) = 45) := by
          rintro ⟨hl, hd⟩
          obtain ⟨d, hd', hne⟩ := hlast hl
          cases hd'
          exact toNat_ne (d := 45) hne hd
        have hcp : (eattoken { w with cp2 := v ++ 45 :: 45 :: s }).cp = v ++ 45 :: 45 :: s := rfl
        have hnext : (c.toNat : Int) = 45 → ∃ d ∈ v.head?, d ≠ 45 := by
          intro hd
          have hd : c = 45 := by
            by_contra hne
            exact toNat_ne (d := 45) hne hd
          cases v with
          | nil => exact absurd (by rw [hd]; rfl) hv.last
          | cons e v =>
            have hchain := hv.dashes
            rw [isChain_cons_cons] at hchain
            exact ⟨e, rfl, fun he => hchain.1 ⟨hd, he⟩⟩
        obtain ⟨u, k, hu, hu2, hrun⟩ := ih v.length (by omega) (n := n) hcp hv.tail hnext (by omega) rfl
        refine ⟨u, k, hu, hu2, ?_⟩
        have htok : gettoken w false = ((c.toNat : Int), { w with cp2 := v ++ 45 :: 45 :: s }) := gettoken_plain h h0 hc
        unfold runLoop dashTurn
        dsimp only
        rw [htok]
        dsimp only
        rw [if_pos (toNat_ne_eof c), if_neg hpair]
        exact hrun

/-- What `parse_comment` can read up to the end of the comment. Behind two dashes, and blanks there, it eats the next
character whatever it is, and takes the one behind it as if a dash stood before it. -/
inductive Calm : List Byte → Prop where
  | quiet {v : List Byte} (h : Quiet v) : Calm v
  | skip {q g v : List Byte} {c d : Byte} (hq : Quiet q) (hg : Blanks g) (hc : c ≠ 0 ∧ c ≠ 62 ∧ c ≠ 45)
      (hj : isspace c = false) (hd : d ≠ 45) (hv : Calm (d :: v)) : Calm (q ++ 45 :: 45 :: (g ++ c :: d :: v))

theorem Calm.cons (h : Calm v) (h0 : c ≠ 0) (hc : c ≠ 45) : Calm (c :: v) := by
  cases h with
  | quiet h => exact .quiet (h.cons h0 hc)
  | skip hq hg hc' hj hd hv => exact .skip (hq.cons h0 hc) hg hc' hj hd hv

theorem Calm.drop (h : Calm v) : Calm (v.dropWhile isspace) := by
  cases h with
  | quiet h => exact .quiet (h.drop isspace)
  | skip hq hg hc' hj hd hv =>
    rw [dropWhile_dash]
    exact .skip (hq.drop isspace) hg hc' hj hd hv

theorem comment_loop (hv : Calm v) (h : w.cp = v ++ 45 :: 45 :: (g ++ 62 :: s)) (hg : Blanks g)
    (hlast : l = 45 → ∃ c ∈ v.head?, c ≠ 45) (hn : v.length < n) :
    ∃ u, runLoop commentTurn n (w, l) = some u ∧ u.cp = s := by
  induction hv generalizing w l n with
  | @quiet v hv =>
    obtain ⟨n, rfl⟩ : ∃ m, n = m + 1 := ⟨n - 1, by omega⟩
    have hlen : v.length + 2 ≤ w.cp.length + 1 := by
      rw [h, length_append, length_cons, length_cons]
      omega
    obtain ⟨u, k, -, hu2, hrun⟩ := dash_loop (l := l) h hv hlast hlen
    have hcp : (eattoken u).cp = g ++ 62 :: s := hu2
    obtain ⟨x, hx, -, hx2⟩ := skip_blanks (p := fun c => c ≠ TOK_EOF ∧ isspace (BitVec.ofInt 8 c)) hcp hg (by decide)
      (by decide) (by decide) (by decide)
    have hturn : commentTurn (w, l) = .inr (eattoken x) := by
      unfold commentTurn
      dsimp only
      rw [hrun]
      dsimp only
      rw [if_neg (by decide), hx]
      dsimp only
      rw [if_pos (Or.inr (by decide))]
    refine ⟨eattoken x, ?_, hx2⟩
    unfold runLoop
    rw [hturn]
  | @skip q g' v c d hq hg' hc hj hd hv ih =>
    obtain ⟨n, rfl⟩ : ∃ m, n = m + 1 := ⟨n - 1, by omega⟩
    have hcp : w.cp = q ++ 45 :: 45 :: (g' ++ c :: (d :: v ++ 45 :: 45 :: (g ++ 62 :: s))) := by simpa using h
    have hlen : q.length + 2 ≤ w.cp.length + 1 := by
      rw [hcp, length_append, length_cons, length_cons]
      omega
    have hlast' : l = 45 → ∃ c ∈ q.head?, c ≠ 45 := by
      intro hl
      obtain ⟨e, he, hne⟩ := hlast hl
      cases q with
      | nil =>
        cases he
        exact absurd rfl hne
      | cons f q => exact ⟨e, he, hne⟩
    obtain ⟨u, k, -, hu2, hrun⟩ := dash_loop (l := l) hcp hq hlast' hlen
    have hcp : (eattoken u).cp = g' ++ c :: (d :: v ++ 45 :: 45 :: (g ++ 62 :: s)) := hu2
    have hbyte : isspace (BitVec.ofInt 8 (c.toNat : Int)) = false := by
      rw [ofInt_toNat]
      exact hj
    obtain ⟨x, hx, -, hx2⟩ := skip_blanks (p := fun c => c ≠ TOK_EOF ∧ isspace (BitVec.ofInt 8 c)) hcp hg' hc.1 hj
      (by decide) (by simp only [hbyte]; simp)
    have hgt : (c.toNat : Int) ≠ TOK_GT := toNat_ne (d := 62) hc.2.1
    have hturn : commentTurn (w, l) = .inl (eattoken x, k) := by
      unfold commentTurn
      dsimp only
      rw [hrun]
      dsimp only
      rw [if_neg (by decide), hx]
      dsimp only
      rw [if_neg (not_or.2 ⟨toNat_ne_eof c, hgt⟩)]
    have hshort : (d :: v).length < n := by
      simp at hn ⊢
      omega
    obtain ⟨y, hy, hys⟩ := ih (w := eattoken x) (l := k) hx2 (fun _ => ⟨d, rfl, hd⟩) hshort
    refine ⟨y, ?_, hys⟩
    unfold runLoop
    rw [hturn]
    exact hy

theorem parse_comment_calm (h : w.cp = v ++ 45 :: 45 :: (g ++ 62 :: s)) (hv : Calm v) (hg : Blanks g) :
    (parse_comment w).cp = s := by
  have hlen : v.length < w.cp.length + 1 := by
    rw [h, length_append]
    omega
  obtain ⟨u, hrun, hu⟩ := comment_loop (l := 0) hv h hg (fun hl => absurd hl (by decide)) hlen
  unfold parse_comment
  rw [hrun]
  exact hu

inductive Markup where
  | tag (name : List Byte) (attrs : List Attr) (blanks : List Byte)
  | comment (body gap : List Byte)

def Markup.text : Markup → List Byte
  | tag name attrs blanks => name ++ attrsText attrs ++ blanks ++ [62]
  | comment body gap => dashes ++ body ++ [45, 45] ++ gap ++ [62]

def Markup.Formed : Markup → Prop
  | tag name attrs blanks => Word name ∧ ¬ dashes <+: name ∧ (∀ a ∈ attrs, a.Formed) ∧ Blanks blanks
  | comment body gap => 0 ∉ body ∧ Blanks gap ∧
      ∀ u g v, body ++ [45, 45] ++ gap ++ [62] = u ++ [45, 45] ++ g ++ [62] ++ v → Blanks g → body.length ≤ u.length

def arguments (name : List Byte) (attrs : List Attr) : List Attr := ⟨[], name, none⟩ :: attrs

def Markup.Whole (E : HtmlEnv) (m : Markup) : Prop :=
  ∀ (w : html_widget_t) (s : List Byte), w.cp = m.text ++ s →
    match m with
    | tag name attrs _ => ∃ t u, parse_tag E w = some (.call t, u) ∧ u.cp = s ∧ Passes E t (arguments name attrs)
    | comment _ _ => ∃ u, parse_tag E w = some (.text, u) ∧ u.cp = s

/-- The arguments of a tag fit into its arrays, and the blanks of its quoted values are single spaces. The first
word of a comment ends before the comment does, and what follows does not look like its end. -/
def Markup.Plain : Markup → Prop
  | tag name attrs _ => (∀ a ∈ attrs, ∀ x ∈ a.value, x.Fits) ∧
      (arguments name attrs).length + extra (arguments name attrs) ≤ 10 ∧
      sizes (arguments name attrs) + extra (arguments name attrs) ≤ 1024
  | comment body _ => ∃ first d v, body = first ++ d :: v ∧ (∀ c ∈ first, Goes TOK_SPACE c ∧ isspace c = false) ∧
      (isspace d = true ∨ d = 62 ∨ d = 61) ∧ (dashes ++ first).length < 1024 ∧ Calm v

theorem squeezed_bytes (h : x.squeezed.bytes = x.bytes) : x.Fits := by
  cases x with
  | plain v => trivial
  | quoted v => exact h

theorem squeezed_same {l : List Attr}
    (h : (l.map Attr.squeezed).map (fun x => (x.name, x.value.map Value.bytes)) = l.map fun x => (x.name, x.value.map Value.bytes)) :
    ∀ a ∈ l, ∀ x ∈ a.value, x.Fits := by
  rw [map_map, map_inj_left] at h
  intro a ha x hx
  have hsame := (Prod.mk.inj (h a ha)).2
  rw [Option.mem_def] at hx
  apply squeezed_bytes
  simpa [Attr.squeezed, hx] using hsame

theorem squeezed_items {l : List Attr} (h : ∀ a ∈ l, ∀ x ∈ a.value, x.Fits) : l.map Attr.squeezed = l := by
  refine (map_congr_left ?_).trans (map_id l)
  rintro ⟨blanks, name, value⟩ ha
  cases value with
  | none => rfl
  | some x =>
    unfold Attr.squeezed
    dsimp only
    rw [Option.map_some, squeezed_fits (h _ ha x rfl)]
    rfl

variable {name : List Byte} {blanks : List Byte} {attrs : List Attr}

theorem tag_whole (hm : (Markup.tag name attrs blanks).Formed)
    (hp : (Markup.tag name attrs blanks).Plain) : (Markup.tag name attrs blanks).Whole E := by
  obtain ⟨hname, hopen, hattrs, hbl⟩ := hm
  obtain ⟨hfits, hcount, hsize⟩ := hp
  intro w s h
  have hcp : w.cp = [] ++ ((⟨[], name, none⟩ : Attr).core ++ behind attrs blanks s) := by
    rw [h, Markup.text, Attr.core, behind]
    simp
  have hlen : ∀ as : List Attr, (∀ a ∈ as, a.Formed) → as.length ≤ (attrsText as).length := by
    intro as has
    induction as with
    | nil => exact Nat.le_refl 0
    | cons a as ih =>
      have ha := length_pos_of_ne_nil (has a mem_cons_self).blanks.1
      have := ih fun b hb => has b (mem_cons_of_mem a hb)
      rw [attrsText, flatMap_cons, length_append, Attr.text, length_append, length_cons]
      unfold attrsText at this
      omega
  have hfuel : attrs.length + 2 ≤ w.cp.length + 2 := by
    have := hlen attrs hattrs
    rw [h, Markup.text]
    simp only [length_append]
    omega
  have hall : ∀ a ∈ arguments name attrs, ∀ x ∈ a.value, x.Fits := by
    intro a ha
    rcases mem_cons.1 ha with rfl | ha
    · simp
    · exact hfits a ha
  have hsame := squeezed_items hall
  unfold arguments at hcount hsize hsame ⊢
  rw [length_cons] at hcount
  obtain ⟨t, u, hrun, hu, hpass⟩ := tag_run (E := E) hcp (by simp [Blanks]) hbl hname (by simp) hattrs
    (⟨rfl, List.Forall₂.nil⟩ : Doing ⟨[], [], 0⟩ []) (Or.inr ⟨rfl, rfl, hopen⟩)
    (by rw [length_nil, Nat.zero_add]; exact hcount)
    (by rw [hsame, length_nil, Nat.zero_add]; exact hsize) hfuel
  rw [hsame] at hpass
  exact ⟨t, u, hrun, hu, hpass⟩

theorem comment_whole {body gap : List Byte} (hm : (Markup.comment body gap).Formed)
    (hp : (Markup.comment body gap).Plain) : (Markup.comment body gap).Whole E := by
  obtain ⟨-, hgap, -⟩ := hm
  obtain ⟨first, d, v, rfl, hfirst, hd, hroom, hv⟩ := hp
  intro w s h
  obtain ⟨v', hdrop, hv'⟩ : ∃ v', (d :: v ++ 45 :: 45 :: (gap ++ 62 :: s)).dropWhile isspace =
      v' ++ 45 :: 45 :: (gap ++ 62 :: s) ∧ Calm v' := by
    refine ⟨(d :: v).dropWhile isspace, dropWhile_dash _ _, ?_⟩
    rw [dropWhile_cons]
    split_ifs with hc
    · exact hv.drop
    · rcases hd with hd | rfl | rfl
      · exact absurd hd hc
      · exact hv.cons (by decide) (by decide)
      · exact hv.cons (by decide) (by decide)
  have hcp : (w.touch ARGMAX 0).cp = [] ++ (dashes ++ first) ++ (d :: v ++ 45 :: 45 :: (gap ++ 62 :: s)) := by
    change w.cp = _
    rw [h, Markup.text]
    simp
  have hdash : ∀ c ∈ dashes, Goes TOK_SPACE c ∧ isspace c = false := by
    have hone {c : Byte} (hc : c = 33 ∨ c = 45) : Goes TOK_SPACE c ∧ isspace c = false := by
      rcases hc with rfl | rfl
      · exact ⟨⟨by decide, by decide, by decide, by decide, by decide⟩, by decide⟩
      · exact ⟨⟨by decide, by decide, by decide, by decide, by decide⟩, by decide⟩
    intro c hc
    apply hone
    simpa [dashes] using hc
  have hword : ∀ c ∈ dashes ++ first, Goes TOK_SPACE c ∧ isspace c = false := by
    intro c hc
    rcases mem_append.1 hc with hc | hc
    · exact hdash c hc
    · exact hfirst c hc
  have hreads {z : Int} : Reads (parse_name E (w.touch ARGMAX 0) [] z) [] (dashes ++ first) z
      ((d :: v ++ 45 :: 45 :: (gap ++ 62 :: s)).dropWhile isspace) :=
    parse_name_word hcp (by simp [Blanks]) (by simp [dashes]) (by simp [dashes]) (fun c hc => (hword c hc).1)
      (fun c hc => (hword c hc).2) ⟨d, _, rfl, hd⟩
  have hlt : ((dashes ++ first).length : Int) < ARGBUF := by
    unfold ARGBUF
    omega
  obtain ⟨hname, hend⟩ := hreads.fits hlt
  rw [hdrop] at hend
  have hturn : ∃ u, u.cp = v' ++ 45 :: 45 :: (gap ++ 62 :: s) ∧
      parse_tag_arg E w ⟨[], [], 0⟩ = (.text, parse_comment u) := by
    unfold parse_tag_arg
    rw [if_neg (by decide)]
    dsimp only
    rw [length_nil, length_nil, Nat.cast_zero, sub_zero]
    generalize parse_name E (w.touch ARGMAX 0) [] ARGBUF = r at hname hend
    obtain ⟨_, u⟩ := r
    dsimp only at hname hend
    subst hname
    have hlen : ([] ++ (dashes ++ first) ++ [0] : List Byte).length ≠ 0 := by simp
    have hstart (u : html_widget_t) : (Tag.isComment E ⟨[] ++ (dashes ++ first) ++ [0], [], 0 + 1⟩ u 0).1 = true :=
      (isComment_iff (v := dashes ++ first) rfl).2 (prefix_append dashes first)
    dsimp only
    rw [if_pos hlen, if_pos (show (0 : Int) + 1 = 1 from rfl), if_pos (hstart u)]
    exact ⟨_, (isComment_cp _ _).trans hend, rfl⟩
  obtain ⟨u, hu, hturn⟩ := hturn
  refine ⟨parse_comment u, ?_, parse_comment_calm hu hv' hgap⟩
  unfold parse_tag runLoop tagTurn
  dsimp only
  rw [hturn]

theorem tag_plain (hm : (Markup.tag name attrs blanks).Formed)
    (hw : (Markup.tag name attrs blanks).Whole E) : (Markup.tag name attrs blanks).Plain := by
  obtain ⟨hname, hopen, hattrs, hbl⟩ := hm
  obtain ⟨t, u, hrun, hu, hpass⟩ := hw { plainWidget with cp := (Markup.tag name attrs blanks).text } []
    (append_nil _).symm
  have hcp : ({ plainWidget with cp := (Markup.tag name attrs blanks).text } : html_widget_t).cp =
      [] ++ ((⟨[], name, none⟩ : Attr).core ++ behind attrs blanks []) := by
    change (Markup.tag name attrs blanks).text = _
    rw [Markup.text, Attr.core, behind]
    simp
  have hlen := congrArg List.length hpass
  rw [length_map, length_map, arguments, length_cons] at hlen
  obtain ⟨hcount, hsize, hback⟩ := tag_back hcp (by simp [Blanks]) hbl hname (by simp) hattrs
    (⟨rfl, List.Forall₂.nil⟩ : Doing ⟨[], [], 0⟩ []) (Or.inr ⟨rfl, rfl, hopen⟩) hrun hu
    (by rw [hlen, length_nil, Nat.zero_add])
  have hfits := squeezed_same (l := arguments name attrs) (hback.symm.trans hpass)
  have hsame := squeezed_items hfits
  unfold arguments at hsame hfits
  rw [hsame] at hsize
  rw [length_nil, Nat.zero_add] at hcount hsize
  exact ⟨fun a ha => hfits a (mem_cons_of_mem _ ha), hcount, hsize⟩

theorem markup_whole {m : Markup} (hm : m.Formed) :
    match m with
    | .tag _ _ _ => m.Whole E ↔ m.Plain
    | .comment _ _ => m.Plain → m.Whole E := by
  cases m with
  | tag name attrs blanks => exact ⟨tag_plain hm, tag_whole hm⟩
  | comment body gap => exact comment_whole hm

theorem markup_whole_link : (Markup.tag (cstring "a") [⟨[32], cstring "href", some (.quoted (cstring "x y"))⟩] [10]).Whole
    plainEnv := by
  apply (markup_whole (m := .tag _ _ _) ?_).2
  · refine ⟨?_, by decide, by decide⟩
    intro a ha x hx
    rw [List.mem_singleton.1 ha] at hx
    cases hx
    unfold Value.Fits Single
    decide
  · refine ⟨⟨by decide, by unfold Inner; decide, by decide⟩, by decide, ?_, by unfold Blanks; decide⟩
    intro a ha
    rw [List.mem_singleton.1 ha]
    refine ⟨⟨by decide, by unfold Blanks; decide⟩, ⟨by decide, by unfold Inner; decide, by decide⟩, ?_⟩
    intro x hx
    cases hx
    unfold Value.Formed Inner
    decide

/-- In `<!--x-->` the end of the comment is read as a part of its first word. -/
theorem tight_comment_swallows : ¬ ∀ (E : HtmlEnv) (m : Markup), m.Formed → m.Whole E := by
  intro h
  have hformed : (Markup.comment (cstring "x") []).Formed := by
    refine ⟨by decide, by simp [Blanks], ?_⟩
    intro u g v he _
    cases u with
    | nil => exact absurd (congrArg List.head? he) (by simp [cstring])
    | cons d u => simp [cstring]
  obtain ⟨u, hu, hcp⟩ := h plainEnv _ hformed { plainWidget with cp := cstring "!--x-->a" } (cstring "a") (by decide)
  have hrun : (parse_tag plainEnv { plainWidget with cp := cstring "!--x-->a" }).map (fun r => r.2.cp) = some [] := by
    decide +kernel
  rw [hu, Option.map_some, hcp] at hrun
  exact absurd hrun (by decide)

end WWindowSystem.Html
