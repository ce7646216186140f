import Mathlib.Data.List.Basic
import WWindowSystem.Library.Words

namespace WWindowSystem.Edittext

open List

def advance (tab idx : Nat) (c : Byte) : Nat := if c = 0x09 then (idx + tab) / tab * tab else idx + 1

def offset2window (tab : Nat) (str : List Byte) (count : Nat) : Nat := (str.take count).foldl (advance tab) 0

def offsetFrom (tab idx : Nat) (x : Nat) : List Byte → Nat
  | [] => 0
  | c :: s => if idx < x then offsetFrom tab (advance tab idx c) x s + 1 else 0

def window2offset (tab : Nat) (str : List Byte) (x : Nat) : Nat := offsetFrom tab 0 x str

structure Widget where
  lines : List (List Byte)
  lineno : Nat
  offset : Nat
  columns : Nat
  tabsize : Nat
  wrap : Nat
  deriving DecidableEq

def Widget.line (w : Widget) (y : Nat) : List Byte := w.lines.getD y []

def backWord (s : List Byte) (blank : Byte → Bool) : Nat → Nat
  | 0 => 0
  | n + 1 => if blank (s.getD (n + 1) 0) then n + 1 else backWord s blank n

def isBlank (c : Byte) : Bool := c.toNat ≤ 32

/-- The loop that looks for the words that fit into `room` columns; `diff` is what a tab at `tab_off` adds.
Each round makes `len2` smaller. -/
def fitWords (tab : Nat) (s : List Byte) (tab_off : Nat) (diff room : Int) : Nat → Nat → Option Nat
  | 0, _ => none
  | fuel + 1, len2 =>
    let n := backWord s (fun c => !isBlank c) (backWord s isBlank (len2 - 1))
    if n = 0 then none
    else if offset2window tab s (n + 1) + (if n + 1 > tab_off then diff else 0) > room then fitWords tab s tab_off diff room fuel (n + 1)
    else some (n + 1)

def join_lines (w : Widget) : Widget :=
  match w.lines[w.lineno + 1]? with
  | none => w
  | some str2 =>
    let str := w.line w.lineno
    if str = [] then { w with lines := w.lines.eraseIdx w.lineno, offset := 0 }
    else
      let tab := w.tabsize
      let fin : Int := offset2window tab str str.length
      if fin > w.wrap then w
      else
        let len2 := str2.length
        let tab_off := (str2.takeWhile (· ≠ 0x09)).length
        let diff : Int := if tab_off < len2 then (fin + tab_off + tab) / tab * tab - (tab_off + tab) / tab * tab - fin else 0
        if fin + offset2window tab str2 len2 + diff ≤ w.wrap then
          { w with lines := (w.lines.set w.lineno (str ++ str2)).eraseIdx (w.lineno + 1) }
        else
          match fitWords tab str2 tab_off diff (w.wrap - fin) len2 len2 with
          | none => w
          | some n =>
            { w with lines := (w.lines.set w.lineno (str ++ str2.take n)).set (w.lineno + 1) ((str2.drop n).dropWhile isBlank) }

structure Selection where
  x0 : Nat
  y0 : Nat
  x1 : Nat
  y1 : Nat

def Selection.ordered (s : Selection) : Selection :=
  if s.y0 > s.y1 then ⟨s.x1, s.y1, s.x0, s.y0⟩
  else if s.y0 = s.y1 ∧ s.x0 > s.x1 then { s with x0 := s.x1, x1 := s.x0 }
  else s

def delLines (y : Nat) : Nat → List (List Byte) → List (List Byte)
  | 0, l => l
  | n + 1, l => delLines y n (l.eraseIdx y)

def removeSelection (w : Widget) (s : Selection) : Widget :=
  let line := w.line s.y0
  let offset := window2offset w.tabsize line s.x0
  if s.y1 ≠ s.y0 then
    let lines := delLines (s.y0 + 1) (s.y1 - s.y0 - 1) (w.lines.set s.y0 (line.take offset))
    let last := lines.getD (s.y0 + 1) []
    let lines := if s.x1 ≠ 0 then lines.set (s.y0 + 1) (last.drop (window2offset w.tabsize last s.x1)) else lines
    join_lines { w with lines, lineno := s.y0, offset }
  else
    let rest := line.drop (window2offset w.tabsize line s.x1)
    { w with
      lines := if s.x1 ≠ 0 then w.lines.set s.y0 (line.take offset ++ rest) else w.lines
      lineno := s.y0, offset }

/-- What `select_end` appends to the clipboard, for the lines from the first of the selection on and the
number of the lines before its last one; `none` for a negative count. -/
def copySelection (tab : Nat) (x1 : Nat) : Nat → Nat → List (List Byte) → Option (List Byte)
  | 0, x0, lines =>
    let str := lines.headD []
    if x1 = 0 then some []
    else if window2offset tab str x1 < window2offset tab str x0 then none
    else some ((str.drop (window2offset tab str x0)).take (window2offset tab str x1 - window2offset tab str x0))
  | n + 1, x0, lines => do
    let rest ← copySelection tab x1 n 0 lines.tail
    return (lines.headD []).drop (window2offset tab (lines.headD []) x0) ++ [0x0a] ++ rest

def Widget.clip (w : Widget) (s : Selection) : Selection :=
  if s.y1 ≥ w.lines.length then { s with x1 := w.columns, y1 := w.lines.length - 1 } else s

def select_end (w : Widget) (s : Selection) (remove : Bool) : Option (Widget × List Byte) :=
  let s := s.ordered
  if s.y0 = s.y1 ∧ s.x0 = s.x1 then some (w, [])
  else if s.y0 ≥ w.lines.length then some (w, [])
  else
    let s := w.clip s
    if remove then some (removeSelection w s, [])
    else (copySelection w.tabsize s.x1 (s.y1 - s.y0) s.x0 (w.lines.drop s.y0)).map fun text => (w, text)

def pick (tab : Nat) (p : Nat → Bool) : Nat → List Byte → List Byte
  | _, [] => []
  | idx, c :: s => if p idx then c :: pick tab p (advance tab idx c) s else pick tab p (advance tab idx c) s

def Selection.between (s : Selection) (y c : Nat) : Bool :=
  (decide (s.y0 < y) || decide (s.y0 = y ∧ s.x0 ≤ c)) && (decide (y < s.y1) || decide (y = s.y1 ∧ c < s.x1))

def Selection.has (s : Selection) : Nat → Nat → Bool := s.ordered.between

def selectedText (w : Widget) (s : Selection) : List Byte :=
  List.intercalate [0x0a] ((List.range' s.ordered.y0 (min (s.ordered.y1 + 1) w.lines.length - s.ordered.y0)).map fun y =>
    pick w.tabsize (s.has y) 0 (w.line y))

def outside (tab : Nat) (sel : Nat → Nat → Bool) : Nat → List (List Byte) → List Byte
  | _, [] => []
  | y, str :: l => pick tab (fun c => !sel y c) 0 str ++ outside tab sel (y + 1) l

def visible (l : List Byte) : List Byte := l.filter fun c => !isBlank c

variable {tab : Nat}

theorem lt_advance (h : 0 < tab) (idx : Nat) (c : Byte) : idx < advance tab idx c := by
  unfold advance
  split_ifs
  · have := Nat.lt_div_mul_add h (a := idx + tab)
    omega
  · exact Nat.lt_succ_self idx

variable {idx : Nat} {p q : Nat → Bool}

theorem pick_congr (h : 0 < tab) (s : List Byte) (hpq : ∀ c, idx ≤ c → p c = q c) :
    pick tab p idx s = pick tab q idx s := by
  induction s generalizing idx with
  | nil => rfl
  | cons c s ih =>
    have hlt := lt_advance h idx c
    rw [pick, pick, hpq idx (Nat.le_refl idx), ih fun c hc => hpq c (by omega)]

theorem pick_true (s : List Byte) (idx : Nat) : pick tab (fun _ => true) idx s = s := by
  induction s generalizing idx with
  | nil => rfl
  | cons c s ih => rw [pick, if_pos rfl, ih]

theorem pick_false (s : List Byte) (idx : Nat) : pick tab (fun _ => false) idx s = [] := by
  induction s generalizing idx with
  | nil => rfl
  | cons c s ih => rw [pick, if_neg Bool.false_ne_true, ih]

theorem offsetFrom_le (idx x : Nat) (s : List Byte) : offsetFrom tab idx x s ≤ s.length := by
  induction s generalizing idx with
  | nil => exact Nat.le_refl 0
  | cons c s ih =>
    rw [offsetFrom]
    split_ifs
    · exact Nat.succ_le_succ (ih _)
    · exact Nat.zero_le _

theorem offsetFrom_past {idx x : Nat} (h : x ≤ idx) (s : List Byte) : offsetFrom tab idx x s = 0 := by
  cases s with
  | nil => rfl
  | cons c s => rw [offsetFrom, if_neg (Nat.not_lt.mpr h)]

theorem offsetFrom_mono {x y : Nat} (h : x ≤ y) (idx : Nat) (s : List Byte) : offsetFrom tab idx x s ≤ offsetFrom tab idx y s := by
  induction s generalizing idx with
  | nil => exact Nat.le_refl 0
  | cons c s ih =>
    rw [offsetFrom, offsetFrom]
    by_cases hx : idx < x
    · rw [if_pos hx, if_pos (hx.trans_le h)]
      exact Nat.succ_le_succ (ih _)
    · rw [if_neg hx]
      exact Nat.zero_le _

theorem pick_before (h : 0 < tab) (x : Nat) (idx : Nat) (s : List Byte) :
    pick tab (fun c => decide (c < x)) idx s = s.take (offsetFrom tab idx x s) := by
  induction s generalizing idx with
  | nil => rfl
  | cons c s ih =>
    rw [pick, offsetFrom]
    by_cases hx : idx < x
    · simp only [hx, decide_true, if_true, take_succ_cons, ih]
    · have hlt := lt_advance h idx c
      simp only [hx, decide_false, Bool.false_eq_true, if_false, take_zero]
      rw [pick_congr h (q := fun _ => false) s fun c hc => by simp; omega, pick_false]

theorem pick_from (h : 0 < tab) (x : Nat) (idx : Nat) (s : List Byte) :
    pick tab (fun c => decide (x ≤ c)) idx s = s.drop (offsetFrom tab idx x s) := by
  induction s generalizing idx with
  | nil => rfl
  | cons c s ih =>
    rw [pick, offsetFrom]
    by_cases hx : idx < x
    · simp only [hx, if_true, drop_succ_cons, ih, decide_eq_true_eq, if_neg (Nat.not_le.mpr hx)]
    · have hlt := lt_advance h idx c
      simp only [hx, if_false, drop_zero, decide_eq_true_eq, if_pos (Nat.not_lt.mp hx)]
      rw [pick_congr h (q := fun _ => true) s fun c hc => by simp; omega, pick_true]

theorem pick_between (h : 0 < tab) (x y : Nat) (idx : Nat) (s : List Byte) :
    pick tab (fun c => decide (x ≤ c) && decide (c < y)) idx s =
      (s.take (offsetFrom tab idx y s)).drop (offsetFrom tab idx x s) := by
  induction s generalizing idx with
  | nil => rfl
  | cons c s ih =>
    by_cases hx : idx < x
    · have hlt := lt_advance h idx c
      rw [pick, offsetFrom, offsetFrom, if_pos hx]
      simp only [decide_eq_false (Nat.not_le.mpr hx), Bool.false_and, Bool.false_eq_true, if_false]
      by_cases hy : idx < y
      · rw [if_pos hy, take_succ_cons, drop_succ_cons, ih]
      · rw [if_neg hy, take_zero, drop_nil, pick_congr h (q := fun _ => false) s fun c hc => by simp; omega,
          pick_false]
    · rw [offsetFrom_past (Nat.not_lt.mp hx), drop_zero, ← pick_before h]
      refine pick_congr h _ fun c hc => ?_
      have hxc : x ≤ c := by omega
      simp only [hxc, decide_true, Bool.true_and]

theorem pick_beside (h : 0 < tab) {x y : Nat} {s : List Byte}
    (hxy : offsetFrom tab idx x s ≤ offsetFrom tab idx y s) :
    pick tab (fun c => !(decide (x ≤ c) && decide (c < y))) idx s =
      s.take (offsetFrom tab idx x s) ++ s.drop (offsetFrom tab idx y s) := by
  induction s generalizing idx with
  | nil => rfl
  | cons c s ih =>
    by_cases hx : idx < x
    · rw [offsetFrom, offsetFrom, if_pos hx] at hxy ⊢
      split_ifs at hxy ⊢ with hy
      · rw [pick, take_succ_cons, drop_succ_cons, cons_append, ← ih (by omega)]
        simp only [decide_eq_false (Nat.not_le.mpr hx), Bool.false_and, Bool.not_false, if_true]
      · omega
    · rw [offsetFrom_past (Nat.not_lt.mp hx), take_zero, nil_append, ← pick_from h]
      refine pick_congr h _ fun c hc => ?_
      have hxc : x ≤ c := by omega
      by_cases hy : c < y
      · simp [hxc, hy, Nat.not_le.mpr hy]
      · simp [hxc, hy, Nat.not_lt.mp hy]

theorem pick_congr_before {x : Nat} {s : List Byte}
    (hx : offsetFrom tab idx x s = s.length) (hpq : ∀ c < x, p c = q c) : pick tab p idx s = pick tab q idx s := by
  induction s generalizing idx with
  | nil => rfl
  | cons c s ih =>
    rw [offsetFrom, length_cons] at hx
    split_ifs at hx with hlt
    rw [pick, pick, ih (by omega), hpq idx hlt]

theorem outside_append (sel : Nat → Nat → Bool) (y : Nat) (l l' : List (List Byte)) :
    outside tab sel y (l ++ l') = outside tab sel y l ++ outside tab sel (y + l.length) l' := by
  induction l generalizing y with
  | nil => rfl
  | cons s l ih =>
    rw [cons_append, outside, outside, ih, append_assoc, length_cons]
    congr 3
    omega

variable {y : Nat} {l : List (List Byte)}

theorem outside_congr {sel sel' : Nat → Nat → Bool}
    (h : ∀ v (hv : v < l.length), pick tab (fun c => !sel (y + v) c) 0 l[v] = pick tab (fun c => !sel' (y + v) c) 0 l[v]) :
    outside tab sel y l = outside tab sel' y l := by
  induction l generalizing y with
  | nil => rfl
  | cons s l ih =>
    rw [outside, outside]
    congr 1
    · exact h 0 (Nat.succ_pos _)
    · refine ih fun v hv => ?_
      have hnext := h (v + 1) (Nat.succ_lt_succ hv)
      rwa [Nat.add_assoc y 1 v, Nat.add_comm 1 v]

variable {sel : Nat → Nat → Bool}

theorem outside_flatten
    (h : ∀ v c, y ≤ v → v < y + l.length → sel v c = false) : outside tab sel y l = l.flatten := by
  induction l generalizing y with
  | nil => rfl
  | cons s l ih =>
    rw [length_cons] at h
    rw [outside, flatten_cons, ih fun v c h1 h2 => h v c (by omega) (by omega)]
    simp only [h y _ (Nat.le_refl y) (by omega), Bool.not_false, pick_true]

variable {s : Selection}

theorem outside_before (h : y + l.length ≤ s.y0) :
    outside tab s.between y l = l.flatten := by
  refine outside_flatten fun v c _ hv => ?_
  have hout : ¬ s.y0 < v ∧ s.y0 ≠ v := by omega
  simp [Selection.between, hout]

theorem outside_after (h : s.y1 < y) : outside tab s.between y l = l.flatten := by
  refine outside_flatten fun v c hv _ => ?_
  have hout : ¬ v < s.y1 ∧ v ≠ s.y1 := by omega
  simp [Selection.between, hout]

theorem outside_nil
    (h : ∀ v c, y ≤ v → v < y + l.length → sel v c = true) : outside tab sel y l = [] := by
  induction l generalizing y with
  | nil => rfl
  | cons s l ih =>
    rw [length_cons] at h
    rw [outside, ih fun v c h1 h2 => h v c (by omega) (by omega), append_nil]
    simp only [h y _ (Nat.le_refl y) (by omega), Bool.not_true, pick_false]

theorem copySelection_text (h : 0 < tab) (lines : List (List Byte)) (x1 n x0 y : Nat) (hy : y + n < lines.length)
    (hx : n = 0 → window2offset tab (lines.getD y []) x0 ≤ window2offset tab (lines.getD y []) x1) :
    copySelection tab x1 n x0 (lines.drop y) = some (List.intercalate [0x0a] ((List.range' y (n + 1)).map fun v =>
        pick tab (Selection.between ⟨x0, y, x1, y + n⟩ v) 0 (lines.getD v []))) := by
  have hline (y : Nat) : (lines.drop y).headD [] = lines.getD y [] := by
    rw [headD_eq_head?_getD, head?_drop, getD_eq_getElem?_getD]
  induction n generalizing x0 y with
  | zero =>
    have hpick : pick tab (Selection.between ⟨x0, y, x1, y + 0⟩ y) 0 (lines.getD y []) =
        ((lines.getD y []).take (window2offset tab (lines.getD y []) x1)).drop (window2offset tab (lines.getD y []) x0) := by
      rw [window2offset, window2offset, ← pick_between h]
      exact pick_congr h _ fun c _ => by simp [Selection.between]
    have hjoin : List.intercalate [0x0a] ((List.range' y (0 + 1)).map fun v =>
        pick tab (Selection.between ⟨x0, y, x1, y + 0⟩ v) 0 (lines.getD v [])) =
        pick tab (Selection.between ⟨x0, y, x1, y + 0⟩ y) 0 (lines.getD y []) := by
      simp [List.intercalate]
    rw [hjoin, hpick, copySelection, hline]
    by_cases hx1 : x1 = 0
    · subst hx1
      rw [if_pos rfl]
      simp [window2offset, offsetFrom_past]
    · rw [if_neg hx1, if_neg (Nat.not_lt.mpr (hx rfl)), drop_take]
  | succ n ih =>
    have hrest := ih 0 (y + 1) (by omega) fun _ => by
      rw [window2offset, offsetFrom_past (Nat.le_refl 0)]
      exact Nat.zero_le _
    have hfirst : pick tab (Selection.between ⟨x0, y, x1, y + (n + 1)⟩ y) 0 (lines.getD y []) =
        (lines.getD y []).drop (window2offset tab (lines.getD y []) x0) := by
      rw [window2offset, ← pick_from h]
      exact pick_congr h _ fun c _ => by simp [Selection.between]
    have hlater (v : Nat) (hv : y + 1 ≤ v) : pick tab (Selection.between ⟨x0, y, x1, y + (n + 1)⟩ v) 0 (lines.getD v []) =
        pick tab (Selection.between ⟨0, y + 1, x1, y + 1 + n⟩ v) 0 (lines.getD v []) := by
      refine pick_congr h _ fun c _ => ?_
      rw [Bool.eq_iff_iff]
      simp [Selection.between]
      omega
    rw [copySelection, tail_drop, hrest, hline]
    have hmap : ((List.range' (y + 1) (n + 1)).map fun v =>
        pick tab (Selection.between ⟨x0, y, x1, y + (n + 1)⟩ v) 0 (lines.getD v [])) =
        (List.range' (y + 1) (n + 1)).map fun v =>
          pick tab (Selection.between ⟨0, y + 1, x1, y + 1 + n⟩ v) 0 (lines.getD v []) :=
      map_congr_left fun v hv => hlater v (mem_range'_1.mp hv).1
    have hsplit (a : Nat) (m : Nat) : List.range' a (m + 1) = a :: List.range' (a + 1) m := range'_succ
    rw [hsplit y (n + 1), map_cons, hfirst, hmap, hsplit (y + 1) n, map_cons]
    simp [List.intercalate]

theorem visible_append (l l' : List Byte) : visible (l ++ l') = visible l ++ visible l' := filter_append ..

theorem visible_dropWhile (l : List Byte) : visible (l.dropWhile isBlank) = visible l := by
  induction l with
  | nil => rfl
  | cons c l ih =>
    rw [dropWhile_cons]
    split_ifs with hc
    · rw [ih, visible, visible, filter_cons_of_neg (by simp [hc])]
    · rfl

variable {α : Type}

theorem eraseIdx_at (pre : List α) (a : α) (post : List α) : (pre ++ a :: post).eraseIdx pre.length = pre ++ post := by
  rw [eraseIdx_append_of_length_le (Nat.le_refl _), Nat.sub_self, eraseIdx_cons_zero]

theorem set_at (pre : List α) (a b : α) (post : List α) : (pre ++ a :: post).set pre.length b = pre ++ b :: post := by
  rw [set_append_right _ _ (Nat.le_refl _), Nat.sub_self, set_cons_zero]

theorem delLines_append (pre mid post : List (List Byte)) : delLines pre.length mid.length (pre ++ mid ++ post) = pre ++ post := by
  induction mid with
  | nil => rw [append_nil, length_nil, delLines]
  | cons a mid ih =>
    rw [length_cons, delLines, append_assoc, cons_append, eraseIdx_at, ← append_assoc, ih]

variable {pre post : List (List Byte)} {w : Widget} {a b : List Byte}

theorem join_lines_text (hw : w.lines = pre ++ a :: b :: post)
    (hn : w.lineno = pre.length) (ho : a = [] → w.offset = 0) :
    visible (join_lines w).lines.flatten = visible w.lines.flatten ∧ (join_lines w).lineno = w.lineno ∧
      (join_lines w).offset = w.offset := by
  have hnext : w.lines[w.lineno + 1]? = some b := by simp [hw, hn]
  have hline : w.line w.lineno = a := by simp [Widget.line, hw, hn]
  have herase (l : List Byte) : (pre ++ l :: b :: post).eraseIdx (pre.length + 1) = pre ++ l :: post := by
    have hat := eraseIdx_at (pre ++ [l]) b post
    rwa [length_append, length_singleton, append_assoc, append_assoc] at hat
  have hset (l l' : List Byte) : (pre ++ l :: b :: post).set (pre.length + 1) l' = pre ++ l :: l' :: post := by
    have hat := set_at (pre ++ [l]) b l' post
    rwa [length_append, length_singleton, append_assoc, append_assoc] at hat
  have hwhole : visible ((w.lines.set w.lineno (a ++ b)).eraseIdx (w.lineno + 1)).flatten = visible w.lines.flatten := by
    simp only [hw, hn, set_at, herase, flatten_append, flatten_cons, append_assoc]
  have hwords (n : Nat) : visible ((w.lines.set w.lineno (a ++ b.take n)).set (w.lineno + 1)
      ((b.drop n).dropWhile isBlank)).flatten = visible w.lines.flatten := by
    have hb : visible b = visible (b.take n) ++ visible (b.drop n) := by rw [← visible_append, take_append_drop]
    simp only [hw, hn, set_at, hset, flatten_append, flatten_cons, append_assoc, visible_append,
      visible_dropWhile, hb]
  unfold join_lines
  simp only [hnext, hline]
  split_ifs with hempty hwide
  · exact ⟨by simp only [hw, hn, eraseIdx_at, hempty, flatten_append, flatten_cons, nil_append], rfl,
      (ho hempty).symm⟩
  · exact ⟨rfl, rfl, rfl⟩
  -- whether or not there is a tab to expand, the next line moves as a whole or word by word
  all_goals first
    | exact ⟨hwhole, rfl, rfl⟩
    | split
      · exact ⟨rfl, rfl, rfl⟩
      · exact ⟨hwords _, rfl, rfl⟩

theorem removeSelection_line {a : List Byte} (h : 0 < w.tabsize)
    (hw : w.lines = pre ++ a :: post) {x0 x1 : Nat} (hx : window2offset w.tabsize a x0 ≤ window2offset w.tabsize a x1) :
    (removeSelection w ⟨x0, pre.length, x1, pre.length⟩).lines.flatten =
      outside w.tabsize (Selection.between ⟨x0, pre.length, x1, pre.length⟩) 0 w.lines := by
  have hline : w.line pre.length = a := by simp [Widget.line, hw]
  have hpick : pick w.tabsize (fun c => !Selection.between ⟨x0, pre.length, x1, pre.length⟩ (0 + pre.length) c) 0 a =
      a.take (window2offset w.tabsize a x0) ++ a.drop (window2offset w.tabsize a x1) := by
    rw [window2offset, window2offset, ← pick_beside h hx]
    exact pick_congr h _ fun c _ => by simp [Selection.between]
  have hout : outside w.tabsize (Selection.between ⟨x0, pre.length, x1, pre.length⟩) 0 w.lines =
      pre.flatten ++ (a.take (window2offset w.tabsize a x0) ++ a.drop (window2offset w.tabsize a x1) ++ post.flatten) := by
    rw [hw, outside_append, outside, hpick, outside_before (Nat.le_of_eq (Nat.zero_add _)), outside_after (by simp)]
  rw [hout]
  unfold removeSelection
  simp only [hline, ne_eq, not_true_eq_false, if_false]
  split_ifs with hx1
  · -- nothing is left of the first column
    subst hx1
    rw [window2offset, window2offset, offsetFrom_past (Nat.le_refl 0)] at hx
    rw [window2offset, window2offset, offsetFrom_past (Nat.le_refl 0), Nat.le_zero.mp hx, take_zero, nil_append,
      drop_zero, hw, flatten_append, flatten_cons]
  · rw [hw, set_at, flatten_append, flatten_cons]

theorem removeSelection_lines {pre mid post : List (List Byte)} (h : 0 < w.tabsize)
    (hw : w.lines = pre ++ a :: (mid ++ b :: post)) (x0 x1 : Nat) :
    let w' := removeSelection w ⟨x0, pre.length, x1, pre.length + 1 + mid.length⟩
    visible w'.lines.flatten =
      visible (outside w.tabsize (Selection.between ⟨x0, pre.length, x1, pre.length + 1 + mid.length⟩) 0 w.lines) ∧
      w'.lineno = pre.length ∧ w'.offset = window2offset w.tabsize a x0 := by
  intro w'
  have hline : w.line pre.length = a := by simp [Widget.line, hw]
  have hfirst : pick w.tabsize (fun c => !Selection.between ⟨x0, pre.length, x1, pre.length + 1 + mid.length⟩ (0 + pre.length) c)
      0 a = a.take (window2offset w.tabsize a x0) := by
    rw [window2offset, ← pick_before h]
    refine pick_congr h _ fun c _ => ?_
    rw [Bool.eq_iff_iff]
    simp [Selection.between]
    omega
  have hlast : pick w.tabsize (fun c => !Selection.between ⟨x0, pre.length, x1, pre.length + 1 + mid.length⟩
      (0 + pre.length + 1 + mid.length) c) 0 b = b.drop (window2offset w.tabsize b x1) := by
    rw [window2offset, ← pick_from h]
    refine pick_congr h _ fun c _ => ?_
    rw [Bool.eq_iff_iff]
    simp [Selection.between]
    omega
  have hmid : outside w.tabsize (Selection.between ⟨x0, pre.length, x1, pre.length + 1 + mid.length⟩) (0 + pre.length + 1) mid =
      [] := by
    refine outside_nil fun v c h1 h2 => ?_
    have hv : pre.length < v ∧ v < pre.length + 1 + mid.length := by omega
    simp [Selection.between, hv]
  have hout : outside w.tabsize (Selection.between ⟨x0, pre.length, x1, pre.length + 1 + mid.length⟩) 0 w.lines =
      pre.flatten ++ (a.take (window2offset w.tabsize a x0) ++ (b.drop (window2offset w.tabsize b x1) ++ post.flatten)) := by
    rw [hw, outside_append, outside, hfirst, outside_append, outside, hlast, hmid, nil_append,
      outside_before (Nat.le_of_eq (Nat.zero_add _)), outside_after (by simp)]
  have hdel (l : List Byte) : delLines (pre.length + 1) mid.length (pre ++ l :: (mid ++ b :: post)) = pre ++ l :: b :: post := by
    have hat := delLines_append (pre ++ [l]) mid (b :: post)
    simpa using hat
  have hcut : (if x1 ≠ 0 then (pre ++ a.take (window2offset w.tabsize a x0) :: b :: post).set (pre.length + 1)
      (b.drop (window2offset w.tabsize b x1)) else pre ++ a.take (window2offset w.tabsize a x0) :: b :: post) =
      pre ++ a.take (window2offset w.tabsize a x0) :: b.drop (window2offset w.tabsize b x1) :: post := by
    split_ifs with hx1
    · simp
    · rw [not_not.mp hx1, window2offset, window2offset, offsetFrom_past (Nat.le_refl 0), drop_zero]
  have hw' : w' = join_lines { w with
      lines := pre ++ a.take (window2offset w.tabsize a x0) :: b.drop (window2offset w.tabsize b x1) :: post
      lineno := pre.length, offset := window2offset w.tabsize a x0 } := by
    have hcount : pre.length + 1 + mid.length - pre.length - 1 = mid.length := by omega
    have hb : (pre ++ a.take (window2offset w.tabsize a x0) :: b :: post).getD (pre.length + 1) [] = b := by simp
    have hne : pre.length + 1 + mid.length ≠ pre.length := by omega
    simp only [w', removeSelection, hline, hcount, hw, set_at, hdel, hb, hcut, if_pos hne]
  rw [hw', hout]
  obtain ⟨htext, hlineno, hoffset⟩ := join_lines_text (w := { w with
      lines := pre ++ a.take (window2offset w.tabsize a x0) :: b.drop (window2offset w.tabsize b x1) :: post
      lineno := pre.length, offset := window2offset w.tabsize a x0 }) rfl rfl fun hnil => by
    rcases take_eq_nil_iff.mp hnil with h0 | h0
    · exact h0
    · subst h0
      rfl
  exact ⟨by rw [htext]; simp only [flatten_append, flatten_cons], hlineno, hoffset⟩

theorem exists_split {l : List α} {n : Nat} (h : n < l.length) :
    ∃ pre a post, l = pre ++ a :: post ∧ pre.length = n :=
  ⟨l.take n, l[n], l.drop (n + 1), by rw [← drop_eq_getElem_cons h, take_append_drop],
    by rw [length_take]; omega⟩

theorem removeSelection_text (h : 0 < w.tabsize) (hle : s.y0 ≤ s.y1) (hin : s.y1 < w.lines.length)
    (hx : s.y0 = s.y1 → window2offset w.tabsize (w.line s.y0) s.x0 ≤ window2offset w.tabsize (w.line s.y0) s.x1) :
    visible (removeSelection w s).lines.flatten = visible (outside w.tabsize s.between 0 w.lines) ∧
      (removeSelection w s).lineno = s.y0 ∧ (removeSelection w s).offset = window2offset w.tabsize (w.line s.y0) s.x0 := by
  obtain ⟨x0, y0, x1, y1⟩ := s
  obtain ⟨pre, a, rest, hw, rfl⟩ := exists_split (Nat.lt_of_le_of_lt hle hin)
  have hline : w.line pre.length = a := by simp [Widget.line, hw]
  by_cases hy : pre.length = y1
  · subst hy
    have hxa := hx rfl
    rw [hline] at hxa
    refine ⟨congrArg visible (removeSelection_line h hw hxa), ?_⟩
    simp [removeSelection]
  · have hlt : pre.length < y1 := Nat.lt_of_le_of_ne hle hy
    have hlen : y1 - pre.length - 1 < rest.length := by
      rw [hw, length_append, length_cons] at hin
      change y1 < _ at hin
      omega
    obtain ⟨mid, b, post, rfl, hmid⟩ := exists_split hlen
    have hy1 : y1 = pre.length + 1 + mid.length := by omega
    subst hy1
    rw [hline]
    exact removeSelection_lines h hw x0 x1

theorem clip_between (h : 0 < w.tabsize) (h0 : s.y0 < w.lines.length)
    (hmargin : w.lines.length ≤ s.y1 →
      window2offset w.tabsize (w.line (w.lines.length - 1)) w.columns = (w.line (w.lines.length - 1)).length)
    {v : Nat} (hv : v < w.lines.length) (f : Bool → Bool) :
    pick w.tabsize (fun c => f (s.between v c)) 0 (w.line v) = pick w.tabsize (fun c => f ((w.clip s).between v c)) 0 (w.line v) := by
  unfold Widget.clip
  split_ifs with hy
  · by_cases hlast : v = w.lines.length - 1
    · subst hlast
      refine pick_congr_before (hmargin hy) fun c hc => congrArg f ?_
      rw [Bool.eq_iff_iff]
      simp [Selection.between]
      omega
    · refine pick_congr h _ fun c _ => congrArg f ?_
      rw [Bool.eq_iff_iff]
      simp [Selection.between]
      omega
  · rfl

theorem clip_text (hle : s.y0 < s.y1 ∨ s.y0 = s.y1 ∧ s.x0 ≤ s.x1) (h0 : s.y0 < w.lines.length)
    (hmargin : w.lines.length ≤ s.y1 →
      window2offset w.tabsize (w.line (w.lines.length - 1)) w.columns = (w.line (w.lines.length - 1)).length) :
    (w.clip s).y0 = s.y0 ∧ (w.clip s).x0 = s.x0 ∧ (w.clip s).y0 ≤ (w.clip s).y1 ∧
      (w.clip s).y1 + 1 = min (s.y1 + 1) w.lines.length ∧ ((w.clip s).y0 = (w.clip s).y1 →
        window2offset w.tabsize (w.line s.y0) (w.clip s).x0 ≤ window2offset w.tabsize (w.line s.y0) (w.clip s).x1) := by
  unfold Widget.clip
  split_ifs with hy
  · refine ⟨rfl, rfl, by simp only; omega, by simp only; omega, fun heq => ?_⟩
    simp only at heq ⊢
    rw [heq, hmargin hy]
    exact offsetFrom_le ..
  · refine ⟨rfl, rfl, by omega, by omega, fun heq => offsetFrom_mono (by omega) ..⟩

theorem ordered_le (s : Selection) :
    s.ordered.y0 < s.ordered.y1 ∨ s.ordered.y0 = s.ordered.y1 ∧ s.ordered.x0 ≤ s.ordered.x1 := by
  unfold Selection.ordered
  split_ifs
  · dsimp only
    omega
  · dsimp only
    omega
  · omega

theorem has_none
    (h : s.ordered.y0 = s.ordered.y1 ∧ s.ordered.x0 = s.ordered.x1 ∨ w.lines.length ≤ s.ordered.y0) {v : Nat}
    (hv : v < w.lines.length) (c : Nat) : s.has v c = false := by
  rw [Selection.has, ← Bool.not_eq_true]
  simp [Selection.between]
  omega

/-- The selection is copied, and what remains of the text after it is removed is what was not selected. A selection that
goes on below the text must not leave characters behind the margin of the last line. -/
theorem select_end_selected (w : Widget) (s : Selection) (htab : 0 < w.tabsize)
    (hmargin : s.ordered.y0 < w.lines.length → w.lines.length ≤ s.ordered.y1 →
      window2offset w.tabsize (w.line (w.lines.length - 1)) w.columns = (w.line (w.lines.length - 1)).length) :
    select_end w s false = some (w, selectedText w s) ∧ ∃ w', select_end w s true = some (w', []) ∧
        visible w'.lines.flatten = visible (outside w.tabsize s.has 0 w.lines) ∧
        if s.ordered.y0 = s.ordered.y1 ∧ s.ordered.x0 = s.ordered.x1 ∨ w.lines.length ≤ s.ordered.y0 then w' = w
        else w'.lineno = s.ordered.y0 ∧ w'.offset = window2offset w.tabsize (w.line s.ordered.y0) s.ordered.x0 := by
  by_cases hnone : s.ordered.y0 = s.ordered.y1 ∧ s.ordered.x0 = s.ordered.x1 ∨ w.lines.length ≤ s.ordered.y0
  · have hend (remove : Bool) : select_end w s remove = some (w, []) := by
      unfold select_end
      rcases hnone with hsame | hbelow
      · simp only [if_pos hsame]
      · simp only [ge_iff_le, if_pos hbelow, ite_self]
    have hout : outside w.tabsize s.has 0 w.lines = w.lines.flatten :=
      outside_flatten fun v c _ hv => has_none hnone (by omega) c
    have hsel : selectedText w s = [] := by
      unfold selectedText
      rcases Nat.lt_or_ge s.ordered.y0 w.lines.length with h0 | hbelow
      · have hcount : min (s.ordered.y1 + 1) w.lines.length - s.ordered.y0 = 1 := by omega
        have hpick : pick w.tabsize (s.has s.ordered.y0) 0 (w.line s.ordered.y0) = [] :=
          (pick_congr htab _ fun c _ => has_none hnone h0 c).trans (pick_false _ 0)
        rw [hcount, List.range'_one, List.map_singleton, hpick]
        simp [List.intercalate]
      · rw [Nat.sub_eq_zero_of_le (Nat.le_trans (Nat.min_le_right _ _) hbelow)]
        rfl
    simp only [if_pos hnone, hend, hsel, hout]
    exact ⟨trivial, w, rfl, rfl, rfl⟩
  · obtain ⟨hsame, hbelow⟩ := not_or.mp hnone
    have h0 : s.ordered.y0 < w.lines.length := Nat.not_le.mp hbelow
    obtain ⟨hy0, hx0, hle, hy1, hx⟩ := clip_text (ordered_le s) h0 (hmargin h0)
    have hend (remove : Bool) : select_end w s remove =
        if remove then some (removeSelection w (w.clip s.ordered), [])
        else (copySelection w.tabsize (w.clip s.ordered).x1 ((w.clip s.ordered).y1 - (w.clip s.ordered).y0)
          (w.clip s.ordered).x0 (w.lines.drop (w.clip s.ordered).y0)).map fun text => (w, text) := by
      unfold select_end
      simp only [ge_iff_le, if_neg hsame, if_neg (Nat.not_le.mpr h0)]
    simp only [if_neg hnone, hend]
    constructor
    · have hlast : (w.clip s.ordered).y0 + ((w.clip s.ordered).y1 - (w.clip s.ordered).y0) = (w.clip s.ordered).y1 := by omega
      have hcount : (w.clip s.ordered).y1 - (w.clip s.ordered).y0 + 1 = min (s.ordered.y1 + 1) w.lines.length - s.ordered.y0 := by
        omega
      have hcopy := copySelection_text htab w.lines (w.clip s.ordered).x1 ((w.clip s.ordered).y1 - (w.clip s.ordered).y0)
        (w.clip s.ordered).x0 (w.clip s.ordered).y0 (by omega) fun heq => by
          rw [hy0] at hx ⊢
          exact hx (by omega)
      rw [hlast, hcount] at hcopy
      have hsel : selectedText w s = List.intercalate [0x0a]
          ((List.range' (w.clip s.ordered).y0 (min (s.ordered.y1 + 1) w.lines.length - s.ordered.y0)).map fun v =>
            pick w.tabsize ((w.clip s.ordered).between v) 0 (w.line v)) := by
        rw [selectedText, hy0]
        refine congrArg _ (List.map_congr_left fun v hv => ?_)
        have hrange := List.mem_range'_1.mp hv
        exact clip_between htab h0 (hmargin h0) (by omega) id
      rw [hsel]
      exact congrArg (Option.map fun text => (w, text)) hcopy
    · obtain ⟨htext, hlineno, hoffset⟩ := removeSelection_text (s := w.clip s.ordered) htab hle (by omega) (by rwa [hy0] at hx ⊢)
      refine ⟨_, rfl, htext.trans (congrArg visible (outside_congr fun v hv => ?_)), by rw [hlineno, hy0], by rw [hoffset, hy0, hx0]⟩
      have hline : w.line v = w.lines[v] := by simp [Widget.line, hv]
      rw [Nat.zero_add, ← hline]
      exact (clip_between htab h0 (hmargin h0) hv not).symm

theorem select_end_selected_two_lines :
    let w : Widget := { lines := [[0x61, 0x09, 0x62], [0x63, 0x64]], lineno := 1, offset := 0, columns := 80, tabsize := 8, wrap := 79 }
    let s : Selection := ⟨1, 1, 8, 0⟩
    select_end w s false = some (w, selectedText w s) ∧
      ∃ w', select_end w s true = some (w', []) ∧
        visible w'.lines.flatten = visible (outside w.tabsize s.has 0 w.lines) ∧
        if s.ordered.y0 = s.ordered.y1 ∧ s.ordered.x0 = s.ordered.x1 ∨ w.lines.length ≤ s.ordered.y0 then w' = w
        else w'.lineno = s.ordered.y0 ∧ w'.offset = window2offset w.tabsize (w.line s.ordered.y0) s.ordered.x0 :=
  select_end_selected _ _ (by decide) fun _ h => absurd h (by decide)

/-- Nothing at all is done for an empty selection, so the cursor stays where it is. A selection that goes on below the text is
cut at the margin of the last line. -/
theorem select_end_exceptions :
    (let w : Widget := { lines := [[0x61, 0x62]], lineno := 0, offset := 1, columns := 80, tabsize := 8, wrap := 79 }
      let s : Selection := ⟨0, 0, 0, 0⟩
      ¬ ∃ w', select_end w s true = some (w', []) ∧ w'.lineno = s.ordered.y0 ∧
        w'.offset = window2offset w.tabsize (w.line s.ordered.y0) s.ordered.x0) ∧
    (let w : Widget := { lines := [[0x61, 0x09, 0x62]], lineno := 0, offset := 0, columns := 8, tabsize := 8, wrap := 7 }
      let s : Selection := ⟨0, 0, 0, 1⟩
      select_end w s false = some (w, [0x61, 0x09]) ∧ pick w.tabsize (s.has 0) 0 (w.line 0) = [0x61, 0x09, 0x62]) := by
  refine ⟨?_, by decide, by decide⟩
  rintro w s ⟨w', hw', -, hoffset⟩
  have hsame : select_end w s true = some (w, []) := rfl
  rw [hsame, Option.some.injEq, Prod.mk.injEq] at hw'
  rw [← hw'.1] at hoffset
  exact absurd hoffset (by decide)

end WWindowSystem.Edittext
