import WWindowSystem.Library.Strings

namespace WWindowSystem.Bdf

def BUFFER_SIZE : Nat := 256

def START_INDEX : Int := 32

def charmap : List String :=
  ["space", "exclam", "quotedbl", "numbersign", "dollar", "percent", "ampersand", "quoteright", "parenleft",
    "parenright", "asterisk", "plus", "comma", "minus", "period", "slash", "zero", "one", "two", "three", "four",
    "five", "six", "seven", "eight", "nine", "colon", "semicolon", "less", "equal", "greater", "question", "at", "A",
    "B", "C", "D", "E", "F", "G", "H", "I", "J", "K", "L", "M", "N", "O", "P", "Q", "R", "S", "T", "U", "V", "W", "X",
    "Y", "Z", "bracketleft", "backslash", "bracketright", "asciicircum", "underscore", "quoteleft", "a", "b", "c", "d",
    "e", "f", "g", "h", "i", "j", "k", "l", "m", "n", "o", "p", "q", "r", "s", "t", "u", "v", "w", "x", "y", "z",
    "braceleft", "bar", "braceright", "asciitilde"]

def fgets_line : List Byte → Nat → List Byte × List Byte
  | [], _ => ([], [])
  | c :: s, 0 => ([], c :: s)
  | c :: s, n + 1 => if c = 10 then ([c], s) else (c :: (fgets_line s n).1, (fgets_line s n).2)

def fgets_lines : Nat → List Byte → List (List Byte)
  | 0, _ => []
  | n + 1, s => if s = [] then [] else (fgets_line s (BUFFER_SIZE - 1)).1 :: fgets_lines n (fgets_line s (BUFFER_SIZE - 1)).2

def lines (text : List Byte) : List (List Byte) := fgets_lines text.length text

def fill (buffer line : List Byte) : List Byte := line ++ 0 :: buffer.drop (line.length + 1)

def strncmp (s t : List Byte) (n : Nat) : Int := strcmp (s.take n) (t.take n)

def isxdigit (c : Byte) : Bool := isdigit c || (65 ≤ c.toNat && c.toNat ≤ 70) || (97 ≤ c.toNat && c.toNat ≤ 102)

def scan_int (longMax : Int) (s : List Byte) : Option (Int × List Byte) :=
  let t := s.dropWhile isspace
  let digits := if t.head? = some 45 ∨ t.head? = some 43 then t.tail else t
  if digits.takeWhile isdigit = [] then none else some (toint (strtol longMax s), digits.dropWhile isdigit)

/-- The assignments of `sscanf` for a format of `%d`s: the ones that have no number keep their value. -/
def sscanf (longMax : Int) : List Byte → List Int → List Int
  | _, [] => []
  | s, v :: vs =>
    match scan_int longMax s with
    | some (z, rest) => z :: sscanf longMax rest vs
    | none => v :: vs

structure Metrics where
  width : Int
  wd : Int
  ht : Int
  xoff : Int
  yoff : Int

structure Outcome where
  ok : Bool
  widths : List (Int × Byte)
  map : List (Int × BitVec 32)
  buffer : List Byte
  fp : List (List Byte)

def char_index (longMax : Int) (name buffer : List Byte) (fp : List (List Byte)) : Option Int × List Byte × List (List Byte) :=
  let idx := charmap.findIdx fun c => decide (strcmp name (cstring c) = 0)
  if idx < charmap.length then (some (idx + START_INDEX), buffer, fp)
  else
    match fp with
    | [] => (some idx, buffer, [])
    | line :: fp =>
      let buffer := fill buffer line
      if strncmp (cstr buffer) (cstring "ENCODING") 8 = 0 then
        let idx := (sscanf longMax (cstr (buffer.drop 9)) [(idx : Int)]).headD 0
        if idx ≤ 0 ∨ 255 < idx then (none, buffer, fp) else (some idx, buffer, fp)
      else (some idx, buffer, fp)

def find_bitmap (longMax : Int) : List (List Byte) → List Byte → Metrics → Option Metrics × List Byte × List (List Byte)
  | [], buffer, _ => (none, buffer, [])
  | line :: fp, buffer, m =>
    let buffer := fill buffer line
    if strncmp (cstr buffer) (cstring "BITMAP") 6 = 0 then (some m, buffer, fp)
    else if strncmp (cstr buffer) (cstring "BBX") 3 = 0 then
      let v := sscanf longMax (cstr (buffer.drop 4)) [m.wd, m.ht, m.xoff, m.yoff]
      find_bitmap longMax fp buffer { m with wd := v.getD 0 0, ht := v.getD 1 0, xoff := v.getD 2 0, yoff := v.getD 3 0 }
    else if strncmp (cstr buffer) (cstring "DWIDTH") 6 = 0 then
      find_bitmap longMax fp buffer { m with width := (sscanf longMax (cstr (buffer.drop 7)) [m.width]).headD 0 }
    else find_bitmap longMax fp buffer m

def fit_width (minimal : Bool) (m : Metrics) : Int × Int :=
  if m.wd < m.width then
    if 0 < m.xoff then
      let width := if minimal then toint (m.width - m.xoff) else m.width
      (width, toint (toint (width - m.wd) - m.xoff))
    else (m.width, toint (toint (m.width - m.wd) + m.xoff))
  else (m.wd, m.xoff)

def box_row (height descent : Int) (m : Metrics) : Int := toint (toint (toint (height + descent) - m.ht) - m.yoff)

def first_row (height descent : Int) (m : Metrics) : Int :=
  let line := box_row height descent m
  if line < 0 ∨ height < toint (line + m.ht) then
    if 0 < line then toint (height - m.ht) else 0
  else line

def row_value (wd xoff : Int) (s : List Byte) : BitVec 32 :=
  let digits := s.takeWhile isxdigit
  let value := digits.foldl (fun (value : BitVec 32) c =>
    value <<< 4 ||| BitVec.ofInt 32 ((if isdigit c then (c.toNat : Int) - 48 else (c.toNat : Int) - 65 + 10) % 16)) 0
  let count := toint (4 * digits.length - wd)
  let value := if 0 < count then value >>> count.toNat else value
  if 0 < xoff then value <<< xoff.toNat else value

def read_rows (height wd xoff : Int) : List (List Byte) → List Byte → Int → Int → Outcome
  | [], buffer, _, _ => ⟨false, [], [], buffer, []⟩
  | row :: fp, buffer, line, data =>
    let buffer := fill buffer row
    if strncmp (cstr buffer) (cstring "ENDCHAR") 7 = 0 then ⟨true, [], [], buffer, fp⟩
    else if height ≤ line then ⟨true, [], [], buffer, fp⟩
    else if ¬ isxdigit (buffer.headD 0) then read_rows height wd xoff fp buffer (line + 1) data
    else
      let r := read_rows height wd xoff fp buffer (line + 1) (data + 1)
      { r with map := (data, row_value wd xoff (cstr buffer)) :: r.map }

def convert_char (longMax height descent : Int) (minimal : Bool) (name buffer : List Byte) (fp : List (List Byte)) : Outcome :=
  match char_index longMax name buffer fp with
  | (none, buffer, fp) => ⟨false, [], [], buffer, fp⟩
  | (some idx, buffer, fp) =>
    match find_bitmap longMax fp buffer ⟨0, 0, 0, 0, 0⟩ with
    | (none, buffer, fp) => ⟨false, [], [], buffer, fp⟩
    | (some m, buffer, fp) =>
      let (width, xoff) := fit_width minimal m
      if width = 0 then ⟨false, [], [], buffer, fp⟩
      else
        let line := first_row height descent m
        let r := read_rows height m.wd xoff fp buffer line (idx * height + line)
        { r with widths := [(idx, BitVec.ofInt 8 width)] }

structure Outcome.Within (o : Outcome) (height idx : Int) : Prop where
  map : ∀ w ∈ o.map, idx * height ≤ w.1 ∧ w.1 ≤ idx * height + height - 1
  width : ∀ w ∈ o.widths, w.1 = idx
  once : o.widths.length ≤ 1

def HasBits (n : Nat) (rows : List (List Byte)) : Prop :=
  ∃ row ∈ (rows.takeWhile fun row => strncmp (cstr row) (cstring "ENDCHAR") 7 ≠ 0).take n, isxdigit (row.headD 0) = true

structure Overhangs (height descent : Int) (m : Metrics) : Prop where
  start : 0 < box_row height descent m
  below : height < toint (box_row height descent m + m.ht)
  tall : toint (height - m.ht) < 0

def WritesAbove (longMax height descent : Int) (minimal : Bool) (name buffer : List Byte) (fp : List (List Byte)) : Prop :=
  ∃ idx b r m b' rows, char_index longMax name buffer fp = (some idx, b, r) ∧
    find_bitmap longMax r b ⟨0, 0, 0, 0, 0⟩ = (some m, b', rows) ∧ (fit_width minimal m).1 ≠ 0 ∧ Overhangs height descent m ∧
    HasBits (height - toint (height - m.ht)).toNat rows

theorem cstr_fill (buffer line : List Byte) : cstr (fill buffer line) = cstr line := by
  unfold fill cstr
  generalize buffer.drop (line.length + 1) = t
  induction line with
  | nil => rfl
  | cons c line ih => rw [List.cons_append, List.takeWhile_cons, List.takeWhile_cons, ih]

theorem fill_head (buffer line : List Byte) : (fill buffer line).headD 0 = line.headD 0 := by
  cases line <;> rfl

variable {fp : List (List Byte)}

theorem char_index_range {longMax : Int} {name buffer : List Byte} {idx : Int}
    (h : (char_index longMax name buffer fp).1 = some idx) : 0 ≤ idx ∧ idx ≤ 255 := by
  have hlen : charmap.length = 95 := by decide
  have hidx : charmap.findIdx (fun c => decide (strcmp name (cstring c) = 0)) ≤ charmap.length := List.findIdx_le_length
  unfold char_index at h
  simp only at h
  split_ifs at h with hlt
  · cases h
    unfold START_INDEX
    omega
  · cases fp with
    | nil =>
      cases h
      omega
    | cons line fp =>
      simp only at h
      split_ifs at h with henc hbad
      · cases h
        omega
      · cases h
        omega

section Rows

variable {height wd xoff : Int}

variable {row : List Byte} {rows : List (List Byte)}

theorem HasBits.cons {n : Nat} (hend : strncmp (cstr row) (cstring "ENDCHAR") 7 ≠ 0) :
    HasBits (n + 1) (row :: rows) ↔ isxdigit (row.headD 0) = true ∨ HasBits n rows := by
  simp [HasBits, hend]

theorem not_HasBits_end {n : Nat} (hend : strncmp (cstr row) (cstring "ENDCHAR") 7 = 0) :
    ¬ HasBits n (row :: rows) := by
  simp [HasBits, hend]

variable (height wd xoff) in
theorem read_rows_map (fp : List (List Byte)) (buffer : List Byte) (line data : Int) :
    ∀ w ∈ (read_rows height wd xoff fp buffer line data).map, data ≤ w.1 ∧ w.1 < data + (height - line) := by
  induction fp generalizing buffer line data with
  | nil => simp [read_rows]
  | cons row fp ih =>
    unfold read_rows
    simp only
    split_ifs with hend hfull hbits
    · simp
    · simp
    · intro w hw
      rcases List.mem_cons.mp hw with rfl | hw
      · simp only
        omega
      · have := ih _ _ _ w hw
        omega
    · intro w hw
      have := ih _ _ _ w hw
      omega

variable (height wd xoff) in
theorem read_rows_bits (fp : List (List Byte)) (buffer : List Byte) (line data : Int) :
    (∃ w ∈ (read_rows height wd xoff fp buffer line data).map, w.1 = data) ↔ HasBits (height - line).toNat fp := by
  induction fp generalizing buffer line data with
  | nil => simp [read_rows, HasBits]
  | cons row fp ih =>
    unfold read_rows
    simp only [cstr_fill, fill_head]
    by_cases hend : strncmp (cstr row) (cstring "ENDCHAR") 7 = 0
    · rw [if_pos hend]
      simp [not_HasBits_end hend]
    · rw [if_neg hend]
      by_cases hfull : height ≤ line
      · rw [if_pos hfull, show (height - line).toNat = 0 by omega]
        simp [HasBits]
      · have hstep : (height - line).toNat = (height - (line + 1)).toNat + 1 := by omega
        rw [if_neg hfull, hstep, HasBits.cons hend]
        by_cases hbits : isxdigit (row.headD 0) = true
        · rw [if_neg (not_not.mpr hbits)]
          exact ⟨fun _ => .inl hbits, fun _ => ⟨_, List.mem_cons_self, rfl⟩⟩
        · rw [if_pos hbits, ih]
          simp only [hbits, Bool.false_eq_true, false_or]

theorem read_rows_some {fp : List (List Byte)} {buffer : List Byte} {line data : Int} {w : Int × BitVec 32}
    (hw : w ∈ (read_rows height wd xoff fp buffer line data).map) : HasBits (height - line).toNat fp := by
  induction fp generalizing buffer line data with
  | nil => simp [read_rows] at hw
  | cons row fp ih =>
    unfold read_rows at hw
    simp only [cstr_fill, fill_head] at hw
    by_cases hend : strncmp (cstr row) (cstring "ENDCHAR") 7 = 0
    · rw [if_pos hend] at hw
      cases hw
    · rw [if_neg hend] at hw
      by_cases hfull : height ≤ line
      · rw [if_pos hfull] at hw
        cases hw
      · rw [show (height - line).toNat = (height - (line + 1)).toNat + 1 by omega, HasBits.cons hend]
        by_cases hbits : isxdigit (row.headD 0) = true
        · exact .inl hbits
        · rw [if_neg hfull, if_pos hbits] at hw
          exact .inr (ih hw)

end Rows

theorem first_row_neg {height descent : Int} {m : Metrics} : first_row height descent m < 0 ↔ Overhangs height descent m := by
  unfold first_row
  simp only
  constructor
  · intro h
    split_ifs at h with h1 h2
    · exact ⟨h2, h1.resolve_left (by omega), h⟩
    · omega
    · exact absurd (.inl h) h1
  · rintro ⟨h1, h2, h3⟩
    rw [if_pos (.inr h2), if_pos h1]
    exact h3

theorem read_rows_within {height descent : Int} {m : Metrics} (idx wd xoff : Int) (buffer : List Byte) :
    (∀ w ∈ (read_rows height wd xoff fp buffer (first_row height descent m) (idx * height + first_row height descent m)).map,
        idx * height ≤ w.1 ∧ w.1 ≤ idx * height + height - 1) ↔
      ¬ (Overhangs height descent m ∧ HasBits (height - toint (height - m.ht)).toNat fp) := by
  have hmap := read_rows_map height wd xoff fp buffer (first_row height descent m)
    (idx * height + first_row height descent m)
  have hbits := read_rows_bits height wd xoff fp buffer (first_row height descent m)
    (idx * height + first_row height descent m)
  constructor
  · rintro hall ⟨hover, hhas⟩
    have hrow : first_row height descent m = toint (height - m.ht) := by
      rw [first_row, if_pos (.inr hover.below), if_pos hover.start]
    rw [hrow] at hbits hall
    obtain ⟨w, hw, hdata⟩ := hbits.mpr hhas
    have := (hall w hw).1
    have := hover.tall
    omega
  · intro hnot w hw
    have hlow := hmap w hw
    by_cases hneg : first_row height descent m < 0
    · have hover := first_row_neg.mp hneg
      have hrow : first_row height descent m = toint (height - m.ht) := by
        rw [first_row, if_pos (.inr hover.below), if_pos hover.start]
      refine absurd ⟨hover, ?_⟩ hnot
      rw [← hrow]
      exact read_rows_some hw
    · omega

/-- A call of `convert_char` writes to the cell and the width of one legal character, unless a box that is taller than the
font starts in the cell and hangs over its bottom: then the repaired first row lies above the cell. -/
theorem convert_char_within (longMax height descent : Int) (minimal : Bool) (name buffer : List Byte) (fp : List (List Byte)) :
    (∃ idx, 0 ≤ idx ∧ idx ≤ 255 ∧ (∀ i, (char_index longMax name buffer fp).1 = some i → i = idx) ∧
      (convert_char longMax height descent minimal name buffer fp).Within height idx) ↔
      ¬ WritesAbove longMax height descent minimal name buffer fp := by
  unfold convert_char WritesAbove
  rcases hi : char_index longMax name buffer fp with ⟨_ | idx, b, r⟩
  · have hnone : Outcome.Within ⟨false, [], [], b, r⟩ height 0 := ⟨by simp, by simp, by simp⟩
    exact ⟨fun _ ⟨_, _, _, _, _, _, h, _⟩ => by simp at h, fun _ => ⟨0, by omega, by omega, by simp, hnone⟩⟩
  · have hrange := char_index_range (congrArg Prod.fst hi)
    have hone (o : Outcome) : (∃ i, 0 ≤ i ∧ i ≤ 255 ∧ (∀ j, some idx = some j → j = i) ∧ o.Within height i) ↔ o.Within height idx := by
      constructor
      · rintro ⟨i, -, -, h, hw⟩
        exact h idx rfl ▸ hw
      · exact fun hw => ⟨idx, hrange.1, hrange.2, fun j h => (Option.some.inj h).symm, hw⟩
    rw [hone]
    rcases hb : find_bitmap longMax r b ⟨0, 0, 0, 0, 0⟩ with ⟨_ | m, b', rows⟩
    · simp only [hb]
      refine iff_of_true ⟨by simp, by simp, by simp⟩ ?_
      rintro ⟨_, _, _, m, _, _, h, h', -⟩
      cases h
      simp [hb] at h'
    · have hcond : (∃ i b1 r1 m1 b2 rows1, ((some idx, b, r) : Option Int × List Byte × List (List Byte)) = (some i, b1, r1) ∧
          find_bitmap longMax r1 b1 ⟨0, 0, 0, 0, 0⟩ = (some m1, b2, rows1) ∧ (fit_width minimal m1).1 ≠ 0 ∧ Overhangs height descent m1 ∧
            HasBits (height - toint (height - m1.ht)).toNat rows1) ↔
          (fit_width minimal m).1 ≠ 0 ∧ Overhangs height descent m ∧ HasBits (height - toint (height - m.ht)).toNat rows := by
        constructor
        · rintro ⟨_, _, _, m1, _, rows1, h, h', hrest⟩
          cases h
          rw [hb] at h'
          cases h'
          exact hrest
        · exact fun h => ⟨idx, b, r, m, b', rows, rfl, hb, h⟩
      rw [hcond]
      simp only [hb]
      by_cases hwidth : (fit_width minimal m).1 = 0
      · rw [if_pos hwidth]
        exact iff_of_true ⟨by simp, by simp, by simp⟩ fun h => h.1 hwidth
      · rw [if_neg hwidth, not_congr (and_iff_right hwidth),
          ← read_rows_within idx m.wd (fit_width minimal m).2 b']
        constructor
        · exact fun h => h.map
        · exact fun h => ⟨h, by simp, by simp⟩

def tallText : List Byte := cstring "DWIDTH 8 0\nBBX 8 12 0 -6\nBITMAP\nFF\nENDCHAR\n"

theorem tall_box_writes_above :
    (((convert_char (2 ^ 63 - 1) 8 0 false (cstring "A") [] (lines tallText)).map.map Prod.fst = [65 * 8 - 4]) ∧
      (convert_char (2 ^ 63 - 1) 8 0 false (cstring "A") [] (lines tallText)).widths.map Prod.fst = [65]) ∧
    ¬ ∃ idx, 0 ≤ idx ∧ idx ≤ 255 ∧ (∀ i, (char_index (2 ^ 63 - 1) (cstring "A") [] (lines tallText)).1 = some i → i = idx) ∧
      (convert_char (2 ^ 63 - 1) 8 0 false (cstring "A") [] (lines tallText)).Within 8 idx := by
  have hwrites : (convert_char (2 ^ 63 - 1) 8 0 false (cstring "A") [] (lines tallText)).map.map Prod.fst = [65 * 8 - 4] ∧
      (convert_char (2 ^ 63 - 1) 8 0 false (cstring "A") [] (lines tallText)).widths.map Prod.fst = [65] := by
    decide +kernel
  refine ⟨hwrites, ?_⟩
  rintro ⟨idx, -, -, -, hwithin⟩
  obtain ⟨hmap, hwidths⟩ := hwrites
  obtain ⟨w, hw, hw1⟩ := List.mem_map.mp (hmap ▸ List.mem_singleton.mpr rfl)
  obtain ⟨v, hv, hv1⟩ := List.mem_map.mp (hwidths ▸ List.mem_singleton.mpr rfl)
  have hidx := hwithin.width v hv
  have hlow := (hwithin.map w hw).1
  omega

end WWindowSystem.Bdf
