import WWindowSystem.Lib.Convert

namespace WWindowSystem.Img

open Option

def byteAt (file : List Byte) (data : Int) : Option Byte :=
  if 0 ≤ data then file[data.toNat]? else none

def bytesAt (file : List Byte) : Int → Nat → Option (List Byte)
  | _, 0 => some []
  | data, n + 1 => do
    let b ← byteAt file data
    let l ← bytesAt file (data + 1) n
    return b :: l

def store (mem : List Byte) : Nat → List Byte → Option (List Byte)
  | _, [] => some mem
  | pic, b :: l => if pic < mem.length then store (mem.set pic b) (pic + 1) l else none

def patternAt (file : List Byte) (patlen data : Int) (cnt : Byte) : Option (List Byte) :=
  if cnt = 0 then some [] else bytesAt file data patlen.toNat

def solidByte (first : Byte) : Byte := if first &&& 128 = 0 then 0 else 255

def item (file : List Byte) (patlen data : Int) : Option (Int × Int × List Byte) := do
  let first ← byteAt file data
  if first = 0 then
    let cnt ← byteAt file (data + 1)
    let pat ← patternAt file patlen (data + 2) cnt
    return (data + 2 + patlen, cnt.toNat * patlen, (List.replicate cnt.toNat pat).flatten)
  else if first = 128 then
    let cnt ← byteAt file (data + 1)
    let l ← bytesAt file (data + 2) cnt.toNat
    return (data + 2 + cnt.toNat, cnt.toNat, l)
  else
    let cnt := (first &&& 127).toNat
    return (data + 1, cnt, List.replicate cnt (solidByte first))

def line (file : List Byte) (patlen : Int) : Nat → Int → Int → Nat → List Byte → Option (Int × Int × Nat × List Byte)
  | 0, _, _, _, _ => none
  | fuel + 1, bytecnt, data, pic, mem =>
    if bytecnt > 0 then do
      let r ← item file patlen data
      let mem ← store mem pic r.2.2
      line file patlen fuel (short (bytecnt - r.2.1)) r.1 (pic + r.2.2.length) mem
    else some (bytecnt, data, pic, mem)

def lineStart (file : List Byte) (data repptr : Int) (repcnt : Nat) : Option (Int × Int × Nat) := do
  let data := if repcnt = 0 then data else repptr
  let repcnt := repcnt - 1
  let b ← byteAt file data
  if b ≠ 0 then return (data, repptr, repcnt)
  let b ← byteAt file (data + 1)
  if b ≠ 0 then return (data, repptr, repcnt)
  let b ← byteAt file (data + 2)
  if b ≠ 255 then return (data, repptr, repcnt)
  let cnt ← byteAt file (data + 3)
  return (data + 4, data + 4, cnt.toNat)

def lines (file : List Byte) (patlen scanbytes : Int) (gap fuel : Nat) :
    Nat → Int → Int → Nat → Nat → List Byte → Option (Int × List Byte)
  | 0, _, _, _, _, mem => some (0, mem)
  | n + 1, data, repptr, repcnt, pic, mem => do
    let s ← lineStart file data repptr repcnt
    let r ← line file patlen fuel scanbytes s.1 pic mem
    if r.1 ≠ 0 then return (1, r.2.2.2)
    lines file patlen scanbytes gap fuel n r.2.1 s.2.1 s.2.2 (r.2.2.1 + gap) r.2.2.2

/-- `none` when it reads outside the file, stores outside the picture, or is not done with the fuel. -/
def decode (fuel : Nat) (file : List Byte) (data scanbytes patlen : Int) (realbytes scanlines : Nat)
    (pic : List Byte) : Option (Int × List Byte) :=
  lines file patlen scanbytes (realbytes - scanbytes.toNat) fuel scanlines data data 0 0 pic

structure IMGHDR where
  ver : Nat
  hdrlen : Nat
  planes : Nat
  patlen : Nat
  scanwidth : Nat
  scanlines : Nat
  deriving DecidableEq

def header (file : List Byte) : IMGHDR :=
  let word (i : Nat) := (file.getD (2 * i) 0).toNat * 256 + (file.getD (2 * i + 1) 0).toNat
  ⟨word 0, word 1, word 2, word 3, word 6, word 7⟩

def IMGHDR.bitmap (h : IMGHDR) : Option BITMAP :=
  if short h.scanwidth < 1 ∨ short h.scanlines < 1 then none
  else w_bmheader 1 { width := (short h.scanwidth).toNat, height := (short h.scanlines).toNat, type := .packedmono, colors := 2 }

def IMGHDR.Passes (h : IMGHDR) : Prop := h.ver = 1 ∧ 8 ≤ h.hdrlen ∧ h.planes = 1

instance (h : IMGHDR) : Decidable h.Passes := inferInstanceAs (Decidable (_ ∧ _ ∧ _))

def decodeFile (fuel : Nat) (file : List Byte) (garbage : Nat → Byte) (ret : BITMAP) : Option (Int × List Byte) :=
  let h := header file
  let realbytes := ret.linesize.toNat
  decode fuel file (2 * h.hdrlen) ((h.scanwidth + 7) / 8 : Nat) (short h.patlen) realbytes ret.height
    ((List.range (realbytes * ret.height)).map garbage)

def w_readimg (fuel : Nat) (file : List Byte) (garbage : Nat → Byte) : Option (Option (BITMAP × List Byte)) :=
  if file.length < 16 ∨ ¬ (header file).Passes then some none
  else
    match (header file).bitmap with
    | none => some none
    | some ret =>
      (decodeFile fuel file garbage ret).map fun r => if r.1 < 0 then none else some (ret, r.2)

inductive Item (file : List Byte) (patlen : Int) : Int → Int → Int → Prop
  | pattern {p : Int} {cnt : Byte} (h0 : byteAt file p = some 0) (h1 : byteAt file (p + 1) = some cnt)
      (hin : cnt ≠ 0 → ∀ i : Nat, (i : Int) < patlen → (byteAt file (p + 2 + i)).isSome) :
      Item file patlen p (p + 2 + patlen) (cnt.toNat * patlen)
  | string {p : Int} {cnt : Byte} (h0 : byteAt file p = some 128) (h1 : byteAt file (p + 1) = some cnt)
      (hin : ∀ i < cnt.toNat, (byteAt file (p + 2 + i)).isSome) :
      Item file patlen p (p + 2 + cnt.toNat) cnt.toNat
  | solid {p : Int} {first : Byte} (h0 : byteAt file p = some first) (hp : first ≠ 0) (hs : first ≠ 128) :
      Item file patlen p (p + 1) (first &&& 127).toNat

inductive Line (file : List Byte) (patlen : Int) : Int → Int → Int → Nat → Prop
  | done (p : Int) : Line file patlen 0 p p 0
  | item {n c p r q : Int} {m : Nat} (hn : 0 < n) (hi : Item file patlen p r c)
      (hl : Line file patlen (short (n - c)) r q m) : Line file patlen n p q (c.toNat + m)

inductive Picture (file : List Byte) (patlen scanbytes : Int) (gap size : Nat) : Nat → Int → Int → Nat → Nat → Prop
  | done (p rep : Int) (cnt pic : Nat) : Picture file patlen scanbytes gap size 0 p rep cnt pic
  | line {n : Nat} {p rep p' rep' q : Int} {cnt cnt' pic m : Nat}
      (hs : lineStart file p rep cnt = some (p', rep', cnt')) (hl : Line file patlen scanbytes p' q m)
      (hf : 0 < m → pic + m ≤ size)
      (ht : Picture file patlen scanbytes gap size n q rep' cnt' (pic + m + gap)) :
      Picture file patlen scanbytes gap size (n + 1) p rep cnt pic

variable {file mem mem' : List Byte} {patlen : Int}

theorem bytesAt_spec {data : Int} {n : Nat} : (∀ l, bytesAt file data n = some l → l.length = n) ∧
      ((bytesAt file data n).isSome ↔ ∀ i < n, (byteAt file (data + i)).isSome) := by
  induction n generalizing data with
  | zero => simp [bytesAt]
  | succ n ih =>
    obtain ⟨hlen, hin⟩ := @ih (data + 1)
    have hall : (∀ i < n + 1, (byteAt file (data + i)).isSome) ↔
        (byteAt file data).isSome ∧ ∀ i < n, (byteAt file (data + 1 + i)).isSome := by
      rw [Nat.forall_lt_succ_left]
      simp only [Nat.cast_zero, Int.add_zero, Nat.cast_add, Nat.cast_one]
      refine and_congr Iff.rfl (forall₂_congr fun i _ => ?_)
      rw [show data + ((i : Int) + 1) = data + 1 + i by omega]
    rw [hall, ← hin]
    cases hb : byteAt file data with
    | none => simp [bytesAt, hb]
    | some b =>
      cases hl : bytesAt file (data + 1) n with
      | none => simp [bytesAt, hb, hl]
      | some l => simpa [bytesAt, hb, hl] using hlen l hl

theorem store_spec {pic : Nat} {l : List Byte} : (∀ mem', store mem pic l = some mem' → mem'.length = mem.length) ∧
      ((store mem pic l).isSome ↔ (0 < l.length → pic + l.length ≤ mem.length)) := by
  induction l generalizing mem pic with
  | nil => simp [store]
  | cons b l ih =>
    rw [store]
    split_ifs with hp
    · obtain ⟨hlen, hin⟩ := @ih (mem.set pic b) (pic + 1)
      rw [List.length_set] at hlen hin
      refine ⟨hlen, hin.trans ?_⟩
      rw [List.length_cons]
      omega
    · simp only [false_implies, implies_true, isSome_none, Bool.false_eq_true, List.length_cons, true_and,
        false_iff]
      omega

theorem item_coded {p q c : Int} {l : List Byte} (h : item file patlen p = some (q, c, l)) :
    Item file patlen p q c ∧ l.length = c.toNat := by
  unfold item at h
  simp only [bind_eq_bind, bind_eq_some_iff] at h
  obtain ⟨first, h0, h⟩ := h
  split_ifs at h with hz hs
  · simp only [bind_eq_some_iff] at h
    obtain ⟨cnt, h1, pat, hpat, h⟩ := h
    cases h
    subst hz
    by_cases hc : cnt = 0
    · subst hc
      exact ⟨.pattern h0 h1 fun hne => absurd rfl hne, by simp⟩
    · rw [patternAt, if_neg hc] at hpat
      obtain ⟨hlen, hin⟩ := @bytesAt_spec file (p + 2) patlen.toNat
      refine ⟨.pattern h0 h1 fun _ i hi => hin.mp (hpat ▸ rfl) i (by omega), ?_⟩
      rw [List.length_flatten, List.map_replicate, List.sum_replicate_nat, hlen pat hpat]
      rcases le_total 0 patlen with hpos | hneg
      · lift patlen to Nat using hpos
        rfl
      · rw [Int.toNat_of_nonpos hneg, Nat.mul_zero, Int.toNat_of_nonpos]
        exact Int.mul_nonpos_of_nonneg_of_nonpos (Int.natCast_nonneg _) hneg
  · simp only [bind_eq_some_iff] at h
    obtain ⟨cnt, h1, l', hl, h⟩ := h
    cases h
    subst hs
    obtain ⟨hlen, hin⟩ := @bytesAt_spec file (p + 2) cnt.toNat
    exact ⟨.string h0 h1 (hin.mp (hl ▸ rfl)), hlen _ hl⟩
  · cases h
    exact ⟨.solid h0 hz hs, by simp⟩

theorem item_of_coded {p q c : Int} (h : Item file patlen p q c) : ∃ l, item file patlen p = some (q, c, l) := by
  cases h with
  | @pattern cnt h0 h1 hin =>
    obtain ⟨pat, hpat⟩ : ∃ pat, patternAt file patlen (p + 2) cnt = some pat := by
      unfold patternAt
      split_ifs with hc
      · exact ⟨_, rfl⟩
      · exact isSome_iff_exists.mp (bytesAt_spec.2.mpr fun i hi => hin hc i (by omega))
    exact ⟨_, by simp [item, h0, h1, hpat]; rfl⟩
  | string h0 h1 hin =>
    obtain ⟨l, hl⟩ := isSome_iff_exists.mp (bytesAt_spec.2.mpr hin)
    exact ⟨l, by simp [item, h0, h1, hl]⟩
  | @solid first h0 hp hs =>
    refine ⟨List.replicate (first &&& 127).toNat (solidByte first), ?_⟩
    rw [item, h0, bind_eq_bind, bind_some, if_neg hp, if_neg hs]
    rfl

theorem line_coded {fuel : Nat} {n p q : Int} {pic pic' : Nat}
    (h : line file patlen fuel n p pic mem = some (0, q, pic', mem')) :
    ∃ m, Line file patlen n p q m ∧ pic' = pic + m ∧ mem'.length = mem.length ∧ (0 < m → pic + m ≤ mem.length) := by
  induction fuel generalizing n p pic mem with
  | zero => cases h
  | succ fuel ih =>
    rw [line] at h
    split_ifs at h with hn
    · simp only [bind_eq_bind, bind_eq_some_iff] at h
      obtain ⟨⟨r, c, l⟩, hi, mem₁, hs, h⟩ := h
      obtain ⟨hi, hl⟩ := item_coded hi
      obtain ⟨hlen, hin⟩ := @store_spec mem pic l
      obtain ⟨m, hm, rfl, hlen', hf⟩ := ih h
      have hin := hin.mp (hs ▸ rfl)
      rw [hlen _ hs] at hf
      dsimp only at hin hf ⊢
      exact ⟨c.toNat + m, .item hn hi hm, by omega, hlen'.trans (hlen _ hs), by omega⟩
    · cases h
      exact ⟨0, .done _, rfl, rfl, fun h => absurd h (Nat.lt_irrefl 0)⟩

theorem line_of_coded {n p q : Int} {m : Nat} (h : Line file patlen n p q m) {pic : Nat}
    (hf : 0 < m → pic + m ≤ mem.length) :
    ∃ fuel mem', line file patlen fuel n p pic mem = some (0, q, pic + m, mem') ∧ mem'.length = mem.length := by
  induction h generalizing pic mem with
  | done p => exact ⟨1, mem, rfl, rfl⟩
  | @item n c p r q m hn hi hl ih =>
    obtain ⟨l, hil⟩ := item_of_coded hi
    obtain ⟨-, hlen⟩ := item_coded hil
    obtain ⟨hkeep, hin⟩ := @store_spec mem pic l
    obtain ⟨mem₁, hs⟩ := isSome_iff_exists.mp (hin.mpr (by omega))
    have hk := hkeep _ hs
    obtain ⟨fuel, mem₂, hrun, hlen₂⟩ := @ih mem₁ (pic + l.length) (by omega)
    refine ⟨fuel + 1, mem₂, ?_, hlen₂.trans hk⟩
    rw [line, if_pos hn, hil]
    simp only [bind_eq_bind, bind_some, hs]
    rw [hrun, hlen, Nat.add_assoc]

variable {fuel fuel' : Nat}

theorem line_more (hle : fuel ≤ fuel') {n p : Int} {pic : Nat} {r : Int × Int × Nat × List Byte}
    (h : line file patlen fuel n p pic mem = some r) : line file patlen fuel' n p pic mem = some r := by
  induction fuel generalizing fuel' n p pic mem with
  | zero => cases h
  | succ fuel ih =>
    obtain ⟨k, rfl⟩ := Nat.exists_eq_add_of_le' hle
    rw [← Nat.add_assoc]
    rw [line] at h ⊢
    split_ifs at h ⊢ with hn
    · simp only [bind_eq_bind, bind_eq_some_iff] at h ⊢
      obtain ⟨i, hi, mem₁, hs, h⟩ := h
      exact ⟨i, hi, mem₁, hs, ih (by omega) h⟩
    · exact h

variable {scanbytes : Int} {gap : Nat}

variable {cnt pic : Nat} {p rep : Int}

theorem lines_coded {fuel n : Nat}
    (h : lines file patlen scanbytes gap fuel n p rep cnt pic mem = some (0, mem')) :
    Picture file patlen scanbytes gap mem.length n p rep cnt pic := by
  induction n generalizing p rep cnt pic mem with
  | zero => exact .done _ _ _ _
  | succ n ih =>
    rw [lines] at h
    simp only [bind_eq_bind, bind_eq_some_iff] at h
    obtain ⟨⟨p', rep', cnt'⟩, hs, ⟨left, q, pic', mem₁⟩, hl, h⟩ := h
    split_ifs at h with hleft
    · cases h
    · obtain rfl : left = 0 := by simpa using hleft
      obtain ⟨m, hm, rfl, hlen, hf⟩ := line_coded hl
      have ht := ih h
      rw [hlen] at ht
      exact .line hs hm hf ht

variable {r : Int × List Byte}

theorem lines_more (hle : fuel ≤ fuel') {n : Nat}
    (h : lines file patlen scanbytes gap fuel n p rep cnt pic mem = some r) :
    lines file patlen scanbytes gap fuel' n p rep cnt pic mem = some r := by
  induction n generalizing p rep cnt pic mem with
  | zero => exact h
  | succ n ih =>
    rw [lines] at h ⊢
    simp only [bind_eq_bind, bind_eq_some_iff] at h ⊢
    obtain ⟨s, hs, l, hl, h⟩ := h
    refine ⟨s, hs, l, line_more hle hl, ?_⟩
    split_ifs at h ⊢ with hleft
    · exact h
    · exact ih h

theorem lines_of_coded {n : Nat} {cnt pic size : Nat}
    (h : Picture file patlen scanbytes gap size n p rep cnt pic) (hsize : mem.length = size) :
    ∃ fuel mem', lines file patlen scanbytes gap fuel n p rep cnt pic mem = some (0, mem') := by
  induction h generalizing mem with
  | done p rep cnt pic => exact ⟨0, mem, rfl⟩
  | line hs hl hf ht ih =>
    rw [← hsize] at hf
    obtain ⟨fuel, mem₁, hrun, hlen⟩ := line_of_coded hl hf
    obtain ⟨fuel', mem₂, hrun'⟩ := ih (hlen.trans hsize)
    -- the fuel of the longest line
    refine ⟨max fuel fuel', mem₂, ?_⟩
    rw [lines, hs]
    simp only [bind_eq_bind, bind_some]
    rw [line_more (Nat.le_max_left _ _) hrun, bind_some, if_neg (by simp)]
    exact lines_more (Nat.le_max_right _ _) hrun'

def Accepted (file : List Byte) (ret : BITMAP) : Prop :=
  16 ≤ file.length ∧ (header file).Passes ∧ (header file).bitmap = some ret

/-- `decode` comes to its end without leaving the file or the picture, and what it finds wrong is not
returned as a bitmap. -/
def ReadsImg (file : List Byte) (garbage : Nat → Byte) (ret : BITMAP) : Prop :=
  ∃ fuel r, decodeFile fuel file garbage ret = some r ∧
    (r.1 ≠ 0 → w_readimg fuel file garbage = some none)

def WellCoded (file : List Byte) (ret : BITMAP) : Prop :=
  let h := header file
  let scanbytes := (h.scanwidth + 7) / 8
  let realbytes := ret.linesize.toNat
  Picture file (short h.patlen) scanbytes (realbytes - scanbytes) (realbytes * ret.height) ret.height
    (2 * h.hdrlen) (2 * h.hdrlen) 0 0

theorem w_readimg_of_accepted {garbage : Nat → Byte} {ret : BITMAP} (h : Accepted file ret) (fuel : Nat) :
    w_readimg fuel file garbage =
      (decodeFile fuel file garbage ret).map fun r => if r.1 < 0 then none else some (ret, r.2) := by
  obtain ⟨hlen, hp, hb⟩ := h
  rw [w_readimg, if_neg (by rw [not_or, not_not, Nat.not_lt]; exact ⟨hlen, hp⟩), hb]

theorem lines_result {fuel n : Nat}
    (h : lines file patlen scanbytes gap fuel n p rep cnt pic mem = some r) : r.1 = 0 ∨ r.1 = 1 := by
  induction n generalizing p rep cnt pic mem with
  | zero =>
    cases h
    exact .inl rfl
  | succ n ih =>
    rw [lines] at h
    simp only [bind_eq_bind, bind_eq_some_iff] at h
    obtain ⟨s, -, l, -, h⟩ := h
    split_ifs at h with hleft
    · cases h
      exact .inr rfl
    · exact ih h

/-- Only a well coded file is read as it should be: `w_readimg` takes the error for a success. -/
theorem w_readimg_exact_iff (file : List Byte) (garbage : Nat → Byte) (ret : BITMAP) (h : Accepted file ret) :
    ReadsImg file garbage ret ↔ WellCoded file ret := by
  have hlen : ((List.range (ret.linesize.toNat * ret.height)).map garbage).length = ret.linesize.toNat * ret.height := by
    rw [List.length_map, List.length_range]
  constructor
  · rintro ⟨fuel, ⟨res, mem⟩, hd, hnull⟩
    have hres : res = 0 := by
      by_contra hne
      have hnull := hnull hne
      rw [w_readimg_of_accepted h, hd] at hnull
      have hpos : ¬ res < 0 := by
        rcases lines_result hd with h | h
        · exact absurd h hne
        · dsimp only at h
          omega
      simp [hpos] at hnull
    subst hres
    have hp := lines_coded hd
    rw [hlen] at hp
    exact hp
  · intro hp
    obtain ⟨fuel, mem, hrun⟩ := lines_of_coded hp hlen
    exact ⟨fuel, (0, mem), hrun, fun hne => absurd rfl hne⟩

def oneLine (data : List Byte) : List Byte :=
  [0, 1, 0, 8, 0, 1, 0, 2, 1, 116, 1, 116, 0, 8, 0, 1] ++ data

def oneLineBitmap : BITMAP :=
  { width := 8, height := 1, type := .packedmono, unitsize := 4, upl := 1, planes := 1, colors := 2 }

theorem oneLine_decode {file : List Byte} (h : header file = ⟨1, 8, 1, 2, 8, 1⟩) (fuel : Nat) :
    decodeFile fuel file (fun _ => 0) oneLineBitmap = lines file 2 1 3 fuel 1 16 16 0 0 [0, 0, 0, 0] := by
  rw [decodeFile, h]
  rfl

theorem oneLine_accepted {file : List Byte} (h : header file = ⟨1, 8, 1, 2, 8, 1⟩) (hlen : 16 ≤ file.length) :
    Accepted file oneLineBitmap := by
  refine ⟨hlen, ?_, ?_⟩
  · rw [h]
    decide
  · rw [h]
    rfl

theorem w_readimg_exact_black : ReadsImg (oneLine [129]) (fun _ => 0) oneLineBitmap ↔ WellCoded (oneLine [129]) oneLineBitmap :=
  w_readimg_exact_iff _ _ _ (oneLine_accepted (by decide) (by decide))

/-- A run of nine bytes leaves the picture, and one of two bytes is an error that is not noticed. -/
theorem w_readimg_not_exact :
    (Accepted (oneLine [9]) oneLineBitmap ∧ ∀ fuel, decodeFile fuel (oneLine [9]) (fun _ => 0) oneLineBitmap = none) ∧
    Accepted (oneLine [2]) oneLineBitmap ∧ ¬ ReadsImg (oneLine [2]) (fun _ => 0) oneLineBitmap := by
  have hh : ∀ b : Byte, b ∈ [2, 9] → header (oneLine [b]) = ⟨1, 8, 1, 2, 8, 1⟩ := by decide
  have hstart : ∀ b : Byte, b ∈ [2, 9] → lineStart (oneLine [b]) 16 16 0 = some (16, 16, 0) := by decide
  refine ⟨⟨oneLine_accepted (hh 9 (by decide)) (by decide), fun fuel => ?_⟩,
    oneLine_accepted (hh 2 (by decide)) (by decide), ?_⟩
  · have hi : item (oneLine [9]) 2 16 = some (17, 9, List.replicate 9 0) := by decide
    have hs : store [0, 0, 0, 0] 0 (List.replicate 9 0) = none := by decide
    rw [oneLine_decode (hh 9 (by decide)), lines, hstart 9 (by decide), Option.bind_eq_bind, Option.bind_some]
    cases fuel with
    | zero => rfl
    | succ fuel =>
      rw [line, if_pos (by decide), hi]
      simp only [Option.bind_eq_bind, Option.bind_some, hs, Option.bind_none]
  · rintro ⟨fuel, r, hr, hnull⟩
    have hi : item (oneLine [2]) 2 16 = some (17, 2, List.replicate 2 0) := by decide
    have hs : store [0, 0, 0, 0] 0 (List.replicate 2 0) = some [0, 0, 0, 0] := by decide
    rw [w_readimg_of_accepted (oneLine_accepted (hh 2 (by decide)) (by decide)), hr] at hnull
    rw [oneLine_decode (hh 2 (by decide)), lines, hstart 2 (by decide), Option.bind_eq_bind, Option.bind_some] at hr
    match fuel with
    | 0 => cases hr
    | fuel + 1 =>
      rw [line, if_pos (by decide), hi] at hr
      simp only [Option.bind_eq_bind, Option.bind_some, hs] at hr
      match fuel with
      | 0 => cases hr
      | fuel + 1 =>
        cases hr
        simp at hnull

end WWindowSystem.Img
