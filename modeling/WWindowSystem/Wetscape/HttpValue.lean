import Mathlib.Tactic.SplitIfs
import WWindowSystem.Wetscape.HttpReply
import WWindowSystem.Wetscape.UrlRoundTrip

namespace WWindowSystem.Http

open List Option

/-- The value without the parts from a `(` to the next `)`; the flag says that one has begun. -/
def uncommented : Bool → List Byte → List Byte
  | _, [] => []
  | true, c :: l => if c = 41 then uncommented false l else uncommented true l
  | false, c :: l => if c = 40 ∧ 41 ∈ l then uncommented true l else c :: uncommented false l

def kept : Bool → List Byte → List Byte
  | _, [] => []
  | true, c :: l => if c = 41 then c :: kept false l else kept true l
  | false, c :: l => if c = 40 ∧ 41 ∈ l then kept true l else c :: kept false l

def Commented (v : List Byte) : Prop := ∃ s t u, v = s ++ 40 :: t ++ 41 :: u

theorem Commented.cons {v : List Byte} (h : Commented v) (c : Byte) : Commented (c :: v) := by
  obtain ⟨s, t, u, rfl⟩ := h
  exact ⟨c :: s, t, u, rfl⟩

theorem plain_eq {v : List Byte} (h : ¬ Commented v) : kept false v = v ∧ uncommented false v = v := by
  induction v with
  | nil => exact ⟨rfl, rfl⟩
  | cons c v ih =>
    have hc : ¬ (c = 40 ∧ 41 ∈ v) := by
      rintro ⟨rfl, hmem⟩
      obtain ⟨t, u, rfl⟩ := append_of_mem hmem
      exact h ⟨[], t, u, rfl⟩
    obtain ⟨h1, h2⟩ := ih fun hv => h (hv.cons c)
    rw [kept, if_neg hc, h1, uncommented, if_neg hc, h2]
    exact ⟨rfl, rfl⟩

variable (v : List Byte)

theorem uncommented_le (b : Bool) : (uncommented b v).length ≤ (kept b v).length := by
  induction v generalizing b with
  | nil => cases b <;> exact le_refl _
  | cons c v ih =>
    cases b with
    | true =>
      rw [uncommented, kept]
      split_ifs with hc
      · have := ih false
        simp only [length_cons]
        omega
      · exact ih true
    | false =>
      rw [uncommented, kept]
      split_ifs
      · exact ih true
      · have := ih false
        simp only [length_cons]
        omega

theorem uncommented_lt {v : List Byte} : (Commented v → (uncommented false v).length < (kept false v).length) ∧
      (41 ∈ v → (uncommented true v).length < (kept true v).length) := by
  induction v with
  | nil =>
    refine ⟨fun ⟨s, t, u, h⟩ => ?_, fun h => absurd h not_mem_nil⟩
    simp at h
  | cons c v ih =>
    constructor
    · intro h
      rw [uncommented, kept]
      split_ifs with hc
      · exact ih.2 hc.2
      · have hv : Commented v := by
          obtain ⟨s, t, u, h⟩ := h
          cases s with
          | nil =>
            simp only [nil_append, cons_append, List.cons.injEq] at h
            exact absurd ⟨h.1, by rw [h.2]; simp⟩ hc
          | cons d s =>
            simp only [cons_append, List.cons.injEq] at h
            exact ⟨s, t, u, h.2⟩
        simpa using ih.1 hv
    · intro h
      rw [uncommented, kept]
      split_ifs with hc
      · have := uncommented_le v false
        simp only [length_cons]
        omega
      · have hv : 41 ∈ v := by
          rcases mem_cons.1 h with h | h
          · exact absurd h.symm hc
          · exact h
        exact ih.2 hv

theorem kept_eq_iff : kept false v = uncommented false v ↔ ¬ Commented v := by
  constructor
  · intro h hc
    have := uncommented_lt.1 hc
    rw [h] at this
    exact Nat.lt_irrefl _ this
  · intro h
    rw [(plain_eq h).1, (plain_eq h).2]

theorem kept_subset (b : Bool) : ∀ c ∈ kept b v, c ∈ v := by
  induction v generalizing b with
  | nil => cases b <;> simp [kept]
  | cons d v ih =>
    intro c hc
    cases b with
    | true =>
      rw [kept] at hc
      split_ifs at hc
      · rcases mem_cons.1 hc with rfl | hc
        · exact .head _
        · exact .tail _ (ih false c hc)
      · exact .tail _ (ih true c hc)
    | false =>
      rw [kept] at hc
      split_ifs at hc
      · exact .tail _ (ih true c hc)
      · rcases mem_cons.1 hc with rfl | hc
        · exact .head _
        · exact .tail _ (ih false c hc)

theorem kept_first {plain t : List Byte} (hp : 40 ∉ plain) (ht : 41 ∉ t) (u : List Byte) :
    kept false (plain ++ 40 :: t ++ 41 :: u) = plain ++ 41 :: kept false u := by
  have inside : ∀ t : List Byte, 41 ∉ t → kept true (t ++ 41 :: u) = 41 :: kept false u := by
    intro t ht
    induction t with
    | nil => simp [kept]
    | cons d t ih =>
      obtain ⟨hd, ht⟩ : (41 : Byte) ≠ d ∧ 41 ∉ t := by simpa using ht
      rw [cons_append, kept, if_neg (Ne.symm hd), ih ht]
  induction plain with
  | nil => rw [nil_append, cons_append, kept, if_pos ⟨rfl, by simp⟩, inside t ht, nil_append]
  | cons d plain ih =>
    obtain ⟨hd, hp⟩ : (40 : Byte) ≠ d ∧ 40 ∉ plain := by simpa using hp
    rw [cons_append, cons_append, kept, if_neg fun h => hd h.1.symm, ih hp, cons_append]

theorem first_comment : (∃ plain t u, v = plain ++ 40 :: (t ++ 41 :: u) ∧ 40 ∉ plain ∧ 41 ∉ t) ∨
    (∃ plain s, v = plain ++ 40 :: s ∧ 40 ∉ plain ∧ 41 ∉ s ∧ ¬ Commented v) ∨ 40 ∉ v ∧ ¬ Commented v := by
  by_cases hopen : 40 ∈ v
  · obtain ⟨plain, s, rfl, hplain⟩ := eq_append_cons_of_mem hopen
    by_cases hclose : 41 ∈ s
    · obtain ⟨t, u, rfl, ht⟩ := eq_append_cons_of_mem hclose
      exact .inl ⟨plain, t, u, rfl, hplain, ht⟩
    · refine .inr (.inl ⟨plain, s, rfl, hplain, hclose, fun ⟨a, t, u, he⟩ => hclose ?_⟩)
      have hsplit : (plain ++ 40 :: s).drop plain.length = 40 :: s := drop_left
      rw [he] at hsplit
      -- what stands in front of the first opening parenthesis is not longer than `a`
      have hle : plain.length ≤ a.length := by
        by_contra hlt
        have hget : (plain ++ 40 :: s)[a.length]? = some 40 := by rw [he]; simp
        rw [getElem?_append_left (by omega)] at hget
        exact hplain (mem_of_getElem? hget)
      have hmem : 41 ∈ (40 : Byte) :: s := by
        rw [← hsplit, drop_append_of_le_length (by simp only [length_append]; omega)]
        simp
      simpa using hmem
  · exact .inr (.inr ⟨hopen, fun ⟨a, t, u, he⟩ => hopen (by rw [he]; simp)⟩)

theorem xstrfind_at {c : Byte} {b : List Byte} (h : c ∉ b) (r : List Byte) :
    xstrfind (b ++ c :: r) [c] = some (c :: r) := by
  have hp : ∀ d ∈ b, d ∉ [c] := fun d hd hmem => h (by rwa [← mem_singleton.1 hmem])
  rw [xstrfind_skip hp, xstrfind, if_pos (mem_singleton.2 rfl)]

theorem xstrfind_not {c : Byte} {v : List Byte} (h : c ∉ v) : xstrfind v [c] = none := by
  have hp : ∀ d ∈ v, d ∉ [c] := fun d hd hmem => h (by rwa [← mem_singleton.1 hmem])
  have hskip := xstrfind_skip hp []
  rwa [append_nil] at hskip

theorem kill_comments_eq : kill_comments v = kept false v := by
  have turn : ∀ s : List Byte × List Byte, s.1 ++ kept false s.2 = kept false v → killTurn s = .inr (kept false v) ∨
      ∃ s', killTurn s = .inl s' ∧ s'.1 ++ kept false s'.2 = kept false v ∧ s'.2.length < s.2.length := by
    rintro ⟨front, str⟩ hs
    dsimp only at hs
    rcases first_comment str with ⟨plain, t, u, rfl, hp, ht⟩ | ⟨plain, s, rfl, hp, hq, hc⟩ | ⟨hp, hc⟩
    · refine .inr ⟨(front ++ plain, 41 :: u), ?_, ?_, ?_⟩
      · have h1 := xstrfind_at hp (t ++ 41 :: u)
        have h2 : xstrfind (40 :: (t ++ 41 :: u)) [41] = some (41 :: u) :=
          xstrfind_at (b := 40 :: t) (by simpa using ht) u
        rw [killTurn, h1]
        dsimp only
        rw [h2]
        simp
      · have hk := kept_first hp ht u
        rw [append_assoc, cons_append] at hk
        rw [hk] at hs
        rw [← hs, kept, if_neg fun h => absurd h.1 (by decide), append_assoc]
      · simp only [length_append, length_cons]
        omega
    · refine .inl ?_
      have h2 : xstrfind (40 :: s) [41] = none := xstrfind_not (by simpa using hq)
      rw [(plain_eq hc).1] at hs
      rw [killTurn, xstrfind_at hp]
      dsimp only
      rw [h2, hs]
    · rw [(plain_eq hc).1] at hs
      rw [killTurn, xstrfind_not hp, hs]
      exact .inl rfl
  obtain ⟨r, hr, rfl⟩ := runLoop_spec (fun s => s.1 ++ kept false s.2 = kept false v) (fun s => s.2.length)
    (fun r => r = kept false v)
    (fun s s' hs (hb : killTurn s = .inl s') => by
      rcases turn s hs with h | ⟨s'', h, hk, hlt⟩
      · rw [h] at hb
        cases hb
      · rw [h] at hb
        cases hb
        exact ⟨hk, hlt⟩)
    (fun s r hs hb => by
      rcases turn s hs with h | ⟨s'', h, -⟩
      · rw [h] at hb
        cases hb
        rfl
      · rw [h] at hb
        cases hb)
    (s := ([], v)) (n := v.length + 1) rfl (Nat.lt_succ_self _)
  rw [kill_comments, hr]
  rfl

def token (v : List Byte) : List Byte :=
  match skipspace v with
  | 34 :: cp => cp.takeWhile fun c => c ≠ 34
  | 60 :: cp => cp.takeWhile fun c => c ≠ 62
  | cp => cp.takeWhile fun c => c ∉ cstring " \n\t"

def Unclosed (v cp : List Byte) : Prop := skipspace v = 34 :: cp ∧ 34 ∉ cp ∨ skipspace v = 60 :: cp ∧ 62 ∉ cp

variable {q : Byte}

theorem takeWhile_at {p : List Byte} (h : q ∉ p) (s : List Byte) : (p ++ q :: s).takeWhile (fun c => c ≠ q) = p := by
  rw [takeWhile_append_of_pos, takeWhile_cons_of_neg (by simp), append_nil]
  intro c hc
  simpa using fun e : c = q => h (e ▸ hc)

theorem takeWhile_not {p : List Byte} (h : q ∉ p) : p.takeWhile (fun c => c ≠ q) = p := by
  rw [takeWhile_eq_self_iff]
  intro c hc
  simpa using fun e : c = q => h (e ▸ hc)

theorem takeWhile_same {p q : Byte → Bool} {l : List Byte} (h : ∀ d ∈ l, p d = q d) : l.takeWhile p = l.takeWhile q := by
  induction l with
  | nil => rfl
  | cons c l ih =>
    rw [takeWhile_cons, takeWhile_cons, h c (.head _), ih fun d hd => h d (.tail _ hd)]

theorem take_takeWhile (p : Byte → Bool) (l : List Byte) : l.take (l.takeWhile p).length = l.takeWhile p :=
  prefix_iff_eq_take.1 (List.takeWhile_prefix p) |>.symm

theorem quoted_length {r : List Byte} (h : q ∈ r) (n : Int) :
    (xstrfind r [q]).elim n (fun cp2 => (r.length : Int) - cp2.length) = ((r.takeWhile fun c => c ≠ q).length : Int) := by
  obtain ⟨p, s, rfl, hp⟩ := eq_append_cons_of_mem h
  rw [xstrfind_at hp, takeWhile_at hp, elim_some]
  simp only [length_append]
  omega

variable (E : HttpEnv)

theorem gettoken_shape (v : List Byte) :
    (∃ q r, q ≠ 0 ∧ ((skipspace v = 34 :: r ∧ q = 34) ∨ (skipspace v = 60 :: r ∧ q = 62)) ∧
      gettoken E v = (r, (xstrfind r [q]).elim (E.unclosed r) fun cp2 => (r.length : Int) - cp2.length) ∧
      token v = r.takeWhile fun c => c ≠ q) ∨
    (∀ r, skipspace v ≠ 34 :: r) ∧ (∀ r, skipspace v ≠ 60 :: r) ∧
      token v = ((skipspace v).takeWhile fun c => c ∉ cstring " \n\t") ∧ gettoken E v = (skipspace v, ((token v).length : Int)) := by
  by_cases h34 : ∃ r, skipspace v = 34 :: r
  · obtain ⟨r, hr⟩ := h34
    exact .inl ⟨34, r, by decide, .inl ⟨hr, rfl⟩, by rw [gettoken, hr]; rfl, by rw [token, hr]; rfl⟩
  by_cases h60 : ∃ r, skipspace v = 60 :: r
  · obtain ⟨r, hr⟩ := h60
    exact .inl ⟨62, r, by decide, .inr ⟨hr, rfl⟩, by rw [gettoken, hr]; rfl, by rw [token, hr]; rfl⟩
  have htoken : token v = (skipspace v).takeWhile fun c => c ∉ cstring " \n\t" := by
    unfold token
    split
    · exact absurd ⟨_, ‹_›⟩ h34
    · exact absurd ⟨_, ‹_›⟩ h60
    · rfl
  refine .inr ⟨fun r hr => h34 ⟨r, hr⟩, fun r hr => h60 ⟨r, hr⟩, htoken, ?_⟩
  rw [htoken]
  unfold gettoken
  split
  · exact absurd ⟨_, ‹_›⟩ h34
  · exact absurd ⟨_, ‹_›⟩ h60
  · rfl

theorem gettoken_token (v : List Byte) :
    (∃ cp, Unclosed v cp ∧ gettoken E v = (cp, E.unclosed cp) ∧ token v = cp) ∨
      (∀ cp, ¬ Unclosed v cp) ∧ ∃ cp, gettoken E v = (cp, ((token v).length : Int)) ∧ cp.take (token v).length = token v := by
  rcases gettoken_shape E v with ⟨q, r, -, hq, hget, htoken⟩ | ⟨h34, h60, htoken, hget⟩
  · by_cases hmem : q ∈ r
    · refine .inr ⟨?_, r, by rw [hget, htoken, quoted_length hmem], by rw [htoken]; exact take_takeWhile _ _⟩
      rintro cp (⟨h, hn⟩ | ⟨h, hn⟩) <;> obtain ⟨hv, rfl⟩ | ⟨hv, rfl⟩ := hq <;> rw [hv, List.cons.injEq] at h
      · exact hn (h.2 ▸ hmem)
      · exact absurd h.1 (by decide)
      · exact absurd h.1 (by decide)
      · exact hn (h.2 ▸ hmem)
    · refine .inl ⟨r, ?_, by rw [hget, xstrfind_not hmem]; rfl, by rw [htoken, takeWhile_not hmem]⟩
      obtain ⟨hv, rfl⟩ | ⟨hv, rfl⟩ := hq
      · exact .inl ⟨hv, hmem⟩
      · exact .inr ⟨hv, hmem⟩
  · refine .inr ⟨?_, _, hget, by rw [htoken]; exact take_takeWhile _ _⟩
    rintro cp (⟨h, -⟩ | ⟨h, -⟩)
    · exact h34 _ h
    · exact h60 _ h

namespace Memory

/-- The first place from `cp` on that holds such a byte; `none` when there is none in the buffer. -/
def scan (p : Byte → Bool) (b : List Byte) (cp : Nat) : Option Nat := ((b.drop cp).findIdx? p).map (cp + ·)

def strlen (b : List Byte) (cp : Nat) : Option Nat := (scan (fun d => d = 0) b cp).map (· - cp)

def strchr (c : Byte) (b : List Byte) (cp : Nat) : Option (Option Nat) :=
  (scan (fun d => d = c ∨ d = 0) b cp).map fun i => if b.getD i 0 = c then some i else none

def memmove (dst src n : Nat) (b : List Byte) : Option (List Byte) :=
  if src + n ≤ b.length ∧ dst + n ≤ b.length then some (b.take dst ++ (b.drop src).take n ++ b.drop (dst + n)) else none

def killTurn : Nat × List Byte → (Nat × List Byte) ⊕ Option (List Byte)
  | (cp, b) =>
    match strchr 40 b cp with
    | none => .inr none
    | some none => .inr (some b)
    | some (some cp) =>
      match strchr 41 b cp with
      | none => .inr none
      | some none => .inr (some b)
      | some (some cp2) =>
        match (strlen b cp2).bind fun n => memmove cp cp2 (n + 1) b with
        | none => .inr none
        | some b => .inl (cp, b)

def kill_comments (b : List Byte) : Option (List Byte) := (runLoop killTurn (b.length + 1) (0, b)).join

def gettoken (E : HttpEnv) (b : List Byte) : Option (Nat × Int) :=
  (scan (fun d => d = 0 ∨ !isspace d) b 0).bind fun cp =>
    if b.getD cp 0 = 34 then
      (strchr 34 b (cp + 1)).map fun cp2 => (cp + 1, cp2.elim (E.unclosed (cstr (b.drop (cp + 1)))) fun i : Nat => (i : Int) - (cp + 1 : Nat))
    else if b.getD cp 0 = 60 then
      (strchr 62 b (cp + 1)).map fun cp2 => (cp + 1, cp2.elim (E.unclosed (cstr (b.drop (cp + 1)))) fun i : Nat => (i : Int) - (cp + 1 : Nat))
    else (scan (fun d => d = 0 ∨ d ∈ cstring " \n\t") b cp).map fun i : Nat => (cp, (i : Int) - cp)

def xstrndup (b : List Byte) (cp : Nat) (len : Int) : Option (Option (List Byte)) :=
  if len < 0 then some none
  else if 0 ∈ (b.drop cp).take len.toNat ∨ cp + len.toNat ≤ b.length then some (some (cstr ((b.drop cp).take len.toNat)))
  else none

def atol (E : HttpEnv) (b : List Byte) (cp : Nat) : Option Int := (strlen b cp).map fun _ => strtol E.longMax (cstr (b.drop cp))

def parse_value (E : HttpEnv) (iop : http_io) : Option http_io :=
  (kill_comments iop.hhook.buf).bind fun buf =>
    match iop.hhook.option with
    | .ContLength => (gettoken E buf).bind fun p => (atol E buf p.1).map fun n =>
        { iop with hhook := { iop.hhook with buf := buf, contentlen := n } }
    | .ContType => (gettoken E buf).bind fun p => (xstrndup buf p.1 p.2).bind fun mimetype =>
        (scan (fun d => d = 0 ∨ d ∈ cstring " \t\n;") buf p.1).map fun i =>
          { iop with mimetype := mimetype, hhook := { iop.hhook with buf := if buf.getD i 0 = 0 then buf else buf.set i 0 } }
    | .Location => (gettoken E buf).bind fun p => (xstrndup buf p.1 p.2).map fun newurl =>
        { iop with hhook := { iop.hhook with buf := buf, newurl := newurl } }
    | _ => some { iop with hhook := { iop.hhook with buf := buf } }

variable {a b r : List Byte} {c : Byte} {p : Byte → Bool}

theorem scan_at (hp : ∀ d ∈ b, p d = false) (hc : p c = true) :
    scan p (a ++ b ++ c :: r) a.length = some (a.length + b.length) := by
  have hfind : (b ++ c :: r).findIdx? p = some b.length := by
    rw [findIdx?_append, findIdx?_eq_none_iff.2 hp, findIdx?_cons, hc]
    simp
  rw [scan, append_assoc, drop_left, hfind]
  rfl

theorem getD_at (front rest : List Byte) (c : Byte) : (front ++ c :: rest).getD front.length 0 = c := by
  simp

theorem strlen_at {a u z : List Byte} (h : 0 ∉ u) : strlen (a ++ u ++ 0 :: z) a.length = some u.length := by
  rw [strlen, scan_at (fun d hd => ?_) rfl]
  · simp
  · simpa using fun e : d = 0 => h (e ▸ hd)

theorem strchr_found (hp : ∀ d ∈ b, d ≠ c ∧ d ≠ 0) :
    strchr c (a ++ b ++ c :: r) a.length = some (some (a.length + b.length)) := by
  rw [strchr, scan_at (fun d hd => ?_) (by simp)]
  · rw [map_some, if_pos]
    rw [← length_append]
    exact getD_at _ _ _
  · simpa using hp d hd

theorem strchr_null (h0 : c ≠ 0) {a u z : List Byte} (hp : ∀ d ∈ u, d ≠ c ∧ d ≠ 0) :
    strchr c (a ++ u ++ 0 :: z) a.length = some none := by
  rw [strchr, scan_at (fun d hd => ?_) (by simp)]
  · rw [map_some, if_neg]
    rw [← length_append, getD_at]
    exact Ne.symm h0
  · simpa using hp d hd

theorem memmove_at (a t u tail : List Byte) : ∃ tail', tail'.length = t.length + tail.length ∧
    memmove a.length (a.length + t.length) (u.length + 1) (a ++ t ++ u ++ 0 :: tail) = some (a ++ u ++ 0 :: tail') := by
  refine ⟨(a ++ t ++ u ++ 0 :: tail).drop (a.length + (u.length + 1)), ?_, ?_⟩
  · simp only [length_drop, length_append, length_cons]
    omega
  · have hsrc : (a ++ t ++ u ++ 0 :: tail).drop (a.length + t.length) = u ++ 0 :: tail := by
      rw [append_assoc (a ++ t), ← length_append, drop_left]
    have htake : (u ++ 0 :: tail).take (u.length + 1) = u ++ [0] := by
      rw [show u ++ 0 :: tail = (u ++ [0]) ++ tail by simp, take_left' (by simp)]
    have hdst : (a ++ t ++ u ++ 0 :: tail).take a.length = a := by
      rw [append_assoc, append_assoc, take_left]
    rw [memmove, if_pos, hsrc, htake, hdst]
    · simp
    · simp only [length_append, length_cons]
      omega

theorem cstr_drop {str : List Byte} (h : 0 ∉ str) (front tail : List Byte) :
    cstr ((front ++ str ++ 0 :: tail).drop front.length) = str := by
  rw [append_assoc, drop_left, cstr_append_nul h]

/-- What the loop of `kill_comments` has done when it looks for the next comment at `cp`. -/
def Killing (v : List Byte) (n : Nat) (s : Nat × List Byte) : Prop :=
  ∃ front str tail, s = (front.length, front ++ str ++ 0 :: tail) ∧ 0 ∉ str ∧ front ++ kept false str = kept false v ∧
    s.2.length = n

theorem kill_turn {v : List Byte} {n : Nat} {s : Nat × List Byte} (h : Killing v n s) :
    (∃ tail, killTurn s = .inr (some (kept false v ++ 0 :: tail)) ∧ (kept false v ++ 0 :: tail).length = n) ∨
      ∃ s', killTurn s = .inl s' ∧ Killing v n s' ∧ (cstr (s'.2.drop s'.1)).length < (cstr (s.2.drop s.1)).length := by
  obtain ⟨front, str, tail, rfl, h0, hkept, hn⟩ := h
  have nul : ∀ l : List Byte, 0 ∉ l → ∀ d ∈ l, d ≠ 0 := fun l hl d hd e => hl (e ▸ hd)
  -- without a comment in the rest the string is as it is to be
  have leave : ¬ Commented str → front ++ str ++ 0 :: tail = kept false v ++ 0 :: tail ∧
      (kept false v ++ 0 :: tail).length = n := by
    intro hc
    rw [(plain_eq hc).1] at hkept
    exact ⟨by rw [hkept], by rw [← hkept]; exact hn⟩
  have hfirst : ∀ {plain s : List Byte}, str = plain ++ 40 :: s → 40 ∉ plain →
      strchr 40 (front ++ str ++ 0 :: tail) front.length = some (some (front ++ plain).length) := by
    rintro plain s rfl hplain
    have h0p : 0 ∉ plain := fun h => h0 (mem_append_left _ h)
    have := strchr_found (c := 40) (a := front) (b := plain) (r := s ++ 0 :: tail)
      fun d hd => ⟨fun e => hplain (e ▸ hd), nul plain h0p d hd⟩
    rw [length_append, ← this]
    simp
  rcases first_comment str with ⟨plain, t, u, rfl, hplain, ht⟩ | ⟨plain, s, rfl, hplain, hclose, hc⟩ | ⟨hopen, hc⟩
  · have h0p : 0 ∉ plain ∧ 0 ∉ t ++ 41 :: u := by simpa using h0
    have h0t : 0 ∉ t ∧ 0 ∉ u := by simpa using h0p.2
    have hsecond : strchr 41 (front ++ (plain ++ 40 :: (t ++ 41 :: u)) ++ 0 :: tail) (front ++ plain).length =
        some (some ((front ++ plain).length + (40 :: t).length)) := by
      have := strchr_found (c := 41) (a := front ++ plain) (b := 40 :: t) (r := u ++ 0 :: tail) fun d hd => by
        rcases mem_cons.1 hd with rfl | hd
        · decide
        · exact ⟨fun e => ht (e ▸ hd), nul t h0t.1 d hd⟩
      rw [← this]
      simp
    have hlen : strlen (front ++ (plain ++ 40 :: (t ++ 41 :: u)) ++ 0 :: tail) ((front ++ plain).length + (40 :: t).length) =
        some (41 :: u).length := by
      have := strlen_at (a := front ++ plain ++ 40 :: t) (u := 41 :: u) (z := tail) (by simpa using h0t.2)
      rw [← this, ← length_append]
      simp
    obtain ⟨tail', htail, hmove⟩ := memmove_at (front ++ plain) (40 :: t) (41 :: u) tail
    have hmove' : memmove (front ++ plain).length ((front ++ plain).length + (40 :: t).length) ((41 :: u).length + 1)
        (front ++ (plain ++ 40 :: (t ++ 41 :: u)) ++ 0 :: tail) = some (front ++ plain ++ 41 :: u ++ 0 :: tail') := by
      rw [← hmove]
      simp
    refine .inr ⟨((front ++ plain).length, front ++ plain ++ 41 :: u ++ 0 :: tail'), ?_, ?_, ?_⟩
    · rw [killTurn, hfirst rfl hplain]
      dsimp only
      rw [hsecond]
      dsimp only
      rw [hlen, bind_some, hmove']
    · refine ⟨front ++ plain, 41 :: u, tail', rfl, by simpa using h0t.2, ?_, ?_⟩
      · have hk := kept_first hplain ht u
        rw [append_assoc, cons_append] at hk
        rw [hk] at hkept
        rw [← hkept, kept, if_neg fun h => absurd h.1 (by decide), append_assoc]
      · simp only [length_append, length_cons] at hn htail ⊢
        omega
    · dsimp only
      rw [cstr_drop (by simpa using h0t.2), cstr_drop h0]
      simp only [length_append, length_cons]
      omega
  · obtain ⟨he, hlen⟩ := leave hc
    have h0p : 0 ∉ plain ∧ 0 ∉ s := by simpa using h0
    have hsecond : strchr 41 (front ++ (plain ++ 40 :: s) ++ 0 :: tail) (front ++ plain).length = some none := by
      have := strchr_null (c := 41) (by decide) (a := front ++ plain) (u := 40 :: s) (z := tail) fun d hd => by
        rcases mem_cons.1 hd with rfl | hd
        · decide
        · exact ⟨fun e => hclose (e ▸ hd), nul s h0p.2 d hd⟩
      rw [← this]
      simp
    refine .inl ⟨tail, ?_, hlen⟩
    rw [killTurn, hfirst rfl hplain]
    dsimp only
    rw [hsecond, he]
  · obtain ⟨he, hlen⟩ := leave hc
    refine .inl ⟨tail, ?_, hlen⟩
    rw [killTurn, strchr_null (c := 40) (by decide) fun d hd => ⟨fun e => hopen (e ▸ hd), nul str h0 d hd⟩, he]

theorem kill_comments_kept {v : List Byte} (h : 0 ∉ v) (tail : List Byte) : ∃ tail', kill_comments (v ++ 0 :: tail) =
    some (kept false v ++ 0 :: tail') ∧ (kept false v ++ 0 :: tail').length = (v ++ 0 :: tail).length := by
  have hstart : Killing v (v ++ 0 :: tail).length (0, v ++ 0 :: tail) := ⟨[], v, tail, rfl, h, rfl, rfl⟩
  obtain ⟨r, hr, tail', rfl, hlen⟩ := runLoop_spec (Killing v (v ++ 0 :: tail).length)
    (fun s => (cstr (s.2.drop s.1)).length)
    (fun r => ∃ tail', r = some (kept false v ++ 0 :: tail') ∧ (kept false v ++ 0 :: tail').length = (v ++ 0 :: tail).length)
    (fun s s' hs (hb : killTurn s = .inl s') => by
      rcases kill_turn hs with ⟨tail', ht, -⟩ | ⟨s'', ht, hk, hlt⟩
      · rw [ht] at hb
        cases hb
      · rw [ht] at hb
        cases hb
        exact ⟨hk, hlt⟩)
    (fun s r hs hb => by
      rcases kill_turn hs with ⟨tail', ht, hlen⟩ | ⟨s'', ht, -⟩
      · rw [ht] at hb
        cases hb
        exact ⟨tail', rfl, hlen⟩
      · rw [ht] at hb
        cases hb)
    (n := (v ++ 0 :: tail).length + 1) hstart (by
      have := cstr_length (v ++ 0 :: tail)
      simp only [drop_zero]
      omega)
  exact ⟨tail', by rw [kill_comments, hr]; rfl, hlen⟩

theorem scan_string (h0 : p 0 = true) (front str tail : List Byte) :
    scan p (front ++ str ++ 0 :: tail) front.length = some (front.length + (str.takeWhile fun d => !p d).length) := by
  have hplain : ∀ d ∈ str.takeWhile fun d => !p d, p d = false := fun d hd => by simpa using mem_takeWhile_imp hd
  rcases hd : str.dropWhile fun d => !p d with _ | ⟨c, rest⟩
  · have hs := takeWhile_append_dropWhile (p := fun d => !p d) (l := str)
    rw [hd, append_nil] at hs
    nth_rewrite 1 [← hs]
    exact scan_at hplain h0
  · have hs := takeWhile_append_dropWhile (p := fun d => !p d) (l := str)
    have hc : p c = true := by
      have := head?_dropWhile_not (fun d => !p d) str
      rw [hd] at this
      simpa using this
    rw [hd] at hs
    nth_rewrite 1 [← hs]
    have := scan_at (a := front) (r := rest ++ 0 :: tail) hplain hc
    rw [← this]
    simp

theorem gettoken_reads (E : HttpEnv) {v : List Byte} (h : 0 ∉ v) (tail : List Byte) : ∃ cp, cp ≤ v.length ∧
    v.drop cp = (Http.gettoken E v).1 ∧ gettoken E (v ++ 0 :: tail) = some (cp, (Http.gettoken E v).2) := by
  have hsplit := takeWhile_append_dropWhile (p := isspace) (l := v)
  change v.takeWhile isspace ++ skipspace v = v at hsplit
  obtain ⟨white, hwhite⟩ : ∃ white, white = v.takeWhile isspace := ⟨_, rfl⟩
  rw [← hwhite] at hsplit
  have hskip : scan (fun d => d = 0 ∨ !isspace d) (v ++ 0 :: tail) 0 = some white.length := by
    have hs := scan_string (p := fun d => decide (d = 0 ∨ (!isspace d) = true)) rfl [] v tail
    have hsame : (v.takeWhile fun d => !decide (d = 0 ∨ (!isspace d) = true)) = v.takeWhile isspace := by
      congr 1
      funext d
      by_cases hd : d = 0
      · rw [hd]
        rfl
      · simpa using fun _ => hd
    rw [hsame, ← hwhite] at hs
    simpa using hs
  have h0 : 0 ∉ skipspace v := fun hm => h (hsplit ▸ mem_append_right _ hm)
  have hle : white.length + (skipspace v).length = v.length := by rw [← length_append, hsplit]
  rw [gettoken, hskip, bind_some]
  rcases gettoken_shape E v with ⟨q, r, hq0, hq, hget, -⟩ | ⟨h34, h60, htoken, hget⟩
  · obtain ⟨o, ho, hoq⟩ : ∃ o, skipspace v = o :: r ∧ (o = 34 ∧ q = 34 ∨ o = 60 ∧ q = 62) := by
      obtain ⟨hv, rfl⟩ | ⟨hv, rfl⟩ := hq
      · exact ⟨34, hv, .inl ⟨rfl, rfl⟩⟩
      · exact ⟨60, hv, .inr ⟨rfl, rfl⟩⟩
    rw [ho] at hsplit h0 hle
    have h0r : 0 ∉ r := fun hm => h0 (mem_cons_of_mem _ hm)
    have hbuf : v ++ 0 :: tail = (white ++ [o]) ++ r ++ 0 :: tail := by rw [← hsplit]; simp
    have hfront : white.length + 1 = (white ++ [o]).length := by simp
    have hgetD : (v ++ 0 :: tail).getD white.length 0 = o := by
      rw [← hsplit, append_assoc]
      exact getD_at _ _ _
    have hdrop : v.drop (white.length + 1) = r := by
      rw [← hsplit, show white ++ o :: r = (white ++ [o]) ++ r by simp, hfront, drop_left]
    have hcstr : cstr ((v ++ 0 :: tail).drop (white.length + 1)) = r := by
      rw [hbuf, hfront, cstr_drop h0r]
    have hstr : (strchr q (v ++ 0 :: tail) (white.length + 1)).map (fun cp2 => (white.length + 1,
        cp2.elim (E.unclosed (cstr ((v ++ 0 :: tail).drop (white.length + 1)))) fun i => (i : Int) - (white.length + 1 : Nat))) =
        some (white.length + 1, (Http.gettoken E v).2) := by
      rw [hcstr, hget, hbuf, hfront]
      have hnul : ∀ l : List Byte, 0 ∉ l → q ∉ l → ∀ d ∈ l, d ≠ q ∧ d ≠ 0 :=
        fun l h1 h2 d hd => ⟨fun e => h2 (e ▸ hd), fun e => h1 (e ▸ hd)⟩
      by_cases hmem : q ∈ r
      · obtain ⟨p, t, rfl, hp⟩ := eq_append_cons_of_mem hmem
        have h0p : 0 ∉ p := fun hm => h0r (mem_append_left _ hm)
        have hs := strchr_found (a := white ++ [o]) (r := t ++ 0 :: tail) (hnul p h0p hp)
        rw [show white ++ [o] ++ (p ++ q :: t) ++ 0 :: tail = white ++ [o] ++ p ++ q :: (t ++ 0 :: tail) by simp, hs,
          map_some, elim_some, xstrfind_at hp, elim_some]
        simp only [Option.some.injEq, Prod.mk.injEq, true_and, length_append, length_cons]
        omega
      · rw [strchr_null hq0 (hnul r h0r hmem), xstrfind_not hmem]
        rfl
    refine ⟨white.length + 1, by rw [length_cons] at hle; omega, by rw [hdrop, hget], ?_⟩
    obtain ⟨rfl, rfl⟩ | ⟨rfl, rfl⟩ := hoq
    · rw [if_pos hgetD, hstr]
    · rw [if_neg (by rw [hgetD]; decide), if_pos hgetD, hstr]
  · have hdrop : v.drop white.length = skipspace v := by
      conv_lhs => rw [← hsplit]
      exact drop_left
    have hfirst : (v ++ 0 :: tail).getD white.length 0 ≠ 34 ∧ (v ++ 0 :: tail).getD white.length 0 ≠ 60 := by
      cases hs : skipspace v with
      | nil =>
        rw [hs, append_nil] at hsplit
        rw [hsplit, getD_at]
        decide
      | cons c r =>
        rw [hs] at hsplit
        have hc : (v ++ 0 :: tail).getD white.length 0 = c := by
          rw [← hsplit, append_assoc]
          exact getD_at _ _ _
        rw [hc]
        exact ⟨fun e => h34 r (by rw [hs, e]), fun e => h60 r (by rw [hs, e])⟩
    have hscan : scan (fun d => d = 0 ∨ d ∈ cstring " \n\t") (v ++ 0 :: tail) white.length =
        some (white.length + (token v).length) := by
      have hs := scan_string (p := fun d => decide (d = 0 ∨ d ∈ cstring " \n\t")) rfl white (skipspace v) tail
      have hsame : ((skipspace v).takeWhile fun d => !decide (d = 0 ∨ d ∈ cstring " \n\t")) = token v := by
        rw [htoken]
        refine takeWhile_same fun d hd => ?_
        have hd0 : d ≠ 0 := fun e => h0 (e ▸ hd)
        simpa using fun _ => hd0
      rw [hsame, hsplit] at hs
      exact hs
    refine ⟨white.length, by omega, by rw [hget, hdrop], ?_⟩
    rw [if_neg hfirst.1, if_neg hfirst.2, hscan, hget, map_some]
    simp

theorem xstrndup_reads {v : List Byte} (h : 0 ∉ v) (tail : List Byte) {cp : Nat} (hcp : cp ≤ v.length) (len : Int) :
    xstrndup (v ++ 0 :: tail) cp len = some (Http.xstrndup (v.drop cp) len) := by
  have h0 : 0 ∉ v.drop cp := fun hm => h (mem_of_mem_drop hm)
  have hdrop : (v ++ 0 :: tail).drop cp = v.drop cp ++ 0 :: tail := drop_append_of_le_length hcp
  rw [xstrndup, Http.xstrndup]
  by_cases hneg : len < 0
  · rw [if_pos hneg, if_pos hneg]
  · rw [if_neg hneg, if_neg hneg, hdrop]
    by_cases hlen : len.toNat ≤ (v.drop cp).length
    · have htake : (v.drop cp ++ 0 :: tail).take len.toNat = (v.drop cp).take len.toNat := take_append_of_le_length hlen
      have hbound : cp + len.toNat ≤ (v ++ 0 :: tail).length := by
        rw [length_drop] at hlen
        rw [length_append]
        omega
      rw [if_pos (.inr hbound), htake, cstr_of_nul fun hm => h0 (mem_of_mem_take hm)]
    · have htake : (v.drop cp ++ 0 :: tail).take len.toNat =
          v.drop cp ++ 0 :: tail.take (len.toNat - (v.drop cp).length - 1) := by
        rw [take_append, take_of_length_le (by omega)]
        obtain ⟨n, hn⟩ : ∃ n, len.toNat - (v.drop cp).length = n + 1 := ⟨len.toNat - (v.drop cp).length - 1, by omega⟩
        rw [hn]
        rfl
      rw [htake, if_pos (.inl (by simp)), cstr_append_nul h0, take_of_length_le (by omega)]

theorem cut_reads {v : List Byte} (h : 0 ∉ v) (tail : List Byte) {cp : Nat} (hcp : cp ≤ v.length) :
    ∃ i, scan (fun d => d = 0 ∨ d ∈ cstring " \t\n;") (v ++ 0 :: tail) cp = some i ∧
      cstr (if (v ++ 0 :: tail).getD i 0 = 0 then v ++ 0 :: tail else (v ++ 0 :: tail).set i 0) =
        (xstrfind (v.drop cp) (cstring " \t\n;")).elim v fun s => v.take (v.length - s.length) := by
  have hsplit := take_append_drop cp v
  have hlen : (v.take cp).length = cp := length_take_of_le hcp
  have nul : ∀ l : List Byte, (∀ d ∈ l, d ∈ v) → ∀ d ∈ l, d ≠ 0 := fun l hl d hd e => h (e ▸ hl d hd)
  cases hfind : xstrfind (v.drop cp) (cstring " \t\n;") with
  | none =>
    have hnot := xstrfind_none hfind
    have hs := scan_at (p := fun d => decide (d = 0 ∨ d ∈ cstring " \t\n;")) (a := v.take cp) (b := v.drop cp) (r := tail)
      (c := 0) (fun d hd => by
        have := nul _ (fun d hd => mem_of_mem_drop hd) d hd
        simpa [hnot d hd] using this) rfl
    rw [hsplit, hlen, length_drop, show cp + (v.length - cp) = v.length by omega] at hs
    refine ⟨v.length, hs, ?_⟩
    rw [if_pos (getD_at _ _ _), cstr_append_nul h]
    rfl
  | some s =>
    obtain ⟨plain, c, t, hdrop, rfl, hc, hplain⟩ := xstrfind_some hfind
    have hv : v = v.take cp ++ plain ++ c :: t := by rw [append_assoc, ← hdrop, hsplit]
    have hs := scan_at (p := fun d => decide (d = 0 ∨ d ∈ cstring " \t\n;")) (a := v.take cp) (b := plain)
      (r := t ++ 0 :: tail) (c := c) (fun d hd => by
        have := nul plain (fun d hd => by rw [hv]; simp [hd]) d hd
        simpa [hplain d hd] using this) (by simp [hc])
    have hbuf : v ++ 0 :: tail = v.take cp ++ plain ++ c :: (t ++ 0 :: tail) := by
      conv_lhs => rw [hv]
      simp
    rw [← hbuf, hlen] at hs
    have hi : (v.take cp ++ plain).length = cp + plain.length := by rw [length_append, hlen]
    have hget : (v ++ 0 :: tail).getD (cp + plain.length) 0 = c := by
      rw [hbuf, ← hi]
      exact getD_at _ _ _
    have hc0 : c ≠ 0 := fun e => h (by rw [hv, e]; simp)
    refine ⟨_, hs, ?_⟩
    have hset : (v ++ 0 :: tail).set (cp + plain.length) 0 = v.take cp ++ plain ++ 0 :: (t ++ 0 :: tail) := by
      rw [hbuf, ← hi, set_append_right _ _ (le_refl _), Nat.sub_self]
      rfl
    have h0 : 0 ∉ v.take cp ++ plain := fun hm => h (by rw [hv]; exact mem_append_left _ hm)
    rw [hget, if_neg hc0, hset, cstr_append_nul h0, elim_some]
    have hfront : ∀ a b : List Byte, (a ++ b).take ((a ++ b).length - b.length) = a := fun a b => by simp
    have htake := hfront (v.take cp ++ plain) (c :: t)
    rw [← hv] at htake
    exact htake.symm

theorem parse_value_refines (E : HttpEnv) (iop : http_io) {v tail : List Byte} (hbuf : iop.hhook.buf = v ++ 0 :: tail)
    (h : 0 ∉ v) : ∃ iop', parse_value E iop = some iop' ∧ iop'.hhook.buf.length = iop.hhook.buf.length ∧
      { iop' with hhook := { iop'.hhook with buf := cstr iop'.hhook.buf } } = Http.parse_value E iop := by
  obtain ⟨tail', hkill, hlen⟩ := kill_comments_kept h tail
  have h0 : 0 ∉ kept false v := fun hm => h (kept_subset v false 0 hm)
  obtain ⟨cp, hcp, hdrop, hget⟩ := gettoken_reads E h0 tail'
  have hkill' : Http.kill_comments (cstr iop.hhook.buf) = kept false v := by
    rw [hbuf, cstr_append_nul h, kill_comments_eq]
  have hcstr : cstr (kept false v ++ 0 :: tail') = kept false v := cstr_append_nul h0 _
  rw [parse_value, Http.parse_value, hkill', hbuf, hkill, bind_some]
  dsimp only
  cases hopt : iop.hhook.option with
  | ContLength =>
    dsimp only
    rw [hget, bind_some]
    have hatol : atol E (kept false v ++ 0 :: tail') cp = some (strtol E.longMax ((kept false v).drop cp)) := by
      have hl : ((kept false v).take cp).length = cp := length_take_of_le hcp
      have hd : 0 ∉ (kept false v).drop cp := fun hm => h0 (mem_of_mem_drop hm)
      have h1 := strlen_at (a := (kept false v).take cp) (z := tail') hd
      have h2 := cstr_drop hd ((kept false v).take cp) tail'
      rw [take_append_drop, hl] at h1 h2
      rw [atol, h1, map_some, h2]
    dsimp only
    rw [hatol, hdrop]
    exact ⟨_, rfl, hlen, by rw [hcstr]⟩
  | ContType =>
    dsimp only
    obtain ⟨i, hscan, hcut⟩ := cut_reads h0 tail' hcp
    rw [hget, bind_some, xstrndup_reads h0 tail' hcp, bind_some, hscan, map_some]
    refine ⟨_, rfl, ?_, ?_⟩
    · dsimp only
      split_ifs
      · exact hlen
      · rw [length_set]
        exact hlen
    · dsimp only
      rw [hcut, hdrop]
  | Location =>
    dsimp only
    rw [hget, bind_some, xstrndup_reads h0 tail' hcp, map_some, hdrop]
    exact ⟨_, rfl, hlen, by rw [hcstr]⟩
  | _ => exact ⟨_, rfl, hlen, by rw [hcstr]⟩

end Memory

def separators : List Byte := cstring " \t\n;"

/-- The value is taken as it should be: nothing outside of the buffer is touched, the comments go and nothing else does,
and the name of the type or the URL is the first token. -/
def Takes (E : HttpEnv) (iop : http_io) : Prop :=
  ∃ iop', Memory.parse_value E iop = some iop' ∧ iop'.hhook.buf.length = iop.hhook.buf.length ∧
    (∃ b, Memory.kill_comments iop.hhook.buf = some b ∧ cstr b = uncommented false (cstr iop.hhook.buf)) ∧
    (iop.hhook.option = .ContType → iop'.mimetype =
      some ((token (uncommented false (cstr iop.hhook.buf))).takeWhile fun c => c ∉ separators)) ∧
    (iop.hhook.option = .Location → iop'.hhook.newurl = some (token (uncommented false (cstr iop.hhook.buf))))

/-- A value without a comment, without a separator in the name of the type and without an open quote or bracket. The
length of what is left open may be right by chance. -/
def Simple (E : HttpEnv) (option : option_t) (v : List Byte) : Prop :=
  ¬ Commented v ∧
    (option = .ContType → ((∀ cp, ¬ Unclosed v cp) → ∀ c ∈ token v, c ∉ separators) ∧ ∀ cp, Unclosed v cp →
      0 ≤ E.unclosed cp ∧ min (E.unclosed cp).toNat cp.length = (cp.takeWhile fun c => c ∉ separators).length) ∧
    (option = .Location → ∀ cp, Unclosed v cp → cp.length ≤ E.unclosed cp)

theorem Unclosed.unique {v cp cp' : List Byte} (h : Unclosed v cp) (h' : Unclosed v cp') : cp = cp' := by
  rcases h with ⟨h, -⟩ | ⟨h, -⟩ <;> rcases h' with ⟨h', -⟩ | ⟨h', -⟩ <;> rw [h, List.cons.injEq] at h'
  · exact h'.2
  · exact absurd h'.1 (by decide)
  · exact absurd h'.1 (by decide)
  · exact h'.2

theorem xstrndup_whole (l : List Byte) (n : Nat) : xstrndup l (n : Int) = some (l.take n) := by
  rw [xstrndup, if_neg (by omega), Int.toNat_natCast]

theorem type_iff (v : List Byte) :
    xstrndup (gettoken E v).1 (gettoken E v).2 = some ((token v).takeWhile fun c => c ∉ separators) ↔
      ((∀ cp, ¬ Unclosed v cp) → ∀ c ∈ token v, c ∉ separators) ∧ ∀ cp, Unclosed v cp →
        0 ≤ E.unclosed cp ∧ min (E.unclosed cp).toNat cp.length = (cp.takeWhile fun c => c ∉ separators).length := by
  rcases gettoken_token E v with ⟨cp, hopen, hget, htoken⟩ | ⟨hclosed, cp, hget, htake⟩
  · rw [hget, htoken, xstrndup]
    have hprefix := take_takeWhile (fun c => decide (c ∉ separators)) cp
    constructor
    · intro h
      refine ⟨fun hc => absurd hopen (hc cp), fun cp' h' => ?_⟩
      obtain rfl := hopen.unique h'
      split_ifs at h with hneg
      have hlen := congrArg List.length (Option.some.inj h)
      rw [length_take] at hlen
      exact ⟨not_lt.1 hneg, hlen⟩
    · rintro ⟨-, h⟩
      obtain ⟨hpos, hlen⟩ := h cp hopen
      rw [if_neg (by omega), Option.some.injEq, ← hprefix, ← hlen, take_eq_take_iff]
      dsimp only
      omega
  · rw [hget, xstrndup_whole, htake, Option.some.injEq, eq_comm, takeWhile_eq_self_iff]
    simp only [decide_eq_true_eq]
    constructor
    · exact fun h => ⟨fun _ => h, fun cp' h' => absurd h' (hclosed cp')⟩
    · exact fun h => h.1 hclosed

theorem url_iff (v : List Byte) : xstrndup (gettoken E v).1 (gettoken E v).2 = some (token v) ↔
    ∀ cp, Unclosed v cp → cp.length ≤ E.unclosed cp := by
  rcases gettoken_token E v with ⟨cp, hopen, hget, htoken⟩ | ⟨hclosed, cp, hget, htake⟩
  · rw [hget, htoken, xstrndup]
    constructor
    · intro h cp' h'
      obtain rfl := hopen.unique h'
      split_ifs at h with hneg
      have hlen := congrArg List.length (Option.some.inj h)
      rw [length_take] at hlen
      dsimp only at hlen hneg
      omega
    · intro h
      have hlen := h cp hopen
      dsimp only
      rw [if_neg (by omega), take_of_length_le (by omega)]
  · rw [hget, xstrndup_whole, htake]
    exact iff_of_true rfl fun cp' h' => absurd h' (hclosed cp')

/-- A value of any option is taken as it should be just if it is a simple one. -/
theorem parse_value_takes (E : HttpEnv) (iop : http_io) (hnul : 0 ∈ iop.hhook.buf) :
    Takes E iop ↔ Simple E iop.hhook.option (cstr iop.hhook.buf) := by
  obtain ⟨v, tail, hbuf, h0⟩ := List.eq_append_cons_of_mem hnul
  obtain ⟨tail', hkill, -⟩ := Memory.kill_comments_kept h0 tail
  obtain ⟨iop', hparse, hsize, hstring⟩ := Memory.parse_value_refines E iop hbuf h0
  have hcstr : cstr iop.hhook.buf = v := by rw [hbuf, cstr_append_nul h0]
  have h0' : 0 ∉ kept false v := fun hm => h0 (kept_subset v false 0 hm)
  have hkilled : (∃ b, Memory.kill_comments iop.hhook.buf = some b ∧ cstr b = uncommented false v) ↔ ¬ Commented v := by
    rw [← kept_eq_iff, hbuf, hkill]
    constructor
    · rintro ⟨b, hb, he⟩
      rw [← Option.some.inj hb, cstr_append_nul h0'] at he
      exact he
    · exact fun he => ⟨_, rfl, by rw [cstr_append_nul h0', he]⟩
  have hmime : iop.hhook.option = .ContType → iop'.mimetype = xstrndup (gettoken E (kept false v)).1 (gettoken E (kept false v)).2 := by
    intro ho
    have := congrArg (fun i : http_io => i.mimetype) hstring
    dsimp only at this
    rw [this, Http.parse_value, ho, hcstr, kill_comments_eq]
  have hurl : iop.hhook.option = .Location →
      iop'.hhook.newurl = xstrndup (gettoken E (kept false v)).1 (gettoken E (kept false v)).2 := by
    intro ho
    have := congrArg (fun i : http_io => i.hhook.newurl) hstring
    dsimp only at this
    rw [this, Http.parse_value, ho, hcstr, kill_comments_eq]
  rw [Takes, Simple, hcstr]
  constructor
  · rintro ⟨iop'', h'', -, hk, hm, hu⟩
    obtain rfl : iop' = iop'' := Option.some.inj (hparse.symm.trans h'')
    have hc := hkilled.1 hk
    rw [(plain_eq hc).2] at hm hu
    rw [(plain_eq hc).1] at hmime hurl
    exact ⟨hc, fun ho => (type_iff E v).1 ((hmime ho).symm.trans (hm ho)), fun ho => (url_iff E v).1 ((hurl ho).symm.trans (hu ho))⟩
  · rintro ⟨hc, hm, hu⟩
    rw [(plain_eq hc).1] at hmime hurl
    refine ⟨iop', hparse, hsize, hkilled.2 hc, fun ho => ?_, fun ho => ?_⟩
    · rw [(plain_eq hc).2, hmime ho]
      exact (type_iff E v).2 (hm ho)
    · rw [(plain_eq hc).2, hurl ho]
      exact (url_iff E v).2 (hu ho)

def reading (option : option_t) (v : List Byte) : http_io :=
  { http_start with hhook := { http_info_alloc with option := option, buf := v ++ List.replicate (BUFLEN - v.length) 0 } }

def highMemory : HttpEnv := ⟨2147483647, fun cp => cp.length - 1048576⟩

theorem parse_value_takes_html : Takes highMemory (reading .ContType (cstring "text/html")) ↔
    Simple highMemory .ContType (cstr (reading .ContType (cstring "text/html")).hhook.buf) :=
  parse_value_takes highMemory (reading .ContType (cstring "text/html"))
    (List.mem_append_right _ (List.mem_replicate.2 ⟨by decide, rfl⟩))

/-- The type keeps the semicolon, and a comment leaves its closing parenthesis. -/
theorem parse_value_keeps : ¬ Takes highMemory (reading .ContType (cstring "text/html; x=y")) ∧
    ¬ Takes highMemory (reading .OptIgnore (cstring "a (b) c")) := by
  constructor
  · rintro ⟨iop', h, -, -, hm, -⟩
    have hget := congrArg (fun r : Option http_io => r.map fun i => i.mimetype) h
    dsimp only [Option.map_some] at hget
    rw [hm rfl] at hget
    revert hget
    decide +kernel
  · rintro ⟨iop', -, -, ⟨b, hb, he⟩, -⟩
    have hget := congrArg (Option.map cstr) hb
    rw [Option.map_some, he] at hget
    revert hget
    decide +kernel

end WWindowSystem.Http
