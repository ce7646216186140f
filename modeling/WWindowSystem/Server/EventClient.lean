import Mathlib.Logic.Relation
import WWindowSystem.Lib.Socket

namespace WWindowSystem.EventClient

open List

def PAK_EXIT : BitVec 16 := 0x0201

def handled : List (BitVec 16) :=
  [0x0001, 0x0200, 0x0202, 0x0212, 0x0203, 0x0204, 0x0213, 0x0205, 0x0206, 0x0207, 0x0208, 0x0209, 0x020a, 0x020b, 0x020c,
    0x020d, 0x020e, 0x020f, 0x0210, 0x0211, 0x0120, 0x0121, 0x0125, 0x0214, 0x0000, 0x0201, 0x0114, 0x0100, 0x0101, 0x0115,
    0x0102, 0x0116, 0x0103, 0x0117, 0x0104, 0x0118, 0x0105, 0x0106, 0x010e, 0x0119, 0x0107, 0x0108, 0x0109, 0x010a, 0x010b,
    0x010c, 0x010d, 0x011a, 0x011b, 0x0126, 0x0128, 0x0127, 0x0129, 0x012e, 0x012f, 0x012d, 0x012c, 0x011c, 0x011d, 0x011e,
    0x011f, 0x012a, 0x012b, 0x010f, 0x0110, 0x0111, 0x0130, 0x0112, 0x0113, 0x0131, 0x0122, 0x0123, 0x0124, 0x0132]

/-- What the loop works on: `mem` is the buffer from `pptr` on, `given` what `process_paket` was called with. -/
structure CLIENT where
  mem : List Byte
  inbuf : Int
  exited : Bool
  given : List (List Byte)
  deriving DecidableEq

def process_paket (type : BitVec 16) (cptr : CLIENT) : CLIENT :=
  if type = PAK_EXIT then { cptr with exited := true }
  else if type ∈ handled then cptr
  else { cptr with exited := true, inbuf := 0 }

def len (big : Bool) (pptr : List Byte) : Nat := (netShort big pptr).toNat

def type (big : Bool) (pptr : List Byte) : BitVec 16 := netShort big (pptr.drop 2)

def toHost (big : Bool) (pptr : List Byte) : List Byte :=
  storeShort big (netShort big pptr) ++ storeShort big (type big pptr) ++ pptr.drop 4

def turn (big : Bool) (cptr : CLIENT) : Option CLIENT :=
  let n := len big cptr.mem
  if cptr.inbuf ≥ 4 ∧ cptr.inbuf ≥ n then
    let mem := toHost big cptr.mem
    let cptr := process_paket (type big cptr.mem)
      { cptr with mem, inbuf := cptr.inbuf - n, given := cptr.given ++ [mem.take n] }
    some { cptr with mem := cptr.mem.drop n }
  else none

def extract (big : Bool) : Nat → CLIENT → Option CLIENT
  | 0, _ => none
  | n + 1, cptr =>
    match turn big cptr with
    | none => some cptr
    | some cptr => extract big n cptr

/-- The loop ends, each turn takes at least a header from the buffer, and `inbuf` is not negative. -/
def Ends (big : Bool) (cptr : CLIENT) : Prop :=
  (∃ n, (extract big n cptr).isSome) ∧
    ∀ c, Relation.ReflTransGen (fun c d => turn big c = some d) cptr c →
      0 ≤ c.inbuf ∧ ∀ d, turn big c = some d → d.mem.length + 4 ≤ c.mem.length

inductive Sized (big : Bool) : List Byte → Prop
  | short {l : List Byte} (h : l.length < 4) : Sized big l
  | part {l : List Byte} (h : l.length < len big l) : Sized big l
  | unknown {l : List Byte} (h : 4 ≤ len big l) (htype : type big l ∉ handled) : Sized big l
  | next {l : List Byte} (h : 4 ≤ len big l) (htype : type big l ∈ handled) (hrest : Sized big (l.drop (len big l))) : Sized big l

def CLIENT.received (cptr : CLIENT) : List Byte := cptr.mem.take cptr.inbuf.toNat

def event_client (big : Bool) (n : Nat) (chunk : List Byte) (cptr : CLIENT) : Option CLIENT :=
  if chunk = [] then some { cptr with exited := true }
  else
    (extract big n { cptr with mem := cptr.received ++ chunk, inbuf := cptr.inbuf + chunk.length }).map fun cptr =>
      { cptr with mem := cptr.received }

def deliver (big : Bool) (n : Nat) : List (List Byte) → CLIENT → Option CLIENT
  | [], cptr => some cptr
  | chunk :: chunks, cptr => if cptr.exited then some cptr else (event_client big n chunk cptr).bind (deliver big n chunks)

structure IsPaket (big : Bool) (p : List Byte) : Prop where
  multiple : p.length % 4 = 0
  header : 4 ≤ p.length
  fits : p.length ≤ PAKET_SIZE
  len : len big p = p.length

def Quiet (big : Bool) (p : List Byte) : Prop := type big p ≠ PAK_EXIT ∧ type big p ∈ handled

def Partial (big : Bool) (t : List Byte) : Prop := t.length < 4 ∨ t.length < len big t

variable {big : Bool} {c d : CLIENT}

variable {n : Nat}

theorem netShort_take (hn : 2 ≤ n) (l : List Byte) : netShort big (l.take n) = netShort big l := by
  obtain ⟨k, rfl⟩ : ∃ k, n = k + 2 := ⟨n - 2, by omega⟩
  match l with
  | [] => rfl
  | [_] => rfl
  | _ :: _ :: _ => rfl

theorem len_take (hn : 2 ≤ n) (l : List Byte) : len big (l.take n) = len big l :=
  congrArg BitVec.toNat (netShort_take hn l)

theorem type_take (hn : 4 ≤ n) (l : List Byte) : type big (l.take n) = type big l := by
  rw [type, drop_take, netShort_take (by omega), type]

variable {l : List Byte}

theorem length_toHost (h : 4 ≤ l.length) : (toHost big l).length = l.length := by
  rw [toHost, length_append, length_append, length_storeShort, length_storeShort, length_drop]
  omega

theorem drop_toHost (hn : 4 ≤ n) : (toHost big l).drop n = l.drop n := by
  have hhead : (storeShort big (netShort big l) ++ storeShort big (type big l)).length ≤ n := by
    rw [length_append, length_storeShort, length_storeShort]
    exact hn
  rw [toHost, drop_append, drop_eq_nil_of_le hhead, nil_append, length_append, length_storeShort,
    length_storeShort, drop_drop]
  congr 1
  omega

theorem turn_spec (h : turn big c = some d) : 4 ≤ c.inbuf ∧ (len big c.mem : Int) ≤ c.inbuf ∧
    d.mem = (toHost big c.mem).drop (len big c.mem) ∧ d.given = c.given ++ [(toHost big c.mem).take (len big c.mem)] ∧
    (type big c.mem ∈ handled → d.inbuf = c.inbuf - len big c.mem) ∧ (type big c.mem ∉ handled → d.inbuf = 0) := by
  unfold turn at h
  dsimp only at h
  split_ifs at h with hin
  obtain rfl := Option.some.inj h
  have hexit : PAK_EXIT ∈ handled := by decide
  refine ⟨hin.1, hin.2, ?_⟩
  unfold process_paket
  split_ifs with hex hknown
  · exact ⟨rfl, rfl, fun _ => rfl, fun hno => absurd (hex ▸ hexit) hno⟩
  · exact ⟨rfl, rfl, fun _ => rfl, fun hno => absurd hknown hno⟩
  · exact ⟨rfl, rfl, fun hyes => absurd hyes hknown, fun _ => rfl⟩

theorem turn_none (h : turn big c = none) : c.inbuf < 4 ∨ c.inbuf < len big c.mem := by
  unfold turn at h
  dsimp only at h
  split_ifs at h with hin
  omega

theorem turn_length (hmem : c.inbuf ≤ c.mem.length) (h : turn big c = some d) : d.mem.length = c.mem.length - len big c.mem := by
  obtain ⟨h4, -, hd, -⟩ := turn_spec h
  rw [hd, length_drop, length_toHost (by omega)]

theorem turn_received (hmem : c.inbuf ≤ c.mem.length) (h : turn big c = some d) (h4 : 4 ≤ len big c.mem) :
    0 ≤ d.inbuf ∧ d.inbuf ≤ d.mem.length ∧
      d.received = if type big c.mem ∈ handled then c.received.drop (len big c.mem) else [] := by
  have hlength := turn_length hmem h
  obtain ⟨-, hle, hd, -, hknown, hunknown⟩ := turn_spec h
  split_ifs with htype
  · have hin := hknown htype
    refine ⟨by omega, by omega, ?_⟩
    rw [CLIENT.received, CLIENT.received, hd, drop_toHost h4, drop_take, hin]
    congr 1
    omega
  · have hin := hunknown htype
    refine ⟨by omega, by omega, ?_⟩
    rw [CLIENT.received, hin]
    rfl

theorem ends_of_none (h0 : 0 ≤ c.inbuf) (h : turn big c = none) : Ends big c := by
  refine ⟨⟨1, by rw [extract, h]; rfl⟩, fun d hd => ?_⟩
  rcases hd.cases_head with rfl | ⟨e, he, -⟩
  · exact ⟨h0, fun e he => absurd (h.symm.trans he) (by simp)⟩
  · exact absurd (h.symm.trans he) (by simp)

theorem ends_of_turn (h0 : 0 ≤ c.inbuf) (h : turn big c = some d) (hlen : d.mem.length + 4 ≤ c.mem.length) (hd : Ends big d) :
    Ends big c := by
  obtain ⟨⟨n, hn⟩, hrest⟩ := hd
  refine ⟨⟨n + 1, by rw [extract, h]; exact hn⟩, fun e he => ?_⟩
  rcases he.cases_head with rfl | ⟨d', hd', hreach⟩
  · refine ⟨h0, fun e he => ?_⟩
    obtain rfl := Option.some.inj (h.symm.trans he)
    exact hlen
  · obtain rfl := Option.some.inj (h.symm.trans hd')
    exact hrest e hreach

theorem length_received (h0 : 0 ≤ c.inbuf) (hmem : c.inbuf ≤ c.mem.length) : (c.received.length : Int) = c.inbuf := by
  rw [CLIENT.received, length_take]
  omega

/-- The loop does what it is meant to do exactly when every packet that it comes to has the length of a header at least. -/
theorem ends_iff_sized (big : Bool) (c : CLIENT) (h0 : 0 ≤ c.inbuf) (hmem : c.inbuf ≤ c.mem.length) :
    Ends big c ↔ Sized big c.received := by
  constructor
  · rintro ⟨⟨n, hn⟩, hturns⟩
    induction n generalizing c with
    | zero => cases hn
    | succ n ih =>
      have hrec := length_received h0 hmem
      cases hturn : turn big c with
      | none =>
        by_cases h4 : c.inbuf < 4
        · exact .short (by omega)
        · have hlen : len big c.received = len big c.mem := len_take (by omega) _
          exact .part (by have := turn_none hturn; omega)
      | some d =>
        have hlength := turn_length hmem hturn
        have hstep := (hturns c .refl).2 d hturn
        obtain ⟨h4, hle, -⟩ := turn_spec hturn
        have hlen : len big c.received = len big c.mem := len_take (by omega) _
        have htype : type big c.received = type big c.mem := type_take (by omega) _
        obtain ⟨hd0, hdmem, hdrec⟩ := turn_received hmem hturn (by omega)
        rw [extract, hturn] at hn
        have hrest := ih d hd0 hdmem (fun e he => hturns e (.head hturn he)) hn
        by_cases hknown : type big c.mem ∈ handled
        · rw [hdrec, if_pos hknown] at hrest
          exact .next (by omega) (htype ▸ hknown) (hlen ▸ hrest)
        · exact .unknown (by omega) (htype ▸ hknown)
  · intro h
    obtain ⟨l, hl⟩ : ∃ l, l = c.received := ⟨_, rfl⟩
    rw [← hl] at h
    induction h generalizing c with
    | short h =>
      have hrec := length_received h0 hmem
      cases hturn : turn big c with
      | none => exact ends_of_none h0 hturn
      | some d =>
        obtain ⟨h4, -⟩ := turn_spec hturn
        rw [hl] at h
        omega
    | part h =>
      have hrec := length_received h0 hmem
      cases hturn : turn big c with
      | none => exact ends_of_none h0 hturn
      | some d =>
        obtain ⟨h4, hle, -⟩ := turn_spec hturn
        rw [hl, CLIENT.received, len_take (by omega), ← CLIENT.received] at h
        omega
    | unknown h htype =>
      cases hturn : turn big c with
      | none => exact ends_of_none h0 hturn
      | some d =>
        obtain ⟨h4, hle, -, -, -, hunknown⟩ := turn_spec hturn
        rw [hl, CLIENT.received, len_take (by omega)] at h
        rw [hl, CLIENT.received, type_take (by omega)] at htype
        have hd := hunknown htype
        have hnone : turn big d = none := by
          cases hturn' : turn big d with
          | none => rfl
          | some e =>
            have h4' := (turn_spec hturn').1
            omega
        have hlength := turn_length hmem hturn
        exact ends_of_turn h0 hturn (by omega) (ends_of_none (by omega) hnone)
    | next h htype hrest ih =>
      cases hturn : turn big c with
      | none => exact ends_of_none h0 hturn
      | some d =>
        obtain ⟨h4, hle, -⟩ := turn_spec hturn
        have hlen : len big c.received = len big c.mem := len_take (by omega) _
        rw [hl] at h
        rw [hl, CLIENT.received, type_take (by omega)] at htype
        have hlength := turn_length hmem hturn
        obtain ⟨hd0, hdmem, hdrec⟩ := turn_received hmem hturn (by omega)
        rw [if_pos htype] at hdrec
        exact ends_of_turn h0 hturn (by omega) (ih d hd0 hdmem (by rw [hdrec, hl, hlen]))

theorem ends_iff_sized_empty : Ends true ⟨[0x00, 0x04, 0x00, 0x00], 4, false, []⟩ ↔
    Sized true (CLIENT.received ⟨[0x00, 0x04, 0x00, 0x00], 4, false, []⟩) :=
  ends_iff_sized true ⟨[0x00, 0x04, 0x00, 0x00], 4, false, []⟩ (by decide) (by decide)

theorem extract_none (big : Bool) (n : Nat) (given : List (List Byte)) : extract big n ⟨[0x00, 0x00, 0x01, 0x01], 4, false, given⟩ = none := by
  induction n generalizing given with
  | zero => rfl
  | succ n ih =>
    have hturn : turn big ⟨[0x00, 0x00, 0x01, 0x01], 4, false, given⟩ =
        some ⟨[0x00, 0x00, 0x01, 0x01], 4, false, given ++ [[]]⟩ := by
      have hlen : len big [0x00, 0x00, 0x01, 0x01] = 0 := by cases big <;> decide
      have htype : type big [0x00, 0x00, 0x01, 0x01] = 0x0101 := by cases big <;> decide
      have hhost : toHost big [0x00, 0x00, 0x01, 0x01] = [0x00, 0x00, 0x01, 0x01] := by cases big <;> decide
      have hknown : (0x0101 : BitVec 16) ∈ handled := by decide
      have hexit : (0x0101 : BitVec 16) ≠ PAK_EXIT := by decide
      unfold turn
      simp only [hlen, htype, hhost, process_paket, if_neg hexit, if_pos hknown]
      rfl
    rw [extract, hturn]
    exact ih _

theorem not_ends : ∃ c : CLIENT, (0 ≤ c.inbuf ∧ c.inbuf ≤ c.mem.length) ∧ ∀ big, ¬ Ends big c := by
  refine ⟨⟨[0x00, 0x00, 0x01, 0x01], 4, false, []⟩, by decide, ?_⟩
  rintro big ⟨⟨n, hn⟩, -⟩
  rw [extract_none] at hn
  cases hn

variable {p : List Byte}

theorem toHost_append (big : Bool) (hp : 4 ≤ p.length) (rest : List Byte) :
    len big (p ++ rest) = len big p ∧ type big (p ++ rest) = type big p ∧ toHost big (p ++ rest) = toHost big p ++ rest := by
  have htake : (p ++ rest).take p.length = p := take_left
  have hlen : netShort big (p ++ rest) = netShort big p := by rw [← netShort_take (by omega : 2 ≤ p.length), htake]
  have htype : type big (p ++ rest) = type big p := by rw [← type_take hp, htake]
  refine ⟨congrArg BitVec.toNat hlen, htype, ?_⟩
  rw [toHost, toHost, hlen, htype, drop_append_of_le_length hp, append_assoc _ (p.drop 4)]

theorem turn_paket (hp : IsPaket big p) (rest : List Byte) (ex : Bool) (given : List (List Byte)) :
    turn big ⟨p ++ rest, (p ++ rest).length, ex, given⟩ =
      some { process_paket (type big p) ⟨toHost big p ++ rest, rest.length, ex, given ++ [toHost big p]⟩ with mem := rest } := by
  obtain ⟨hlen, htype, hhost⟩ := toHost_append big hp.header rest
  have hsize : (toHost big p).length = p.length := length_toHost hp.header
  have hin : ((p ++ rest).length : Int) ≥ 4 ∧ ((p ++ rest).length : Int) ≥ p.length := by
    have := hp.header
    rw [length_append]
    omega
  have hrest : ((p ++ rest).length : Int) - p.length = rest.length := by
    rw [length_append]
    omega
  have htake : (toHost big p ++ rest).take p.length = toHost big p := take_left' hsize
  have hmem (c : CLIENT) : (process_paket (type big p) c).mem = c.mem := by
    unfold process_paket
    split_ifs <;> rfl
  have hdrop : (toHost big p ++ rest).drop p.length = rest := drop_left' hsize
  unfold turn
  simp only [hlen, hp.len, htype, hhost, if_pos hin, hrest, htake, hmem, hdrop]

theorem turn_quiet (hp : IsPaket big p) (hq : Quiet big p) (rest : List Byte) (ex : Bool) (given : List (List Byte)) :
    turn big ⟨p ++ rest, (p ++ rest).length, ex, given⟩ = some ⟨rest, rest.length, ex, given ++ [toHost big p]⟩ := by
  rw [turn_paket hp, process_paket, if_neg hq.1, if_pos hq.2]

theorem turn_last (hp : IsPaket big p) (ex : Bool) (given : List (List Byte)) :
    ∃ ex', turn big ⟨p, p.length, ex, given⟩ = some ⟨[], 0, ex', given ++ [toHost big p]⟩ := by
  have hturn := turn_paket hp [] ex given
  rw [append_nil] at hturn
  rw [hturn]
  unfold process_paket
  split_ifs
  · exact ⟨true, rfl⟩
  · exact ⟨ex, rfl⟩
  · exact ⟨true, rfl⟩

variable {ps : List (List Byte)}

theorem extract_quiet (hp : ∀ p ∈ ps, IsPaket big p ∧ Quiet big p) (n : Nat) (rest : List Byte) (ex : Bool)
    (given : List (List Byte)) : extract big (ps.length + n) ⟨ps.flatten ++ rest, (ps.flatten ++ rest).length, ex, given⟩ =
      extract big n ⟨rest, rest.length, ex, given ++ ps.map (toHost big)⟩ := by
  induction ps generalizing given with
  | nil => simp
  | cons p ps ih =>
    obtain ⟨⟨hpaket, hquiet⟩, hps⟩ := forall_mem_cons.mp hp
    rw [flatten_cons, append_assoc, length_cons, Nat.add_right_comm, extract, turn_quiet hpaket hquiet]
    dsimp only
    rw [ih hps, map_cons, append_assoc, singleton_append]

variable {t : List Byte}

theorem turn_partial (ht : Partial big t) (ex : Bool) (given : List (List Byte)) :
    turn big ⟨t, t.length, ex, given⟩ = none := by
  unfold turn Partial at *
  dsimp only
  rw [if_neg]
  omega

theorem exists_whole (hp : ∀ p ∈ ps, IsPaket big p) {u v : List Byte} (h : u ++ v = ps.flatten) :
    ∃ qs rs t, ps = qs ++ rs ∧ u = qs.flatten ++ t ∧ t ++ v = rs.flatten ∧ Partial big t := by
  induction ps generalizing u with
  | nil =>
    obtain ⟨rfl, rfl⟩ := append_eq_nil_iff.mp h
    exact ⟨[], [], [], rfl, rfl, rfl, .inl (by decide)⟩
  | cons p ps ih =>
    obtain ⟨hpaket, hps⟩ := forall_mem_cons.mp hp
    rw [flatten_cons] at h
    by_cases hlen : u.length < p.length
    · refine ⟨[], p :: ps, u, rfl, rfl, by rw [h, flatten_cons], ?_⟩
      by_cases h4 : u.length < 4
      · exact .inl h4
      · have htake : u = p.take u.length := by
          have h' := congrArg (List.take u.length) h
          rwa [take_left, take_append_of_le_length hlen.le] at h'
        have hfield : len big u = p.length := by rw [htake, len_take (by omega), hpaket.len]
        exact .inr (by omega)
    · obtain ⟨u', rfl⟩ : ∃ u', u = p ++ u' := by
        have h' := congrArg (List.take p.length) h
        rw [take_left, take_append_of_le_length (by omega)] at h'
        exact ⟨u.drop p.length, (take_append_drop p.length u).symm.trans (congrArg (· ++ u.drop p.length) h')⟩
      rw [append_assoc, append_cancel_left_eq] at h
      obtain ⟨qs, rs, t, rfl, rfl, htv, ht⟩ := ih hps h
      exact ⟨p :: qs, rs, t, rfl, by rw [flatten_cons, append_assoc], htv, ht⟩

theorem event_client_quiet (hp : ∀ p ∈ ps, IsPaket big p ∧ Quiet big p) {t t' ch : List Byte}
    (hch : ch ≠ []) (hbuf : t ++ ch = ps.flatten ++ t') (ht : Partial big t') (hn : ps.length < n) (ex : Bool)
    (given : List (List Byte)) :
    event_client big n ch ⟨t, t.length, ex, given⟩ = some ⟨t', t'.length, ex, given ++ ps.map (toHost big)⟩ := by
  obtain ⟨k, rfl⟩ : ∃ k, n = ps.length + (k + 1) := ⟨n - ps.length - 1, by omega⟩
  have hall : CLIENT.received ⟨t, t.length, ex, given⟩ = t := take_length
  have hrest : CLIENT.received ⟨t', t'.length, ex, given ++ ps.map (toHost big)⟩ = t' := take_length
  have hlen : (t.length : Int) + ch.length = (ps.flatten ++ t').length := by rw [← hbuf, length_append, Int.natCast_add]
  rw [event_client, if_neg hch, hall, hlen, hbuf, extract_quiet hp, extract, turn_partial ht]
  dsimp only
  rw [Option.map_some, hrest]

theorem event_client_last (hp : ∀ p ∈ ps, IsPaket big p ∧ Quiet big p) (hlast : IsPaket big p)
    {t ch : List Byte} (hch : ch ≠ []) (hbuf : t ++ ch = (ps ++ [p]).flatten) (hn : ps.length + 1 < n) (ex : Bool)
    (given : List (List Byte)) : ∃ ex',
    event_client big n ch ⟨t, t.length, ex, given⟩ = some ⟨[], 0, ex', given ++ (ps ++ [p]).map (toHost big)⟩ := by
  obtain ⟨k, rfl⟩ : ∃ k, n = ps.length + (k + 2) := ⟨n - ps.length - 2, by omega⟩
  obtain ⟨ex', hturn⟩ := turn_last hlast ex (given ++ ps.map (toHost big))
  have hnone (given : List (List Byte)) : turn big ⟨[], 0, ex', given⟩ = none :=
    turn_partial (.inl (by decide) : Partial big []) ex' given
  have hall : CLIENT.received ⟨t, t.length, ex, given⟩ = t := take_length
  have hflat : (ps ++ [p]).flatten = ps.flatten ++ p := by rw [flatten_append, flatten_singleton]
  have hlen : (t.length : Int) + ch.length = (ps.flatten ++ p).length := by
    rw [← hflat, ← hbuf, length_append, Int.natCast_add]
  refine ⟨ex', ?_⟩
  rw [event_client, if_neg hch, hall, hlen, hbuf, hflat, extract_quiet hp, extract, hturn]
  dsimp only
  rw [extract, hnone]
  dsimp only
  rw [Option.map_some, map_append, map_singleton, append_assoc]
  rfl

theorem deliver_pakets (hp : ∀ p ∈ ps, IsPaket big p) (hquiet : ∀ p ∈ ps.dropLast, Quiet big p)
    {chunks : List (List Byte)} (hne : ∀ ch ∈ chunks, ch ≠ []) (ht : Partial big t)
    (hbuf : t ++ chunks.flatten = ps.flatten) (hn : ps.length < n) {ex : Bool} (hex : ps ≠ [] → ex = false)
    (given : List (List Byte)) : ∃ ex',
    deliver big n chunks ⟨t, t.length, ex, given⟩ = some ⟨[], 0, ex', given ++ ps.map (toHost big)⟩ := by
  induction chunks generalizing ps t ex given with
  | nil =>
    rw [flatten_nil, append_nil] at hbuf
    cases ps with
    | nil =>
      subst hbuf
      exact ⟨ex, by rw [deliver, map_nil, append_nil]; rfl⟩
    | cons p ps =>
      obtain ⟨hpaket, -⟩ := forall_mem_cons.mp hp
      have hwhole := (toHost_append big hpaket.header ps.flatten).1
      have hheader := hpaket.header
      rw [hbuf, flatten_cons, Partial, hwhole, hpaket.len, length_append] at ht
      omega
  | cons ch chunks ih =>
    obtain ⟨hch, hchunks⟩ := forall_mem_cons.mp hne
    rw [flatten_cons, ← append_assoc] at hbuf
    have hps : ps ≠ [] := by
      rintro rfl
      have hnil := append_eq_nil_iff.mp hbuf
      exact hch (append_eq_nil_iff.mp hnil.1).2
    obtain rfl := hex hps
    obtain ⟨qs, rs, t', rfl, hqs, hrs, ht'⟩ := exists_whole hp hbuf
    rw [deliver, if_neg Bool.false_ne_true]
    have hall : ∀ q ∈ qs ++ rs, IsPaket big q := hp
    rcases eq_nil_or_concat' rs with rfl | ⟨rs', r, rfl⟩
    · -- the chunk ends the stream
      rw [append_nil] at *
      obtain ⟨init, p, rfl⟩ := (eq_nil_or_concat' qs).resolve_left hps
      obtain ⟨rfl, hnil⟩ := append_eq_nil_iff.mp hrs
      obtain rfl : chunks = [] := eq_nil_iff_forall_not_mem.mpr fun q hq =>
        hchunks q hq (flatten_eq_nil_iff.mp hnil q hq)
      rw [dropLast_concat] at hquiet
      rw [append_nil] at hqs
      rw [length_append, length_singleton] at hn
      obtain ⟨ex', hcall⟩ := event_client_last (fun q hq => ⟨hall q (mem_append_left _ hq), hquiet q hq⟩)
        (hall p (by simp)) hch hqs hn false given
      rw [hcall]
      exact ⟨ex', rfl⟩
    · rw [← append_assoc, dropLast_concat] at hquiet
      rw [length_append] at hn
      have hcall := event_client_quiet (fun q hq => ⟨hall q (mem_append_left _ hq), hquiet q (mem_append_left _ hq)⟩)
        hch hqs ht' (by omega : qs.length < n) false given
      rw [hcall, Option.bind_some]
      have hrest := ih (fun q hq => hall q (mem_append_right _ hq))
        (by rw [dropLast_concat]; exact fun q hq => hquiet q (mem_append_right _ hq)) hchunks ht' hrs (by omega)
        (fun _ => rfl) (given ++ qs.map (toHost big))
      rwa [append_assoc, ← map_append] at hrest

/-- However the stream is cut, the packets arrive as they were sent. Only the last of them may be one that ends the client. -/
theorem deliver_stream (big : Bool) (ps chunks : List (List Byte)) (hp : ∀ p ∈ ps, IsPaket big p)
    (hquiet : ∀ p ∈ ps.dropLast, Quiet big p) (hne : ∀ ch ∈ chunks, ch ≠ []) (hcut : chunks.flatten = ps.flatten) :
    ∃ m, ∀ n > m, ∃ ex, deliver big n chunks ⟨[], 0, false, []⟩ = some ⟨[], 0, ex, ps.map (toHost big)⟩ :=
  ⟨ps.length, fun _ hn => deliver_pakets hp hquiet hne (.inl (by decide) : Partial big []) hcut hn (fun _ => rfl) []⟩

theorem deliver_stream_pieces : ∃ m, ∀ n > m, ∃ ex,
    deliver false n [[0x00], [0x04, 0x00, 0x00, 0x00], [0x04, 0x01, 0x10]] ⟨[], 0, false, []⟩ =
      some ⟨[], 0, ex, [[0x00, 0x04, 0x00, 0x00], [0x00, 0x04, 0x01, 0x10]].map (toHost false)⟩ := by
  refine deliver_stream false [[0x00, 0x04, 0x00, 0x00], [0x00, 0x04, 0x01, 0x10]] _ (fun p hp => ?_) (fun p hp => ?_) (by decide)
    (by decide)
  · simp only [List.mem_cons, List.not_mem_nil, or_false] at hp
    rcases hp with rfl | rfl <;> exact ⟨by decide, by decide, by decide, by decide⟩
  · obtain rfl := List.mem_singleton.mp hp
    exact ⟨by decide, by decide⟩

/-- Nothing is taken after a packet of an unknown type; after one that ends the client, what was read with it is. -/
theorem deliver_exceptions :
    (∀ p ∈ [[0x00, 0x04, 0xff, 0xff], [0x00, 0x04, 0x02, 0x01], [0x00, 0x04, 0x00, 0x00]], IsPaket false p) ∧
    deliver false 10 [[0x00, 0x04, 0xff, 0xff, 0x00, 0x04, 0x00, 0x00]] ⟨[], 0, false, []⟩ =
      some ⟨[], 0, true, [[0x04, 0x00, 0xff, 0xff]]⟩ ∧
    deliver false 10 [[0x00, 0x04, 0x02, 0x01, 0x00, 0x04, 0x00, 0x00]] ⟨[], 0, false, []⟩ =
      some ⟨[], 0, true, [[0x04, 0x00, 0x01, 0x02], [0x04, 0x00, 0x00, 0x00]]⟩ ∧
    deliver false 10 [[0x00, 0x04, 0x02, 0x01], [0x00, 0x04, 0x00, 0x00]] ⟨[], 0, false, []⟩ =
      some ⟨[], 0, true, [[0x04, 0x00, 0x01, 0x02]]⟩ := by
  refine ⟨fun p hp => ?_, by decide, by decide, by decide⟩
  simp only [List.mem_cons, List.not_mem_nil, or_false] at hp
  rcases hp with rfl | rfl | rfl <;> exact ⟨by decide, by decide, by decide, by decide⟩

end WWindowSystem.EventClient
