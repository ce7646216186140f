import WWindowSystem.Library.Words
import WWindowSystem.Library.Ring
import WWindowSystem.Library.Run

namespace WWindowSystem

open List

def MAXWEVENTS : Nat := 32

structure WEVENT where
  win : Nat
  type : BitVec 16
  time : BitVec 32
  x : BitVec 16
  y : BitVec 16
  w : BitVec 16
  h : BitVec 16
  key : BitVec 32
  deriving DecidableEq

structure EventBuffer where
  Event : Nat → WEVENT
  Events : Int
  Ev_write : Nat
  Ev_read : Nat

def nextEvent (i : Nat) : Nat := if i + 1 = MAXWEVENTS then 0 else i + 1

def event_pop (b : EventBuffer) : Option WEVENT × EventBuffer :=
  if b.Events ≠ 0 then
    (some (b.Event b.Ev_read), { b with Ev_read := nextEvent b.Ev_read, Events := short (b.Events - 1) })
  else (none, b)

def WEVENT.toHost (big : Bool) (e : WEVENT) : WEVENT :=
  { win := e.win
    type := ntohs big e.type
    time := ntohl big e.time
    x := ntohs big e.x
    y := ntohs big e.y
    w := ntohs big e.w
    h := ntohs big e.h
    key := ntohl big e.key }

def event_push (big : Bool) (b : EventBuffer) (ptr : WEVENT) : EventBuffer :=
  let b := { b with
    Event := Function.update b.Event b.Ev_write (ptr.toHost big)
    Ev_write := nextEvent b.Ev_write }
  let b := if b.Events ≥ (MAXWEVENTS : Int) then (event_pop b).2 else b
  { b with Events := short (b.Events + 1) }

/-- The loop that skips the events of the window at the front. The flag tells whether events are
left; `none` is a loop that does not end. -/
def skipEvents (win : Nat) : Nat → EventBuffer → Option (Bool × EventBuffer)
  | 0, _ => none
  | fuel + 1, b =>
    if (b.Event b.Ev_read).win = win then
      let b := { b with Ev_read := nextEvent b.Ev_read, Events := short (b.Events - 1) }
      if b.Events = 0 then some (false, b) else skipEvents win fuel b
    else some (true, b)

def findEvent (b : EventBuffer) (win : Nat) : Nat → Nat → Option (Option Nat)
  | 0, _ => none
  | fuel + 1, nr =>
    let nr := nextEvent nr
    if nr = b.Ev_write then some none
    else if (b.Event nr).win = win then some (some nr)
    else findEvent b win fuel nr

def moveEvents (win : Nat) : Nat → Nat → Nat → EventBuffer → Option EventBuffer
  | 0, _, _, _ => none
  | fuel + 1, nr, nw, b =>
    let nr := nextEvent nr
    if nr = b.Ev_write then some { b with Ev_write := nw }
    else if (b.Event nr).win ≠ win then
      moveEvents win fuel nr (nextEvent nw)
        { b with Event := Function.update b.Event nw (b.Event nr), Events := short (b.Events - 1) }
    else moveEvents win fuel nr nw b

/-- `Events` is a `short` that is counted down, and a cursor returns after `MAXWEVENTS` steps. -/
def _wremove_events (b : EventBuffer) (win : Nat) : Option EventBuffer :=
  if b.Events = 0 then some b
  else match skipEvents win 65536 b with
  | none => none
  | some (false, b) => some b
  | some (true, b) =>
    match findEvent b win MAXWEVENTS b.Ev_read with
    | none => none
    | some none => some b
    | some (some nr) => moveEvents win MAXWEVENTS nr nr b

open Ring

structure Layout (b : EventBuffer) (l : List WEVENT) : Prop where
  read : b.Ev_read < MAXWEVENTS
  size : l.length ≤ MAXWEVENTS
  write : b.Ev_write = slot MAXWEVENTS b.Ev_read l.length
  slots : Holds MAXWEVENTS b.Event b.Ev_read l

def Refines (b : EventBuffer) (l : List WEVENT) : Prop := Layout b l ∧ b.Events = l.length

theorem MAXWEVENTS_pos : 0 < MAXWEVENTS := by decide

theorem short_events {z : Int} (h : 0 ≤ z) (h' : z ≤ MAXWEVENTS) : short z = z := by
  have hm : (MAXWEVENTS : Int) = 32 := rfl
  apply short_of_range
  · omega
  · omega

variable {b : EventBuffer} {l : List WEVENT}

theorem Layout.tail {a : WEVENT} (h : Layout b (a :: l)) (E : Int) :
    Layout { b with Ev_read := nextEvent b.Ev_read, Events := E } l := by
  refine ⟨next_lt h.read, ?_, ?_, h.slots.2⟩
  · have := h.size
    rw [length_cons] at this
    omega
  · change b.Ev_write = slot MAXWEVENTS (next MAXWEVENTS b.Ev_read) l.length
    rw [h.write, slot_next h.read, length_cons]

theorem Refines.tail {a : WEVENT} (h : Refines b (a :: l)) :
    Refines { b with Ev_read := nextEvent b.Ev_read, Events := short (b.Events - 1) } l := by
  obtain ⟨hl, he⟩ := h
  refine ⟨hl.tail _, ?_⟩
  have hs := hl.size
  rw [length_cons] at he hs
  dsimp only
  rw [short_events] <;> omega

theorem event_pop_refines (h : Refines b l) :
    (event_pop b).1 = l.head? ∧ Refines (event_pop b).2 l.tail := by
  unfold event_pop
  cases l with
  | nil =>
    have he : b.Events = 0 := h.2
    rw [if_neg (by simp [he])]
    exact ⟨rfl, h⟩
  | cons a l =>
    have he : b.Events ≠ 0 := by
      rw [h.2, length_cons]
      omega
    rw [if_pos he]
    exact ⟨congrArg some h.1.slots.1, h.tail⟩

def pushed (l : List WEVENT) (e : WEVENT) : List WEVENT :=
  (if l.length = MAXWEVENTS then l.tail else l) ++ [e]

variable {big : Bool}

theorem event_push_refines (h : Refines b l)
    (ptr : WEVENT) : Refines (event_push big b ptr) (pushed l (ptr.toHost big)) := by
  obtain ⟨hl, he⟩ := h
  have hw := hl.write
  have hsz := hl.size
  unfold event_push pushed
  dsimp only
  by_cases hf : l.length = MAXWEVENTS
  · -- the new event takes the place of the oldest one
    have hE : b.Events ≥ (MAXWEVENTS : Int) := by omega
    have hE0 : b.Events ≠ 0 := by
      have := MAXWEVENTS_pos
      omega
    rw [if_pos hf, if_pos hE]
    simp only [event_pop, if_pos hE0]
    cases l with
    | nil => exact absurd hf (by decide)
    | cons a l =>
      rw [length_cons] at hf he
      have hlt : l.length < MAXWEVENTS := by omega
      rw [length_cons, ← slot_next hl.read] at hw
      have hp := Holds.push (a := ptr.toHost big) (next_lt hl.read) hl.slots.2 hlt
      rw [← hw] at hp
      refine ⟨⟨next_lt hl.read, ?_, ?_, hp⟩, ?_⟩
      · simp only [tail_cons, length_append, length_singleton]
        omega
      · rw [tail_cons, length_append, length_singleton]
        dsimp only
        rw [hw]
        exact next_slot MAXWEVENTS_pos _ _
      · simp only [tail_cons, length_append, length_singleton]
        rw [short_events (z := b.Events - 1) (by omega) (by omega), short_events] <;> omega
  · have hE : ¬ b.Events ≥ (MAXWEVENTS : Int) := by omega
    rw [if_neg hf, if_neg hE]
    have hp := Holds.push (a := ptr.toHost big) hl.read hl.slots (by omega)
    rw [← hw] at hp
    refine ⟨⟨hl.read, ?_, ?_, hp⟩, ?_⟩
    · rw [length_append, length_singleton]
      omega
    · rw [length_append, length_singleton]
      dsimp only
      rw [hw]
      exact next_slot MAXWEVENTS_pos _ _
    · rw [length_append, length_singleton]
      dsimp only
      rw [short_events] <;> omega

def skipped (win : Nat) (l : List WEVENT) : List WEVENT := l.dropWhile fun e => e.win = win

def found (win : Nat) (l : List WEVENT) : List WEVENT := l.dropWhile fun e => e.win ≠ win

def kept (win : Nat) (l : List WEVENT) : List WEVENT := l.filter fun e => e.win ≠ win

variable (win : Nat)

theorem skipEvents_spec {fuel : Nat}
    (h : Refines b l) (hl : l ≠ []) (hf : l.length ≤ fuel) :
    ∃ b', skipEvents win fuel b = some (decide (skipped win l ≠ []), b') ∧ Refines b' (skipped win l) := by
  induction l generalizing b fuel with
  | nil => exact absurd rfl hl
  | cons a l ih =>
    obtain ⟨fuel, rfl⟩ : ∃ k, fuel = k + 1 := ⟨fuel - 1, by rw [length_cons] at hf; omega⟩
    have ha := h.1.slots.1
    rw [skipEvents, ha]
    by_cases hw : a.win = win
    · have ht := h.tail
      have hs : skipped win (a :: l) = skipped win l := by simp [skipped, hw]
      rw [if_pos hw, hs]
      dsimp only
      by_cases hn : l = []
      · subst hn
        have h0 : short (b.Events - 1) = 0 := ht.2
        rw [if_pos h0]
        exact ⟨_, by simp [skipped], ht⟩
      · have h0 : short (b.Events - 1) ≠ 0 := by
          have he : short (b.Events - 1) = l.length := ht.2
          have := length_pos_iff.mpr hn
          omega
        rw [if_neg h0]
        exact ih ht hn (by rw [length_cons] at hf; omega)
    · have hs : skipped win (a :: l) = a :: l := by simp [skipped, hw]
      rw [if_neg hw, hs]
      exact ⟨b, by simp, h⟩

theorem Layout.at_end (h : Layout b l) {k : Nat} (hk : 0 < k)
    (hkl : k ≤ l.length) : slot MAXWEVENTS b.Ev_read k = b.Ev_write ↔ k = l.length := by
  rw [h.write]
  constructor
  · intro he
    by_contra hne
    have hs := h.size
    exact slot_ne (show k < l.length by omega) (by omega) he
  · rintro rfl
    rfl

theorem findEvent_spec (win fuel : Nat) {l m t : List WEVENT} (h : Layout b l)
    (hl : l = m ++ t) (hm : m ≠ []) (hf : t.length < fuel) :
    findEvent b win fuel (slot MAXWEVENTS b.Ev_read (m.length - 1)) = some (if found win t = [] then none
        else some (slot MAXWEVENTS b.Ev_read (l.length - (found win t).length))) := by
  have hmp := length_pos_iff.mpr hm
  induction t generalizing m fuel with
  | nil =>
    obtain ⟨fuel, rfl⟩ : ∃ k, fuel = k + 1 := ⟨fuel - 1, by omega⟩
    rw [findEvent]
    have hn : nextEvent (slot MAXWEVENTS b.Ev_read (m.length - 1)) = slot MAXWEVENTS b.Ev_read m.length := by
      have := next_slot MAXWEVENTS_pos b.Ev_read (m.length - 1)
      rwa [Nat.sub_add_cancel hmp] at this
    rw [hn, if_pos]
    · simp [found]
    · rw [append_nil] at hl
      exact (h.at_end hmp (by rw [hl])).mpr (by rw [hl])
  | cons a t ih =>
    obtain ⟨fuel, rfl⟩ : ∃ k, fuel = k + 1 := ⟨fuel - 1, by omega⟩
    rw [findEvent]
    have hn : nextEvent (slot MAXWEVENTS b.Ev_read (m.length - 1)) = slot MAXWEVENTS b.Ev_read m.length := by
      have := next_slot MAXWEVENTS_pos b.Ev_read (m.length - 1)
      rwa [Nat.sub_add_cancel hmp] at this
    have hlen : l.length = m.length + (t.length + 1) := by
      rw [hl, length_append, length_cons]
    have hne : slot MAXWEVENTS b.Ev_read m.length ≠ b.Ev_write := by
      intro he
      have := (h.at_end hmp (by omega)).mp he
      omega
    have ha : b.Event (slot MAXWEVENTS b.Ev_read m.length) = a := by
      have hs := h.slots
      rw [hl, Holds.append h.read] at hs
      exact hs.2.1
    rw [hn, if_neg hne, ha]
    by_cases hw : a.win = win
    · have hfd : found win (a :: t) = a :: t := by simp [found, hw]
      rw [if_pos hw, hfd, if_neg (by simp), hlen, length_cons, Nat.add_sub_cancel]
    · have hfd : found win (a :: t) = found win t := by simp [found, hw]
      rw [if_neg hw, hfd]
      have := ih fuel (m := m ++ [a]) (by rw [hl]; simp) (by simp)
        (by rw [length_cons] at hf; omega) (by simp)
      rwa [length_append, length_singleton, Nat.add_sub_cancel] at this

theorem moveEvents_spec (win fuel : Nat) {j n : Nat} {l t : List WEVENT}
    (hr : b.Ev_read < MAXWEVENTS) (hl : Holds MAXWEVENTS b.Event b.Ev_read l) (hj : l.length ≤ j)
    (ht : Holds MAXWEVENTS b.Event (slot MAXWEVENTS b.Ev_read (j + 1)) t)
    (hn : j + 1 + t.length = n) (hm : n ≤ MAXWEVENTS) (hw : b.Ev_write = slot MAXWEVENTS b.Ev_read n)
    (hE : t.length ≤ b.Events) (hE' : b.Events ≤ MAXWEVENTS) (hf : t.length < fuel) :
    ∃ b', moveEvents win fuel (slot MAXWEVENTS b.Ev_read j) (slot MAXWEVENTS b.Ev_read l.length) b =
        some b' ∧ Layout b' (l ++ kept win t) ∧ b'.Events = b.Events - (kept win t).length := by
  have hnext : ∀ k, nextEvent (slot MAXWEVENTS b.Ev_read k) = slot MAXWEVENTS b.Ev_read (k + 1) :=
    fun k => next_slot MAXWEVENTS_pos _ _
  induction t generalizing l b j fuel with
  | nil =>
    obtain ⟨fuel, rfl⟩ : ∃ k, fuel = k + 1 := ⟨fuel - 1, by omega⟩
    have he : slot MAXWEVENTS b.Ev_read (j + 1) = b.Ev_write := by
      rw [hw, ← hn, length_nil, Nat.add_zero]
    rw [moveEvents, hnext, if_pos he]
    refine ⟨_, rfl, ⟨hr, ?_, ?_, ?_⟩, ?_⟩
    · simp only [kept, filter_nil, append_nil]
      omega
    · simp only [kept, filter_nil, append_nil]
    · simpa [kept] using hl
    · simp [kept]
  | cons a t ih =>
    obtain ⟨fuel, rfl⟩ : ∃ k, fuel = k + 1 := ⟨fuel - 1, by omega⟩
    rw [length_cons] at hn hE hf
    obtain ⟨ha, ht⟩ := ht
    have hstep : next MAXWEVENTS (slot MAXWEVENTS b.Ev_read (j + 1)) =
        slot MAXWEVENTS b.Ev_read (j + 1 + 1) := next_slot MAXWEVENTS_pos _ _
    rw [hstep] at ht
    have hne : slot MAXWEVENTS b.Ev_read (j + 1) ≠ b.Ev_write := by
      rw [hw]
      exact slot_ne (by omega) (by omega)
    rw [moveEvents, hnext, if_neg hne, ha]
    by_cases hwin : a.win = win
    · have hk : kept win (a :: t) = kept win t := by simp [kept, hwin]
      rw [if_neg (by simp [hwin]), hk]
      exact ih fuel hr hl (by omega) ht (by omega) hw (by omega) hE' (by omega) hnext
    · -- the event moves down to the first free slot
      have hk : kept win (a :: t) = a :: kept win t := by simp [kept, hwin]
      rw [if_pos hwin, hk, hnext]
      have hl' := Holds.push (a := a) hr hl (by omega)
      have ht' : Holds MAXWEVENTS (Function.update b.Event (slot MAXWEVENTS b.Ev_read l.length) a)
          (slot MAXWEVENTS b.Ev_read (j + 1 + 1)) t := by
        apply ht.update (slot_lt MAXWEVENTS_pos _ _)
        intro k hk
        rw [slot_slot]
        exact (slot_ne (by omega) (by omega)).symm
      have hs : short (b.Events - 1) = b.Events - 1 := short_events (by omega) (by omega)
      obtain ⟨b', h1, h2, h3⟩ := ih fuel (l := l ++ [a]) (j := j + 1)
        (b := { b with
          Event := Function.update b.Event (slot MAXWEVENTS b.Ev_read l.length) a
          Events := short (b.Events - 1) })
        hr hl' (by rw [length_append, length_singleton]; omega) ht' (by omega) hw
        (by dsimp only; omega) (by dsimp only; omega) (by omega) hnext
      rw [length_append, length_singleton] at h1
      rw [append_assoc] at h2
      refine ⟨b', h1, h2, ?_⟩
      rw [h3]
      dsimp only
      rw [hs, length_cons]
      omega

def gap (win : Nat) (l : List WEVENT) : List WEVENT := found win (skipped win l)

theorem kept_skipped (l : List WEVENT) : kept win (skipped win l) = kept win l := by
  induction l with
  | nil => rfl
  | cons a l ih =>
    by_cases hw : a.win = win
    · have h1 : skipped win (a :: l) = skipped win l := by simp [skipped, hw]
      have h2 : kept win (a :: l) = kept win l := by simp [kept, hw]
      rw [h1, h2, ih]
    · have h1 : skipped win (a :: l) = a :: l := by simp [skipped, hw]
      rw [h1]

theorem kept_found (l : List WEVENT) :
    ∃ m, l = m ++ found win l ∧ kept win l = m ++ kept win (found win l) := by
  induction l with
  | nil => exact ⟨[], rfl, rfl⟩
  | cons a l ih =>
    by_cases hw : a.win = win
    · have h1 : found win (a :: l) = a :: l := by simp [found, hw]
      rw [h1]
      exact ⟨[], rfl, rfl⟩
    · have h1 : found win (a :: l) = found win l := by simp [found, hw]
      have h2 : kept win (a :: l) = a :: kept win l := by simp [kept, hw]
      obtain ⟨m, hm, hk⟩ := ih
      rw [h1, h2]
      exact ⟨a :: m, by rw [cons_append, ← hm], by rw [cons_append, ← hk]⟩

theorem skipped_head (h : skipped win l ≠ []) :
    ∃ a t, skipped win l = a :: t ∧ a.win ≠ win := by
  obtain ⟨a, t, ht⟩ := exists_cons_of_ne_nil h
  refine ⟨a, t, ht, ?_⟩
  have := head?_dropWhile_not (fun e : WEVENT => decide (e.win = win)) l
  rw [skipped] at ht
  rw [ht] at this
  simpa using this

theorem _wremove_events_spec (h : Refines b l) (win : Nat) :
    ∃ b', _wremove_events b win = some b' ∧ Layout b' (kept win l) ∧
      b'.Events = (skipped win l).length - (kept win (gap win l)).length := by
  unfold _wremove_events
  by_cases hl : l = []
  · subst hl
    have h0 : b.Events = 0 := h.2
    rw [if_pos h0]
    exact ⟨b, rfl, h.1, h0⟩
  have h0 : b.Events ≠ 0 := by
    have := length_pos_iff.mpr hl
    rw [h.2]
    omega
  rw [if_neg h0]
  have hsz : l.length ≤ 65536 := by
    have := h.1.size
    have hm : MAXWEVENTS = 32 := rfl
    omega
  obtain ⟨b₁, h1, h2⟩ := skipEvents_spec win h hl hsz
  rw [h1]
  by_cases hs : skipped win l = []
  · rw [decide_eq_false (by simpa using hs)]
    have hk : kept win l = [] := by rw [← kept_skipped, hs]; rfl
    rw [hs] at h2
    refine ⟨b₁, rfl, hk ▸ h2.1, ?_⟩
    rw [h2.2, gap, hs]
    rfl
  rw [decide_eq_true hs]
  dsimp only
  obtain ⟨a, t, hat, hne⟩ := skipped_head win hs
  have hfound : found win (a :: t) = found win t := by simp [found, hne]
  have hgap : gap win l = found win t := by rw [gap, hat, hfound]
  have hlay := h2.1
  rw [hat] at hlay
  have hf := findEvent_spec win MAXWEVENTS (m := [a]) (t := t) hlay rfl (by simp) (by
    have := hlay.size
    rw [length_cons] at this
    omega)
  rw [length_singleton, Nat.sub_self, slot_zero hlay.read] at hf
  rw [hf]
  obtain ⟨m, hm, hk⟩ := kept_found win (a :: t)
  rw [hfound] at hm hk
  have hE := h2.2
  rw [hat] at hE
  by_cases hg : found win t = []
  · rw [if_pos hg]
    rw [hg, append_nil] at hm
    have hkl : kept win l = a :: t := by
      rw [← kept_skipped, hat, hk, hg, hm]
      simp [kept]
    rw [hkl, hgap, hg, hat]
    exact ⟨b₁, rfl, hlay, by rw [hE]; simp [kept]⟩
  · rw [if_neg hg]
    dsimp only
    obtain ⟨c, u, hcu⟩ := exists_cons_of_ne_nil hg
    have hc : c.win = win := by
      have := head?_dropWhile_not (fun e : WEVENT => decide (e.win ≠ win)) t
      rw [found] at hcu
      rw [hcu] at this
      simpa using this
    have hlen : (a :: t).length = m.length + (u.length + 1) := by
      conv_lhs => rw [hm]
      rw [length_append, hcu, length_cons]
    have hpos : (a :: t).length - (found win t).length = m.length := by
      rw [hlen, hcu, length_cons, Nat.add_sub_cancel]
    have hslots := hlay.slots
    rw [hm, hcu, Holds.append hlay.read] at hslots
    obtain ⟨hs1, -, hs2⟩ := hslots
    have hnx : next MAXWEVENTS (slot MAXWEVENTS b₁.Ev_read m.length) =
        slot MAXWEVENTS b₁.Ev_read (m.length + 1) := next_slot MAXWEVENTS_pos _ _
    rw [hnx] at hs2
    have hsize := hlay.size
    obtain ⟨b', h3, h4, h5⟩ := moveEvents_spec win MAXWEVENTS hlay.read hs1 le_rfl
      hs2 (n := (a :: t).length) (by omega) hsize hlay.write (by rw [hE]; omega) (by rw [hE]; omega)
      (by omega)
    have hku : kept win (found win t) = kept win u := by
      rw [hcu]
      simp [kept, hc]
    rw [hpos]
    refine ⟨b', h3, ?_, ?_⟩
    · rw [← kept_skipped, hat, hk, hku]
      exact h4
    · rw [h5, hE, hat, hgap, hku]

def Balanced (l : List WEVENT) (win : Nat) : Prop :=
  (gap win l).countP (fun e => e.win = win) = (gap win l).countP fun e => e.win ≠ win

theorem remove_refines_iff {b' : EventBuffer} {win : Nat} (h : Layout b' (kept win l))
    (he : b'.Events = (skipped win l).length - (kept win (gap win l)).length) :
    Refines b' (kept win l) ↔ Balanced l win := by
  obtain ⟨m, hm, hk⟩ := kept_found win (skipped win l)
  have h1 := congrArg List.length hm
  have h2 := congrArg List.length hk
  rw [kept_skipped] at h2
  rw [length_append] at h1 h2
  change _ = m.length + (gap win l).length at h1
  change _ = m.length + (kept win (gap win l)).length at h2
  have hc : (kept win (gap win l)).length = (gap win l).countP fun e => e.win ≠ win :=
    countP_eq_length_filter.symm
  have hl := length_eq_countP_add_countP (fun e : WEVENT => decide (e.win = win)) (l := gap win l)
  have hn : (gap win l).countP (fun e => decide ¬ decide (e.win = win) = true) =
      (gap win l).countP fun e => e.win ≠ win := by
    simp only [decide_eq_true_eq, ne_eq]
  rw [hn] at hl
  unfold Refines Balanced
  constructor
  · rintro ⟨-, hb⟩
    omega
  · intro hb
    refine ⟨h, ?_⟩
    omega

inductive EventCall where
  | push (ptr : WEVENT)
  | pop
  | remove (win : Nat)

def EventCall.run (big : Bool) (b : EventBuffer) : EventCall → Option (Option WEVENT × EventBuffer)
  | .push ptr => some (none, event_push big b ptr)
  | .pop => some (event_pop b)
  | .remove win => (_wremove_events b win).map fun b => (none, b)

def EventCall.queue (big : Bool) (l : List WEVENT) : EventCall → Option WEVENT × List WEVENT
  | .push ptr => (none, pushed l (ptr.toHost big))
  | .pop => (l.head?, l.tail)
  | .remove win => (none, kept win l)

def EventCall.Balanced (l : List WEVENT) : EventCall → Prop
  | .remove win => WWindowSystem.Balanced l win
  | _ => True

theorem EventCall.refines_iff (big : Bool) (h : Refines b l) (c : EventCall) :
    (∃ b', c.run big b = some ((c.queue big l).1, b') ∧ Refines b' (c.queue big l).2) ↔ c.Balanced l := by
  cases c with
  | push ptr => exact ⟨fun _ => trivial, fun _ => ⟨_, rfl, event_push_refines h ptr⟩⟩
  | pop =>
    obtain ⟨h1, h2⟩ := event_pop_refines h
    exact ⟨fun _ => trivial, fun _ => ⟨_, congrArg some (Prod.ext h1 rfl), h2⟩⟩
  | remove win =>
    obtain ⟨b', hb, hlay, hE⟩ := _wremove_events_spec h win
    have hrun : EventCall.run big b (.remove win) = some (none, b') := by
      rw [EventCall.run, hb]
      rfl
    rw [hrun]
    constructor
    · rintro ⟨b'', he, hr⟩
      obtain rfl : b' = b'' := (Prod.mk.inj (Option.some.inj he)).2
      exact (remove_refines_iff hlay hE).mp hr
    · intro hbal
      exact ⟨b', rfl, (remove_refines_iff hlay hE).mpr hbal⟩

def runCalls (big : Bool) : EventBuffer → List EventCall → Option (List (Option WEVENT) × EventBuffer)
  | b, [] => some ([], b)
  | b, c :: cs =>
    (c.run big b).bind fun r => (runCalls big r.2 cs).map fun q => (r.1 :: q.1, q.2)

def queueAfter (big : Bool) (l : List WEVENT) (cs : List EventCall) : List WEVENT :=
  cs.foldl (fun l c => (c.queue big l).2) l

def IsQueue (big : Bool) (b : EventBuffer) (l : List WEVENT) (cs : List EventCall) : Prop :=
  ∃ b', runCalls big b cs = some (replies (fun l c => EventCall.queue big l c) l cs, b') ∧
    Refines b' (queueAfter big l cs)

theorem isQueue_cons {b b' : EventBuffer} {c : EventCall}
    (h : c.run big b = some ((c.queue big l).1, b')) (cs : List EventCall) :
    IsQueue big b l (c :: cs) ↔ IsQueue big b' (c.queue big l).2 cs := by
  unfold IsQueue
  rw [runCalls, h, Option.bind_some, replies]
  constructor
  · rintro ⟨b'', he, hr⟩
    obtain ⟨⟨rs, b₂⟩, hq, hp⟩ := Option.map_eq_some_iff.mp he
    obtain ⟨h1, h2⟩ := Prod.mk.inj hp
    obtain rfl := h2
    exact ⟨_, hq.trans (congrArg some (Prod.ext (List.cons.inj h1).2 rfl)), hr⟩
  · rintro ⟨b'', he, hr⟩
    exact ⟨b'', by rw [he]; rfl, hr⟩

theorem queue_iff (h : Refines b l) (cs : List EventCall) :
    (∀ pre, pre <+: cs → IsQueue big b l pre) ↔
      AllSafe (fun l c => (EventCall.queue big l c).2) EventCall.Balanced l cs := by
  induction cs generalizing b l with
  | nil =>
    refine ⟨fun _ => trivial, fun _ pre hp => ?_⟩
    obtain rfl := prefix_nil.mp hp
    exact ⟨b, rfl, h⟩
  | cons c cs ih =>
    rw [AllSafe, ← EventCall.refines_iff big h c]
    constructor
    · intro hq
      -- the first call alone
      obtain ⟨b₁, h1, h2⟩ := hq [c] (prefix_append [c] cs)
      have hc : ∃ b', c.run big b = some ((c.queue big l).1, b') ∧ Refines b' (c.queue big l).2 := by
        rw [runCalls] at h1
        obtain ⟨r, hr, hr'⟩ := Option.bind_eq_some_iff.mp h1
        simp only [runCalls, Option.map_some, replies, Option.some.injEq, Prod.mk.injEq,
          List.cons.injEq, and_true] at hr'
        obtain ⟨hr1, rfl⟩ := hr'
        exact ⟨r.2, hr.trans (congrArg some (Prod.ext hr1 rfl)), h2⟩
      refine ⟨hc, ?_⟩
      obtain ⟨b', h3, h4⟩ := hc
      apply (ih h4).mp
      intro pre hp
      exact (isQueue_cons h3 pre).mp (hq (c :: pre) (cons_prefix_cons.mpr ⟨rfl, hp⟩))
    · rintro ⟨⟨b', h3, h4⟩, hs⟩ pre hp
      cases pre with
      | nil => exact ⟨b, rfl, h⟩
      | cons d pre =>
        obtain ⟨rfl, hpre⟩ := cons_prefix_cons.mp hp
        exact (isQueue_cons h3 pre).mpr ((ih h4).mpr hs pre hpre)

def emptyBuffer (Event : Nat → WEVENT) : EventBuffer := ⟨Event, 0, 0, 0⟩

theorem emptyBuffer_refines (Event : Nat → WEVENT) : Refines (emptyBuffer Event) [] :=
  ⟨⟨by simp [emptyBuffer, MAXWEVENTS], by simp, by simp [emptyBuffer, slot], trivial⟩, rfl⟩

/-- The event buffer behaves as a queue after each call of a sequence exactly if no call of
`_wremove_events` has to move more or less events than it removes behind the first preserved one. -/
theorem event_buffer_queue (big : Bool) (Event : Nat → WEVENT) (cs : List EventCall) :
    (∀ pre, pre <+: cs → IsQueue big (emptyBuffer Event) [] pre) ↔
      AllSafe (fun l c => (EventCall.queue big l c).2) EventCall.Balanced [] cs :=
  queue_iff (emptyBuffer_refines Event) cs

def someEvent (win : Nat) : WEVENT := ⟨win, 0, 0, 0, 0, 0, 0, 0⟩

/-- The younger one of two events is removed: the buffer says that two events are left. -/
theorem event_buffer_miscounts : ¬ IsQueue true (emptyBuffer fun _ => someEvent 0) []
      [.push (someEvent 1), .push (someEvent 2), .remove 2] := by
  rintro ⟨b', h, -, hE⟩
  have hr : ((runCalls true (emptyBuffer fun _ => someEvent 0)
      [.push (someEvent 1), .push (someEvent 2), .remove 2]).map fun q => q.2.Events) = some 2 := by
    decide +kernel
  rw [h, Option.map_some, hE] at hr
  exact absurd hr (by decide +kernel)

end WWindowSystem
