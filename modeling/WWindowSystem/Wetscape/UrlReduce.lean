import Mathlib.Tactic.Linarith
import WWindowSystem.Wetscape.UrlRoundTrip

namespace WWindowSystem

open List

variable {d : Nat} {s t : List Byte}

def Dotted (s : List Byte) : Prop := s.take 4 = cstring "/../" ∨ s.take 3 = cstring "/./"

variable {a : List Byte}

theorem take_eq_append {n : Nat} (h : s.take n = a) : s = a ++ s.drop n := by
  rw [← h, take_append_drop]

theorem dotted_head (h : Dotted s) : s.head? = some 47 := by
  rcases h with h | h
  · rw [take_eq_append h]
    rfl
  · rw [take_eq_append h]
    rfl

theorem not_dotted (hup : s.take 4 ≠ cstring "/../") (hhere : s.take 3 ≠ cstring "/./") : ¬ Dotted s := not_or.mpr ⟨hup, hhere⟩

theorem within_slash (hdot : ¬ Dotted (47 :: s)) (h : WithinRoot d (47 :: s)) : WithinRoot (d + 1) s := by
  cases h with
  | done ht => cases ht
  | up hd ht h =>
    rw [ht] at hdot
    exact absurd (.inl rfl) hdot
  | here ht h =>
    rw [ht] at hdot
    exact absurd (.inr rfl) hdot
  | slash ht _ _ h =>
    cases ht
    exact h
  | char ht hc h =>
    cases ht
    exact absurd rfl hc

variable {c : Byte}

theorem within_char (hc : c ≠ 47) (h : WithinRoot d (c :: s)) : WithinRoot d s := by
  cases h with
  | done ht => cases ht
  | up hd ht h =>
    cases ht
    exact absurd rfl hc
  | here ht h =>
    cases ht
    exact absurd rfl hc
  | slash ht _ _ h =>
    cases ht
    exact absurd rfl hc
  | char ht hc h =>
    cases ht
    exact h

theorem within_up (h : WithinRoot d (cstring "/../" ++ s)) : ∃ e, d = e + 1 ∧ WithinRoot e (47 :: s) := by
  cases h with
  | done ht => cases ht
  | up hd ht h =>
    have hs := append_cancel_left ht
    rw [hs]
    exact ⟨_, hd, h⟩
  | here ht h => exact absurd (congrArg (List.take 3) ht) (by simp [cstring])
  | slash ht hup _ h => exact absurd rfl hup
  | char ht hc h =>
    cases ht
    exact absurd rfl hc

theorem within_here (h : WithinRoot d (cstring "/./" ++ s)) : WithinRoot d (47 :: s) := by
  cases h with
  | done ht => cases ht
  | up hd ht h => exact absurd (congrArg (List.take 3) ht) (by simp [cstring])
  | here ht h =>
    have hs := append_cancel_left ht
    rw [hs]
    exact h
  | slash ht _ hhere h => exact absurd rfl hhere
  | char ht hc h =>
    cases ht
    exact absurd rfl hc

theorem within_chars {seg : List Byte} (hseg : 47 ∉ seg) (h : WithinRoot d (seg ++ t)) : WithinRoot d t := by
  induction seg with
  | nil => exact h
  | cons c seg ih =>
    have hc := (ne_of_not_mem_cons hseg).symm
    exact ih (not_mem_of_not_mem_cons hseg) (within_char hc h)

def Clean (front t : List Byte) : Prop := ∀ a b, front = a ++ b → b ≠ [] → ¬ Dotted (b ++ t)

theorem Clean.tail {front : List Byte} (h : Clean (c :: front) t) : Clean front t := by
  intro a b hab hb
  exact h (c :: a) b (by rw [hab]; rfl) hb

theorem Clean.head {front : List Byte} (h : Clean (c :: front) t) : ¬ Dotted (c :: front ++ t) :=
  h [] (c :: front) rfl (cons_ne_nil _ _)

theorem dotted_congr (pre x y : List Byte) (h : Dotted (47 :: pre ++ 47 :: x)) : Dotted (47 :: pre ++ 47 :: y) := by
  unfold Dotted at h ⊢
  match pre with
  | [] => simp [cstring] at h
  | [a] => simpa [cstring] using h
  | [a, b] => simpa [cstring] using h
  | a :: b :: c :: pre => simpa [cstring] using h

theorem within_drop_segment {pre seg rest : List Byte} (hseg : 47 ∉ seg) (hclean : Clean (pre ++ 47 :: seg) (cstring "/../" ++ rest))
    (h : WithinRoot d (pre ++ 47 :: seg ++ (cstring "/../" ++ rest))) : WithinRoot d (pre ++ 47 :: rest) := by
  induction pre generalizing d with
  | nil =>
    obtain ⟨e, hd, hrest⟩ := within_up (within_chars hseg (within_slash hclean.head h))
    rw [Nat.succ.inj hd]
    exact hrest
  | cons c pre ih =>
    by_cases hc : c = 47
    · rw [hc] at h hclean ⊢
      have hdot : ¬ Dotted (47 :: pre ++ 47 :: rest) := fun hd => hclean.head (by
        have hcongr := dotted_congr pre rest (seg ++ (cstring "/../" ++ rest)) hd
        simpa using hcongr)
      have hdot' := not_or.mp hdot
      exact .slash rfl hdot'.1 hdot'.2 (ih hclean.tail (within_slash hclean.head h))
    · exact .char rfl hc (ih hclean.tail (within_char hc h))

theorem within_drop_here {pre rest : List Byte} (hclean : Clean pre (cstring "/./" ++ rest))
    (h : WithinRoot d (pre ++ (cstring "/./" ++ rest))) : WithinRoot d (pre ++ 47 :: rest) := by
  induction pre generalizing d with
  | nil => exact within_here h
  | cons c pre ih =>
    by_cases hc : c = 47
    · rw [hc] at h hclean ⊢
      have hdot : ¬ Dotted (47 :: pre ++ 47 :: rest) := fun hd => hclean.head (by
        have hcongr := dotted_congr pre rest (46 :: 47 :: rest) hd
        simpa [cstring] using hcongr)
      have hdot' := not_or.mp hdot
      exact .slash rfl hdot'.1 hdot'.2 (ih hclean.tail (within_slash hclean.head h))
    · exact .char rfl hc (ih hclean.tail (within_char hc h))

theorem not_within_up {seg rest : List Byte} (hseg : 47 ∉ seg) : ¬ WithinRoot 0 (seg ++ (cstring "/../" ++ rest)) := by
  intro h
  obtain ⟨e, he, _⟩ := within_up (within_chars hseg h)
  cases he

variable {front : List Byte}

theorem Clean.snoc (h : Clean front (c :: t)) (hdot : ¬ Dotted (c :: t)) : Clean (front ++ [c]) t := by
  intro a b hab hb
  obtain ⟨b', e, rfl⟩ : ∃ b' e, b = b' ++ [e] := ⟨b.dropLast, b.getLast hb, (dropLast_append_getLast hb).symm⟩
  rw [← append_assoc] at hab
  obtain ⟨hfront, he⟩ := append_inj' hab rfl
  cases he
  rw [append_assoc]
  by_cases hb' : b' = []
  · rw [hb']
    exact hdot
  · exact h a b' hfront hb'

theorem clean_nil (t : List Byte) : Clean [] t := by
  intro a b hab hb
  exact absurd (append_eq_nil_iff.mp hab.symm).2 hb

theorem Clean.noDots (h : Clean s []) : NoDots s := by
  constructor
  · rintro ⟨a, b, hab⟩
    apply h a (cstring "/../" ++ b) (by rw [← hab, append_assoc]) (by simp [cstring])
    exact .inl rfl
  · rintro ⟨a, b, hab⟩
    apply h a (cstring "/./" ++ b) (by rw [← hab, append_assoc]) (by simp [cstring])
    exact .inr rfl

theorem NoDots.part (h : NoDots s) (ht : t <:+: s) : NoDots t := ⟨fun ha => h.1 (ha.trans ht), fun ha => h.2 (ha.trans ht)⟩

def FrontFormed (front : List Byte) : Prop :=
  ∃ x a, front = x ++ 58 :: 47 :: 47 :: a ∧ 47 ∉ x ∧ 47 ∉ a

theorem not_dotted_host (ha : 47 ∉ a) (hhead : ∀ c ∈ t.head?, c ∈ cstring "/?#")
    (hhost : t.head? = some 47 → a ≠ cstring "." ∧ a ≠ cstring "..") : ¬ Dotted (47 :: a ++ t) := by
  have hdot : t.head? ≠ some 46 := fun h => absurd (hhead 46 h) (by decide)
  rintro (hup | hhere)
  · have htake : (a ++ t).take 3 = cstring "../" := tail_eq_of_cons_eq hup
    rcases a with _ | ⟨b, _ | ⟨b', _ | ⟨b'', a⟩⟩⟩
    · rw [nil_append] at htake
      exact hdot (by rw [take_eq_append htake]; rfl)
    · have ht : t.take 2 = cstring "./" := tail_eq_of_cons_eq htake
      exact hdot (by rw [take_eq_append ht]; rfl)
    · have ht : t.take 1 = cstring "/" := tail_eq_of_cons_eq (tail_eq_of_cons_eq htake)
      have hhost := (hhost (by rw [take_eq_append ht]; rfl)).2
      have hpair := congrArg (List.take 2) htake
      exact hhost hpair
    · have hslash : b'' = 47 := head_eq_of_cons_eq (tail_eq_of_cons_eq (tail_eq_of_cons_eq htake))
      exact ha (by rw [hslash]; simp)
  · have htake : (a ++ t).take 2 = cstring "./" := tail_eq_of_cons_eq hhere
    rcases a with _ | ⟨b, _ | ⟨b', a⟩⟩
    · rw [nil_append] at htake
      exact hdot (by rw [take_eq_append htake]; rfl)
    · have ht : t.take 1 = cstring "/" := tail_eq_of_cons_eq htake
      have hhost := (hhost (by rw [take_eq_append ht]; rfl)).1
      have hone := congrArg (List.take 1) htake
      exact hhost hone
    · have hslash : b' = 47 := head_eq_of_cons_eq (tail_eq_of_cons_eq htake)
      exact ha (by rw [hslash]; simp)

theorem front_clean (hfront : FrontFormed front) (h : Follows front t) : Clean front t := by
  obtain ⟨x, address, rfl, hx, haddress⟩ := hfront
  intro a b hab hb hdot
  obtain ⟨b, rfl⟩ : ∃ b', b = 47 :: b' := by
    cases b with
    | nil => exact absurd rfl hb
    | cons c b =>
      rw [Option.some.inj (dotted_head hdot)]
      exact ⟨b, rfl⟩
  have hsplit : (x ++ [58]) ++ (47 :: 47 :: address) = a ++ 47 :: b := by
    rw [← hab]
    simp
  -- the second slash of the two is the only one with a segment behind it
  rcases append_eq_append_iff.mp hsplit with ⟨c, hc, hc'⟩ | ⟨c, hc, hc'⟩
  · rcases c with _ | ⟨e, _ | ⟨e', c⟩⟩
    · rw [← tail_eq_of_cons_eq hc'] at hdot
      rcases hdot with hdot | hdot
      · simp [cstring] at hdot
      · simp [cstring] at hdot
    · rw [← tail_eq_of_cons_eq (tail_eq_of_cons_eq hc')] at hdot
      refine not_dotted_host haddress h.head ?_ hdot
      intro ht
      obtain ⟨hone, htwo⟩ := h.host ht
      constructor
      · rintro rfl
        exact hone ⟨x ++ [58, 47], by simp [cstring]⟩
      · rintro rfl
        exact htwo ⟨x ++ [58, 47], by simp [cstring]⟩
    · have haddr := tail_eq_of_cons_eq (tail_eq_of_cons_eq hc')
      exact haddress (by rw [haddr]; simp)
  · rcases c with _ | ⟨e, c⟩
    · rw [← tail_eq_of_cons_eq hc'.symm] at hdot
      rcases hdot with hdot | hdot
      · simp [cstring] at hdot
      · simp [cstring] at hdot
    · have he := head_eq_of_cons_eq hc'
      have hmem : (47 : Byte) ∈ x ++ [58] := by
        rw [hc, he]
        simp
      rcases mem_append.mp hmem with hmem | hmem
      · exact hx hmem
      · exact absurd hmem (by decide)

structure UrlCursor.Walks (front : List Byte) (p : UrlCursor) : Prop where
  inside : ∀ a ∈ p.touched, a.Inside
  room : (p.kept ++ p.seg ++ p.todo).length < 256
  clean : Clean (p.kept ++ p.seg) p.todo
  seg : 47 ∉ p.seg
  kept : p.kept = [] ∨ ∃ k, p.kept = k ++ [47]
  follows : ∃ t, p.kept ++ p.seg ++ p.todo = front ++ t ∧ Follows front t

theorem strurlWrites_inside {offset : Nat} {s : List Byte} (h : offset + s.length < 256) :
    ∀ a ∈ strurlWrites offset s, a.Inside := by
  intro a ha
  obtain ⟨k, hk, rfl⟩ := mem_map.mp ha
  have hk := mem_range.mp hk
  constructor
  · dsimp only
    omega
  · simp only [STRURL]
    omega

variable {p : UrlCursor}

theorem UrlCursor.Walks.behind (hfront : FrontFormed front) (h : p.Walks front) (hdot : Dotted p.todo) :
    ∃ done, p.kept ++ p.seg = front ++ done ∧ Follows front (done ++ p.todo) ∧ Clean done p.todo := by
  obtain ⟨t, hw, hfollows⟩ := h.follows
  have hbehind : ∃ done, p.kept ++ p.seg = front ++ done ∧ t = done ++ p.todo := by
    rcases append_eq_append_iff.mp hw with ⟨c, hc, hc'⟩ | ⟨c, hc, hc'⟩
    · by_cases hnil : c = []
      · exact ⟨[], by rw [hc, hnil]; simp, by rw [hc', hnil]; rfl⟩
      · exact absurd (by rwa [hc'] at hdot) (front_clean hfront hfollows _ _ hc hnil)
    · exact ⟨c, hc, hc'⟩
  obtain ⟨done, hdone, rfl⟩ := hbehind
  refine ⟨done, hdone, hfollows, ?_⟩
  intro a b hab hb
  apply h.clean (front ++ a) b _ hb
  rw [hdone, hab, append_assoc]

theorem head_append_slash (a x y : List Byte) : (a ++ 47 :: x).head? = (a ++ 47 :: y).head? := by
  cases a with
  | nil => rfl
  | cons c a => rfl

theorem Follows.congr {x y : List Byte} (h : Follows front x) (hhead : y.head? = x.head?) (hroot : WithinRoot 0 y) :
    Follows front y := by
  constructor
  · rw [hhead]
    exact h.head
  · exact hroot
  · rw [hhead]
    exact h.host

variable {touched : List Access}

theorem UrlCursor.Walks.restart {w : List Byte} (hinside : ∀ a ∈ touched, a.Inside)
    (hroom : w.length < 256) {t : List Byte} (hw : w = front ++ t) (ht : Follows front t) :
    UrlCursor.Walks front ⟨[], [], w, touched⟩ := by
  constructor
  · exact hinside
  · exact hroom
  · exact clean_nil w
  · exact not_mem_nil
  · exact .inl rfl
  · exact ⟨t, hw, ht⟩

variable {rest : List Byte}

theorem reduce_up (hfront : FrontFormed front) (h : p.Walks front) (htodo : p.todo = cstring "/../" ++ rest) :
    UrlCursor.Walks front ⟨[], [], p.kept ++ rest, strurlWrites p.kept.length rest ++ p.touched⟩ := by
  have hdot : Dotted p.todo := by
    rw [htodo]
    exact .inl rfl
  obtain ⟨done, hdone, hfollows, hclean⟩ := h.behind hfront hdot
  have hroom := h.room
  rw [htodo] at hroom hfollows hclean
  simp only [length_append] at hroom
  have hcut : ∃ pre, p.kept = front ++ (pre ++ [47]) ∧ done = pre ++ 47 :: p.seg := by
    rcases append_eq_append_iff.mp hdone with ⟨c, hc, hc'⟩ | ⟨c, hc, hc'⟩
    · have hseg : 47 ∉ done := fun hmem => h.seg (by rw [hc']; exact mem_append_right _ hmem)
      exact absurd hfollows.root (not_within_up hseg)
    · rcases h.kept with hnil | ⟨k, hk⟩
      · rw [hnil] at hc
        have hc := (append_eq_nil_iff.mp hc.symm).2
        rw [hc, nil_append] at hc'
        exact absurd hfollows.root (not_within_up (by rw [hc']; exact h.seg))
      · by_cases hcnil : c = []
        · rw [hcnil, nil_append] at hc'
          exact absurd hfollows.root (not_within_up (by rw [hc']; exact h.seg))
        · obtain ⟨pre, e, rfl⟩ : ∃ pre e, c = pre ++ [e] := ⟨c.dropLast, c.getLast hcnil, (dropLast_append_getLast hcnil).symm⟩
          rw [hk, ← append_assoc] at hc
          obtain rfl := singleton_inj.mp (append_inj' hc rfl).2
          refine ⟨pre, ?_, ?_⟩
          · rw [hk, hc, append_assoc]
          · rw [hc', append_assoc]
            rfl
  obtain ⟨pre, hkept, rfl⟩ := hcut
  have hw : p.kept ++ rest = front ++ (pre ++ 47 :: rest) := by
    rw [hkept]
    simp
  apply UrlCursor.Walks.restart
  · intro a ha
    rcases mem_append.mp ha with ha | ha
    · exact strurlWrites_inside (by omega) a ha
    · exact h.inside a ha
  · rw [length_append]
    omega
  · exact hw
  · apply hfollows.congr
    · rw [append_assoc]
      exact head_append_slash _ _ _
    · exact within_drop_segment h.seg hclean hfollows.root

theorem reduce_here (hfront : FrontFormed front) (h : p.Walks front) (htodo : p.todo = cstring "/./" ++ rest) :
    UrlCursor.Walks front ⟨[], [], p.kept ++ p.seg ++ 47 :: rest,
      strurlWrites ((p.kept ++ p.seg).length + 1) rest ++ p.touched⟩ := by
  have hdot : Dotted p.todo := by
    rw [htodo]
    exact .inr rfl
  obtain ⟨done, hdone, hfollows, hclean⟩ := h.behind hfront hdot
  have hroom := h.room
  rw [htodo] at hroom hfollows hclean
  have hthree : (cstring "/./" ++ rest).length = rest.length + 3 := by
    rw [length_append, Nat.add_comm]
    rfl
  rw [length_append, hthree] at hroom
  apply UrlCursor.Walks.restart
  · intro a ha
    rcases mem_append.mp ha with ha | ha
    · exact strurlWrites_inside (by omega) a ha
    · exact h.inside a ha
  · rw [length_append, length_cons]
    omega
  · rw [hdone, append_assoc]
  · apply hfollows.congr
    · exact head_append_slash done rest (46 :: 47 :: rest)
    · exact within_drop_here hclean hfollows.root

theorem reduceTurn_walks (hfront : FrontFormed front) (h : p.Walks front) : (p.todo = [] ∧ reduceTurn p = .inr p) ∨
      ∃ p', reduceTurn p = .inl p' ∧ p'.Walks front ∧
        ((p'.kept ++ p'.seg ++ p'.todo).length + 2 ≤ (p.kept ++ p.seg ++ p.todo).length ∨
          (p'.kept ++ p'.seg ++ p'.todo = p.kept ++ p.seg ++ p.todo ∧ p'.todo.length < p.todo.length)) := by
  unfold reduceTurn
  cases htodo : p.todo with
  | nil => exact .inl ⟨rfl, rfl⟩
  | cons c rest =>
    right
    by_cases hup : (c :: rest).take 4 = cstring "/../"
    · have hw := reduce_up hfront h (htodo.trans (take_eq_append hup))
      have hlen := congrArg List.length (take_eq_append hup)
      rw [length_append] at hlen
      dsimp only
      rw [if_pos hup]
      refine ⟨_, rfl, hw, .inl ?_⟩
      have hfour : (cstring "/../").length = 4 := by decide
      simp only [length_append, nil_append] at hlen ⊢
      omega
    by_cases hhere : (c :: rest).take 3 = cstring "/./"
    · have hw := reduce_here hfront h (htodo.trans (take_eq_append hhere))
      have hlen := congrArg List.length (take_eq_append hhere)
      rw [length_append] at hlen
      dsimp only
      rw [if_neg hup, if_pos hhere]
      refine ⟨_, rfl, hw, .inl ?_⟩
      have hthree : (cstring "/./").length = 3 := by decide
      simp only [length_append, nil_append, length_cons] at hlen ⊢
      omega
    have hclean := h.clean
    have hroom := h.room
    have hfollows := h.follows
    rw [htodo] at hclean hroom hfollows
    have hsnoc := hclean.snoc (not_dotted hup hhere)
    dsimp only
    rw [if_neg hup, if_neg hhere]
    by_cases hc : c = 47
    · have hsame : p.kept ++ p.seg ++ [47] ++ [] ++ rest = p.kept ++ p.seg ++ c :: rest := by
        rw [hc]
        simp
      rw [if_pos hc]
      refine ⟨_, rfl, ?_, .inr ⟨hsame, by simp⟩⟩
      constructor
      · exact h.inside
      · dsimp only
        rw [hsame]
        exact hroom
      · rw [hc] at hsnoc
        simpa using hsnoc
      · exact not_mem_nil
      · exact .inr ⟨_, rfl⟩
      · dsimp only
        rw [hsame]
        exact hfollows
    · have hsame : p.kept ++ (p.seg ++ [c]) ++ rest = p.kept ++ p.seg ++ c :: rest := by simp
      rw [if_neg hc]
      refine ⟨_, rfl, ?_, .inr ⟨hsame, by simp⟩⟩
      constructor
      · exact h.inside
      · dsimp only
        rw [hsame]
        exact hroom
      · dsimp only
        rw [← append_assoc]
        exact hsnoc
      · intro hmem
        rcases mem_append.mp hmem with hmem | hmem
        · exact h.seg hmem
        · exact hc (mem_singleton.mp hmem).symm
      · exact h.kept
      · dsimp only
        rw [hsame]
        exact hfollows

def UrlCursor.work (p : UrlCursor) : Nat :=
  (p.kept ++ p.seg ++ p.todo).length * ((p.kept ++ p.seg ++ p.todo).length + 1) + p.todo.length

theorem url_reduce_follows (hfront : FrontFormed front) (hinside : ∀ a ∈ touched, a.Inside)
    (hroom : (front ++ t).length < 256) (ht : Follows front t) :
    ∃ t' touched', url_reduce (front ++ t) touched = some (front ++ t', touched') ∧ (∀ a ∈ touched', a.Inside) ∧
      Follows front t' ∧ NoDots (front ++ t') := by
  have hrun : ∃ r, runLoop reduceTurn (((front ++ t).length + 1) * ((front ++ t).length + 1) + 1) ⟨[], [], front ++ t, touched⟩ = some r ∧
      r.Walks front ∧ r.todo = [] := by
    apply runLoop_spec (UrlCursor.Walks front) UrlCursor.work
    · intro p p' hp hturn
      rcases reduceTurn_walks hfront hp with ⟨_, hend⟩ | ⟨q, hq, hwalks, hless⟩
      · rw [hend] at hturn
        cases hturn
      · rw [hq] at hturn
        cases hturn
        refine ⟨hwalks, ?_⟩
        have htodo : p'.todo.length ≤ (p'.kept ++ p'.seg ++ p'.todo).length := by
          rw [length_append]
          omega
        unfold UrlCursor.work
        generalize (p'.kept ++ p'.seg ++ p'.todo) = w' at *
        generalize (p.kept ++ p.seg ++ p.todo) = w at *
        rcases hless with hless | ⟨rfl, hless⟩
        · nlinarith
        · omega
    · intro p r hp hturn
      rcases reduceTurn_walks hfront hp with ⟨hnil, hend⟩ | ⟨q, hq, _, _⟩
      · rw [hend] at hturn
        cases hturn
        exact ⟨hp, hnil⟩
      · rw [hq] at hturn
        cases hturn
    · exact UrlCursor.Walks.restart hinside hroom rfl ht
    · unfold UrlCursor.work
      simp only [nil_append]
      nlinarith
  obtain ⟨r, hr, hwalks, hnil⟩ := hrun
  obtain ⟨t', hw, ht'⟩ := hwalks.follows
  refine ⟨t', r.touched, ?_, hwalks.inside, ht', ?_⟩
  · rw [url_reduce, hr, ← hw]
    rfl
  · have hclean := hwalks.clean
    rw [hnil] at hclean
    rw [← hw, hnil, append_nil]
    exact hclean.noDots

end WWindowSystem
