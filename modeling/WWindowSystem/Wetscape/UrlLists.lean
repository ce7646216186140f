import Mathlib.Data.List.Nodup
import Mathlib.Logic.Function.Basic
import Mathlib.Logic.Relation

namespace WWindowSystem

open List Function

namespace UrlLists

variable {ι : Type}

structure Links (ι : Type) where
  next : ι → Option ι
  prev : ι → Option ι

def Links.zero : Links ι := ⟨fun _ => none, fun _ => none⟩

def Chain (h : Links ι) (p : Option ι) : List ι → Option ι → Prop
  | [], _ => True
  | a :: l, n => h.prev a = p ∧ h.next a = l.head?.or n ∧ Chain h (some a) l n

variable {p n : Option ι} {h : Links ι}

theorem Chain.append (s t : List ι) :
    Chain h p (s ++ t) n ↔ Chain h p s (t.head?.or n) ∧ Chain h (s.getLast?.or p) t n := by
  induction s generalizing p with
  | nil => simp [Chain]
  | cons a s ih =>
    rw [cons_append, Chain, Chain, ih, and_assoc, and_assoc]
    have hhead : (s ++ t).head?.or n = s.head?.or (t.head?.or n) := by cases s <;> simp
    have hlast : s.getLast?.or (some a) = (a :: s).getLast?.or p := by
      cases s with
      | nil => simp
      | cons b s => simp [getLast?_cons]
    rw [hhead, hlast]

variable {l : List ι}

theorem Chain.congr {h h' : Links ι} (hc : Chain h p l n)
    (hn : ∀ a ∈ l, h'.next a = h.next a) (hp : ∀ a ∈ l, h'.prev a = h.prev a) : Chain h' p l n := by
  induction l generalizing p with
  | nil => trivial
  | cons a l ih =>
    obtain ⟨h1, h2, h3⟩ := hc
    refine ⟨?_, ?_, ih h3 (fun b hb => hn b (.tail _ hb)) fun b hb => hp b (.tail _ hb)⟩
    · rw [hp a (.head _), h1]
    · rw [hn a (.head _), h2]

theorem Chain.behind {h h' : Links ι} {p q n : Option ι} {t : List ι} (hc : Chain h p t n) (hd : t.Nodup)
    (hq : ∀ b, t.head? = some b → h'.prev b = q) (hn : ∀ b ∈ t, h'.next b = h.next b)
    (hp : ∀ b ∈ t, t.head? ≠ some b → h'.prev b = h.prev b) : Chain h' q t n := by
  cases t with
  | nil => trivial
  | cons b t =>
    have hb : b ∉ t := (nodup_cons.1 hd).1
    refine ⟨hq b rfl, (hn b (.head _)).trans hc.2.1, hc.2.2.congr (fun y hy => hn y (.tail _ hy)) fun y hy => ?_⟩
    refine hp y (.tail _ hy) fun e => hb ?_
    obtain rfl : b = y := by simpa using e
    exact hy

theorem Chain.front {h h' : Links ι} {p n n' : Option ι} {s : List ι} (hc : Chain h p s n) (hd : s.Nodup)
    (hl : ∀ b, s.getLast? = some b → h'.next b = n') (hn : ∀ b ∈ s, s.getLast? ≠ some b → h'.next b = h.next b)
    (hp : ∀ b ∈ s, h'.prev b = h.prev b) : Chain h' p s n' := by
  obtain rfl | ⟨s, b, rfl⟩ := s.eq_nil_or_concat
  · trivial
  · have hb : b ∉ s := by
      simp only [concat_eq_append, nodup_append, mem_singleton] at hd
      exact fun hb => hd.2.2 b hb b rfl rfl
    simp only [concat_eq_append] at *
    obtain ⟨h1, h2, -, -⟩ := (Chain.append s [b]).1 hc
    refine (Chain.append s [b]).2 ⟨h1.congr (fun y hy => ?_) fun y hy => hp y (by simp [hy]), ?_, ?_, trivial⟩
    · refine hn y (by simp [hy]) fun e => hb ?_
      obtain rfl : b = y := by simpa using e
      exact hy
    · rw [hp b (by simp), h2]
    · rw [hl b (by simp)]
      rfl

variable {a : ι} {s t : List ι}

theorem Chain.at (hc : Chain h none (s ++ a :: t) none) :
    Chain h none s (some a) ∧ h.prev a = s.getLast? ∧ h.next a = t.head? ∧ Chain h (some a) t none := by
  obtain ⟨h1, h2, h3, h4⟩ := (Chain.append s (a :: t)).1 hc
  exact ⟨by simpa using h1, by simpa using h2, by simpa using h3, h4⟩

structure Stands (h : Links ι) (L : List (List ι)) : Prop where
  nodup : L.flatten.Nodup
  chains : ∀ l ∈ L, Chain h none l none
  free : ∀ x, x ∉ L.flatten → h.next x = none ∧ h.prev x = none

variable {L : List (List ι)}

theorem exists_split (ha : a ∈ L.flatten) : ∃ L₁ s t L₂, L = L₁ ++ (s ++ a :: t) :: L₂ := by
  obtain ⟨l, hl, hal⟩ := mem_flatten.1 ha
  obtain ⟨L₁, L₂, rfl⟩ := append_of_mem hl
  obtain ⟨s, t, rfl⟩ := append_of_mem hal
  exact ⟨L₁, s, t, L₂, rfl⟩

structure Consistent (h : Links ι) (L : List (List ι)) : Prop where
  links : ∀ x y, h.next x = some y ↔ h.prev y = some x
  acyclic : ∀ x, ¬ Relation.TransGen (fun x y => h.next x = some y) x x
  order : ∀ x y, h.next x = some y ↔ ∃ l ∈ L, ∃ s t, l = s ++ x :: y :: t

variable {x y : ι}

theorem Chain.next_iff (hc : Chain h none l none) (hx : x ∈ l) :
    h.next x = some y ↔ ∃ s t, l = s ++ x :: y :: t := by
  constructor
  · intro he
    obtain ⟨s, t, rfl⟩ := append_of_mem hx
    obtain ⟨-, -, hn, -⟩ := hc.at
    rw [he] at hn
    cases t with
    | nil => simp at hn
    | cons b t =>
      obtain rfl : y = b := by simpa using hn
      exact ⟨s, t, rfl⟩
  · rintro ⟨s, t, rfl⟩
    exact hc.at.2.2.1

theorem Chain.prev_iff (hc : Chain h none l none) (hy : y ∈ l) :
    h.prev y = some x ↔ ∃ s t, l = s ++ x :: y :: t := by
  constructor
  · intro he
    obtain ⟨s, t, rfl⟩ := append_of_mem hy
    obtain ⟨-, hp, -, -⟩ := hc.at
    rw [he] at hp
    obtain rfl | ⟨s, b, rfl⟩ := s.eq_nil_or_concat
    · simp at hp
    · obtain rfl : x = b := by simpa using hp
      exact ⟨s, t, by simp⟩
  · rintro ⟨s, t, rfl⟩
    rw [show s ++ x :: y :: t = (s ++ [x]) ++ y :: t by simp] at hc
    rw [hc.at.2.1]
    simp

theorem Stands.next_iff (hs : Stands h L) (x y : ι) :
    h.next x = some y ↔ ∃ l ∈ L, ∃ s t, l = s ++ x :: y :: t := by
  constructor
  · intro he
    by_cases hx : x ∈ L.flatten
    · obtain ⟨l, hl, hxl⟩ := mem_flatten.1 hx
      exact ⟨l, hl, ((hs.chains l hl).next_iff hxl).1 he⟩
    · rw [(hs.free x hx).1] at he
      cases he
  · rintro ⟨l, hl, s, t, rfl⟩
    exact ((hs.chains _ hl).at).2.2.1

theorem Stands.prev_iff (hs : Stands h L) (x y : ι) :
    h.prev y = some x ↔ ∃ l ∈ L, ∃ s t, l = s ++ x :: y :: t := by
  constructor
  · intro he
    by_cases hy : y ∈ L.flatten
    · obtain ⟨l, hl, hyl⟩ := mem_flatten.1 hy
      exact ⟨l, hl, ((hs.chains l hl).prev_iff hyl).1 he⟩
    · rw [(hs.free y hy).2] at he
      cases he
  · rintro ⟨l, hl, s, t, rfl⟩
    have hc := hs.chains _ hl
    rw [show s ++ x :: y :: t = (s ++ [x]) ++ y :: t by simp] at hc
    rw [hc.at.2.1]
    simp

theorem Stands.forward [DecidableEq ι] (hs : Stands h L) (hl : l ∈ L)
    (hx : x ∈ l) (ht : Relation.TransGen (fun x y => h.next x = some y) x y) : y ∈ l ∧ l.idxOf x < l.idxOf y := by
  have hd : l.Nodup := (nodup_flatten.1 hs.nodup).1 l hl
  have step : ∀ a b, a ∈ l → h.next a = some b → b ∈ l ∧ l.idxOf a < l.idxOf b := by
    intro a b ha he
    obtain ⟨s, t, rfl⟩ := ((hs.chains l hl).next_iff ha).1 he
    have hab : a ∉ s ∧ b ∉ s ∧ a ≠ b := by
      simp only [nodup_append, nodup_cons, mem_cons] at hd
      grind
    refine ⟨by simp, ?_⟩
    rw [idxOf_append_of_notMem hab.1, idxOf_append_of_notMem hab.2.1, idxOf_cons_self,
      idxOf_cons_ne _ hab.2.2, idxOf_cons_self]
    omega
  induction ht with
  | single he => exact step _ _ hx he
  | tail _ he ih =>
    obtain ⟨hm, hlt⟩ := ih
    obtain ⟨hm', hlt'⟩ := step _ _ hm he
    exact ⟨hm', by omega⟩

theorem Stands.consistent (hs : Stands h L) : Consistent h L where
  links x y := by rw [hs.next_iff, hs.prev_iff]
  acyclic x ht := by
    classical
    have hx : x ∈ L.flatten := by
      by_contra hx
      obtain ⟨b, hb, -⟩ := Relation.TransGen.head'_iff.1 ht
      rw [(hs.free x hx).1] at hb
      cases hb
    obtain ⟨l, hl, hxl⟩ := mem_flatten.1 hx
    exact Nat.lt_irrefl _ (hs.forward hl hxl ht).2
  order := hs.next_iff

variable [DecidableEq ι]

def url_insert_after (url : Option ι) (new : ι) (h : Links ι) : Links ι :=
  let h : Links ι := ⟨Function.update h.next new none, Function.update h.prev new url⟩
  match url with
  | none => h
  | some url =>
    let h := { h with next := Function.update h.next new (h.next url) }
    let h := { h with next := Function.update h.next url (some new) }
    match h.next new with
    | none => h
    | some b => { h with prev := Function.update h.prev b (some new) }

def url_insert_before (url : Option ι) (new : ι) (h : Links ι) : Links ι :=
  let h : Links ι := ⟨Function.update h.next new url, Function.update h.prev new none⟩
  match url with
  | none => h
  | some url =>
    let h := { h with prev := Function.update h.prev new (h.prev url) }
    let h := { h with prev := Function.update h.prev url (some new) }
    match h.prev new with
    | none => h
    -- the element in front keeps the link to `url`, it does not get one to `new`
    | some p => { h with next := Function.update h.next p (some url) }

def url_remove (url : ι) (h : Links ι) : Links ι :=
  let h := match h.prev url with
    | none => h
    | some p => { h with next := Function.update h.next p (h.next url) }
  let h := match h.next url with
    | none => h
    | some b => { h with prev := Function.update h.prev b (h.prev url) }
  ⟨Function.update h.next url none, Function.update h.prev url none⟩

inductive Call (ι : Type) where
  | insert_after (url : Option ι) (new : ι)
  | insert_before (url : Option ι) (new : ι)
  | remove (url : ι)
  deriving DecidableEq

def Call.apply : Call ι → Links ι → Links ι
  | .insert_after url new => url_insert_after url new
  | .insert_before url new => url_insert_before url new
  | .remove url => url_remove url

def replaced (a : ι) (w : List ι) (L : List (List ι)) : List (List ι) :=
  L.map fun l => l.flatMap fun b => if b = a then w else [b]

def Call.effect : Call ι → List (List ι) → List (List ι)
  | .insert_after none new, L => [new] :: L
  | .insert_before none new, L => [new] :: L
  | .insert_after (some url) new, L => replaced url [url, new] L
  | .insert_before (some url) new, L => replaced url [new, url] L
  | .remove url, L => replaced url [] L

def Call.Allowed : Call ι → List (List ι) → Prop
  | .insert_after url new, L => new ∉ L.flatten ∧ ∀ a ∈ url, a ∈ L.flatten
  | .insert_before url new, L => new ∉ L.flatten ∧ ∀ a ∈ url, a ∈ L.flatten
  | .remove _, _ => True

instance (c : Call ι) (L : List (List ι)) : Decidable (c.Allowed L) :=
  match c with
  | .insert_after _ _ => inferInstanceAs (Decidable (_ ∧ _))
  | .insert_before _ _ => inferInstanceAs (Decidable (_ ∧ _))
  | .remove _ => inferInstanceAs (Decidable True)

def Call.Meets : Call ι → Links ι → Prop
  | .insert_before (some url) _, h => h.prev url = none
  | _, _ => True

/-- The links after a run of calls and the lists that they are to stand for; `P` is about the calls. -/
inductive Reached (P : Call ι → Links ι → Prop) : Links ι → List (List ι) → Prop
  | start : Reached P .zero []
  | step {h : Links ι} {L : List (List ι)} {c : Call ι} (hr : Reached P h L) (ha : c.Allowed L) (hp : P c h) :
    Reached P (c.apply h) (c.effect L)

variable (w : List ι)

theorem flatMap_free (hl : a ∉ l) : (l.flatMap fun b => if b = a then w else [b]) = l := by
  induction l with
  | nil => rfl
  | cons b l ih =>
    obtain ⟨hb, hl⟩ : a ≠ b ∧ a ∉ l := by simpa using hl
    rw [flatMap_cons, if_neg (Ne.symm hb), ih hl]
    rfl

theorem replaced_free (ha : a ∉ L.flatten) : replaced a w L = L := by
  refine (map_congr_left fun l hl => ?_).trans (map_id L)
  have hal : a ∉ l := fun hal => ha (mem_flatten.2 ⟨l, hl, hal⟩)
  exact flatMap_free w hal

variable {L₁ L₂ : List (List ι)}

theorem replaced_split
    (hd : (L₁ ++ (s ++ a :: t) :: L₂).flatten.Nodup) :
    replaced a w (L₁ ++ (s ++ a :: t) :: L₂) = L₁ ++ (s ++ w ++ t) :: L₂ := by
  have hout : a ∉ L₁.flatten ∧ a ∉ s ∧ a ∉ t ∧ a ∉ L₂.flatten := by
    simp only [flatten_append, flatten_cons, nodup_append, nodup_cons, mem_append,
      mem_cons] at hd
    grind
  obtain ⟨h1, h2, h3, h4⟩ := hout
  have hmid : ((s ++ a :: t).flatMap fun b => if b = a then w else [b]) = s ++ w ++ t := by
    rw [flatMap_append, flatMap_cons, flatMap_free w h2, flatMap_free w h3, if_pos rfl, append_assoc]
  have h1' := replaced_free w h1
  have h4' := replaced_free w h4
  rw [replaced] at h1' h4' ⊢
  rw [map_append, map_cons, h1', h4', hmid]

theorem insert_after_next (a x y : ι) (h : Links ι) :
    (url_insert_after (some a) x h).next y = if y = a then some x else if y = x then h.next a else h.next y := by
  rw [url_insert_after]
  split <;> grind [update_apply]

theorem insert_after_prev {a x : ι} (hx : x ≠ a) (hn : h.next a ≠ some x) (y : ι) :
    (url_insert_after (some a) x h).prev y =
      if y = x then some a else if h.next a = some y then some x else h.prev y := by
  rw [url_insert_after]
  have hx' : ¬ a = x := fun e => hx e.symm
  split <;> rename_i hm <;> simp only [update_apply, if_neg hx, if_neg hx', if_pos] at hm
  · simp only [update_apply, hm, reduceCtorEq, if_false]
  · rename_i b
    have hbx : x ≠ b := fun e => hn (by rw [hm, e])
    simp only [update_apply, hm, Option.some.injEq]
    grind

theorem insert_before_next {a x : ι} (hx : x ≠ a) (hp : h.prev a = none) (y : ι) :
    (url_insert_before (some a) x h).next y = if y = x then some a else h.next y := by
  rw [url_insert_before]
  split <;> rename_i hm <;> simp only [update_apply, hp] at hm
  · grind [update_apply]
  · split_ifs at hm with hxa
    exact absurd hxa hx

theorem insert_before_prev (a x y : ι) (h : Links ι) :
    (url_insert_before (some a) x h).prev y = if y = a then some x else if y = x then h.prev a else h.prev y := by
  rw [url_insert_before]
  split <;> grind [update_apply]

theorem remove_links (x : ι) (h : Links ι) :
    (∀ y, (url_remove x h).next y = if y = x then none else if h.prev x = some y then h.next x else h.next y) ∧
    ∀ y, (url_remove x h).prev y = if y = x then none else if h.next x = some y then h.prev x else h.prev y := by
  rw [url_remove]
  cases hp : h.prev x with
  | none =>
    cases hn : h.next x with
    | none => simp [update_apply]
    | some b =>
      simp only [update_apply, Option.some.injEq, reduceCtorEq, if_false]
      grind
  | some p =>
    have hx : Function.update h.next p (h.next x) x = h.next x := by
      rw [update_apply]
      split_ifs with e <;> rfl
    simp only [hx]
    cases hn : h.next x with
    | none =>
      simp only [update_apply, Option.some.injEq, reduceCtorEq, if_false]
      grind
    | some b =>
      simp only [update_apply, Option.some.injEq]
      grind

theorem Stands.replace {h h' : Links ι} {s t w : List ι}
    (hs : Stands h (L₁ ++ (s ++ a :: t) :: L₂)) (hd : (L₁ ++ (s ++ w ++ t) :: L₂).flatten.Nodup)
    (hc : Chain h' none (s ++ w ++ t) none) (hf : a ∉ w → h'.next a = none ∧ h'.prev a = none)
    (he : ∀ y, y ∉ s ++ w ++ t → y ≠ a → h'.next y = h.next y ∧ h'.prev y = h.prev y) :
    Stands h' (L₁ ++ (s ++ w ++ t) :: L₂) := by
  have hd' := hs.nodup
  have off : ∀ l ∈ L₁ ++ L₂, ∀ y ∈ l, y ∉ s ++ w ++ t ∧ y ≠ a := by
    intro l hl y hy
    have hyL : y ∈ L₁.flatten ∨ y ∈ L₂.flatten := by
      rw [← mem_append, ← flatten_append]
      exact mem_flatten.2 ⟨l, hl, hy⟩
    simp only [flatten_append, flatten_cons, nodup_append, mem_append, mem_cons] at hd hd' ⊢
    grind
  have kept : ∀ l ∈ L₁ ++ L₂, Chain h none l none → Chain h' none l none := fun l hl hch =>
    hch.congr (fun y hy => (he y (off l hl y hy).1 (off l hl y hy).2).1)
      fun y hy => (he y (off l hl y hy).1 (off l hl y hy).2).2
  refine ⟨hd, fun l hl => ?_, fun y hy => ?_⟩
  · simp only [mem_append, mem_cons] at hl
    obtain hl | rfl | hl := hl
    · exact kept l (by simp [hl]) (hs.chains l (by simp [hl]))
    · exact hc
    · exact kept l (by simp [hl]) (hs.chains l (by simp [hl]))
  · simp only [flatten_append, flatten_cons, mem_append, not_or] at hy
    by_cases hya : y = a
    · exact hya ▸ hf (hya ▸ hy.2.1.1.2)
    · obtain ⟨h1, h2⟩ := he y (by simp [hy]) hya
      rw [h1, h2]
      exact hs.free y (by simp [hy, hya])

theorem Stands.single {h h' : Links ι} (hs : Stands h L) {x : ι} (hx : x ∉ L.flatten)
    (hn : ∀ y, h'.next y = if y = x then none else h.next y) (hp : ∀ y, h'.prev y = if y = x then none else h.prev y) :
    Stands h' ([x] :: L) := by
  have off : ∀ l ∈ L, ∀ y ∈ l, y ≠ x := fun l hl y hy e => hx (e ▸ mem_flatten.2 ⟨l, hl, hy⟩)
  refine ⟨nodup_cons.2 ⟨hx, hs.nodup⟩, fun l hl => ?_, fun y hy => ?_⟩
  · obtain rfl | hl := mem_cons.1 hl
    · exact ⟨by rw [hp, if_pos rfl], by rw [hn, if_pos rfl]; rfl, trivial⟩
    · exact (hs.chains l hl).congr (fun y hy => by rw [hn, if_neg (off l hl y hy)])
        fun y hy => by rw [hp, if_neg (off l hl y hy)]
  · simp only [flatten_cons, mem_append, mem_singleton, not_or] at hy
    rw [hn, hp, if_neg hy.1, if_neg hy.1]
    exact hs.free y hy.2

theorem Stands.insert_after (hs : Stands h L) {a x : ι} (hx : x ∉ L.flatten)
    (ha : a ∈ L.flatten) : Stands (url_insert_after (some a) x h) (replaced a [a, x] L) := by
  obtain ⟨L₁, s, t, L₂, rfl⟩ := exists_split ha
  have hd := hs.nodup
  rw [replaced_split _ hd]
  obtain ⟨hc1, hc2, hc3, hc4⟩ := (hs.chains (s ++ a :: t) (by simp)).at
  simp only [flatten_append, flatten_cons, nodup_append, nodup_cons, mem_append,
    mem_cons, not_or] at hd hx
  have hxa : x ≠ a := hx.2.1.2.1
  have hmem : ∀ y, h.next a = some y → y ∈ t := fun y hy => mem_of_head? (hc3 ▸ hy)
  have hnx : h.next a ≠ some x := fun e => hx.2.1.2.2 (hmem x e)
  have hsa : a ∉ s ∧ a ∉ t := by grind
  have hst : ∀ y ∈ s, y ∉ t := by grind
  have next := insert_after_next a x (h := h)
  have prev := insert_after_prev hxa hnx
  refine hs.replace ?_ ?_ (by simp) fun y hy hya => ?_
  · simp only [flatten_append, flatten_cons, nodup_append, nodup_cons, mem_append,
      mem_cons]
    grind
  · rw [append_assoc]
    refine (Chain.append s (a :: x :: t)).2 ⟨hc1.congr (fun y hy => ?_) fun y hy => ?_, ?_, ?_, ?_, ?_, ?_⟩
    · rw [next, if_neg (by grind), if_neg (by grind)]
    · rw [prev, if_neg (by grind), if_neg fun e => hst y hy (hmem y e)]
    · rw [prev, if_neg (by grind), if_neg fun e => hsa.2 (hmem a e), hc2]
      simp
    · rw [next, if_pos rfl]
      rfl
    · rw [prev, if_pos rfl]
    · rw [next, if_neg hxa, if_pos rfl, hc3]
      simp
    · refine hc4.behind (by grind) (fun b hb => ?_) (fun b hb => ?_) fun b hb hne => ?_
      · rw [prev, if_neg (by grind), if_pos (hc3.trans hb)]
      · rw [next, if_neg (by grind), if_neg (by grind)]
      · rw [prev, if_neg (by grind), if_neg (by rwa [hc3])]
  · simp only [mem_append, mem_cons, not_mem_nil, or_false, not_or] at hy
    rw [next, prev, if_neg hya, if_neg hy.1.2.2, if_neg hy.1.2.2, if_neg fun e => hy.2 (hmem y e)]
    exact ⟨rfl, rfl⟩

theorem Stands.insert_before (hs : Stands h L) {a x : ι} (hx : x ∉ L.flatten)
    (ha : a ∈ L.flatten) (hfirst : h.prev a = none) :
    Stands (url_insert_before (some a) x h) (replaced a [x, a] L) := by
  obtain ⟨L₁, s, t, L₂, rfl⟩ := exists_split ha
  have hd := hs.nodup
  rw [replaced_split _ hd]
  obtain ⟨-, hc2, hc3, hc4⟩ := (hs.chains (s ++ a :: t) (by simp)).at
  obtain rfl : s = [] := getLast?_eq_none_iff.1 (hc2.symm.trans hfirst)
  simp only [flatten_append, flatten_cons, nodup_append, nodup_cons, mem_append,
    mem_cons, not_or, nil_append] at hd hx
  have hxa : x ≠ a := hx.2.1.1
  have next := insert_before_next hxa hfirst
  have prev := insert_before_prev a x (h := h)
  refine hs.replace ?_ ?_ (by simp) fun y hy hya => ?_
  · simp only [flatten_append, flatten_cons, nodup_append, nodup_cons, mem_append,
      mem_cons, nil_append, cons_append]
    grind
  · refine ⟨?_, ?_, ?_, ?_, hc4.congr (fun y hy => ?_) fun y hy => ?_⟩
    · rw [prev, if_neg hxa, if_pos rfl, hfirst]
    · rw [next, if_pos rfl]
      rfl
    · rw [prev, if_pos rfl]
    · rw [next, if_neg (Ne.symm hxa), hc3]
      simp
    · rw [next, if_neg (by grind)]
    · rw [prev, if_neg (by grind), if_neg (by grind)]
  · simp only [nil_append, cons_append, mem_cons, not_or] at hy
    rw [next, prev, if_neg hya, if_neg hy.1, if_neg hy.1]
    exact ⟨rfl, rfl⟩

theorem Stands.remove (hs : Stands h L) {x : ι} (hx : x ∈ L.flatten) :
    Stands (url_remove x h) (replaced x [] L) := by
  obtain ⟨L₁, s, t, L₂, rfl⟩ := exists_split hx
  have hd := hs.nodup
  rw [replaced_split _ hd]
  obtain ⟨hc1, hc2, hc3, hc4⟩ := (hs.chains (s ++ x :: t) (by simp)).at
  simp only [flatten_append, flatten_cons, nodup_append, nodup_cons, mem_append,
    mem_cons] at hd
  have hnext : ∀ y, h.next x = some y → y ∈ t := fun y hy => mem_of_head? (hc3 ▸ hy)
  have hprev : ∀ y, h.prev x = some y → y ∈ s := fun y hy => mem_of_getLast? (hc2 ▸ hy)
  have hsx : x ∉ s ∧ x ∉ t := by grind
  have hst : ∀ y ∈ s, y ∉ t := by grind
  obtain ⟨next, prev⟩ := remove_links x h
  refine hs.replace ?_ ?_ (fun _ => ⟨by rw [next, if_pos rfl], by rw [prev, if_pos rfl]⟩) fun y hy hyx => ?_
  · simp only [flatten_append, flatten_cons, nodup_append, mem_append, append_nil]
    grind
  · rw [append_nil]
    refine (Chain.append s t).2 ⟨hc1.front (by grind) (fun b hb => ?_) (fun b hb hne => ?_) fun b hb => ?_,
      hc4.behind (by grind) (fun b hb => ?_) (fun b hb => ?_) fun b hb hne => ?_⟩
    · rw [next, if_neg (by grind), if_pos (hc2.trans hb), hc3]
      simp
    · rw [next, if_neg (by grind), if_neg (by rwa [hc2])]
    · rw [prev, if_neg (by grind), if_neg fun e => hst b hb (hnext b e)]
    · rw [prev, if_neg (by grind), if_pos (hc3.trans hb), hc2]
      simp
    · rw [next, if_neg (by grind), if_neg fun e => hst b (hprev b e) hb]
    · rw [prev, if_neg (by grind), if_neg (by rwa [hc3])]
  · simp only [append_nil, mem_append, not_or] at hy
    rw [next, prev, if_neg hyx, if_neg hyx, if_neg fun e => hy.1 (hprev y e), if_neg fun e => hy.2 (hnext y e)]
    exact ⟨rfl, rfl⟩

theorem Stands.step (hs : Stands h L) {c : Call ι} (ha : c.Allowed L)
    (hm : c.Meets h) : Stands (c.apply h) (c.effect L) := by
  cases c with
  | insert_after url new =>
    cases url with
    | none =>
      refine hs.single ha.1 (fun y => ?_) fun y => ?_
      · simp [Call.apply, url_insert_after, update_apply]
      · simp [Call.apply, url_insert_after, update_apply]
    | some a => exact hs.insert_after ha.1 (ha.2 a rfl)
  | insert_before url new =>
    cases url with
    | none =>
      refine hs.single ha.1 (fun y => ?_) fun y => ?_
      · simp [Call.apply, url_insert_before, update_apply]
      · simp [Call.apply, url_insert_before, update_apply]
    | some a => exact hs.insert_before ha.1 (ha.2 a rfl) hm
  | remove x =>
    by_cases hx : x ∈ L.flatten
    · exact hs.remove hx
    -- a URL that is in no list has no links, so there is nothing to change
    · obtain ⟨hn, hp⟩ := hs.free x hx
      have same : url_remove x h = h := by
        have h1 : Function.update h.next x none = h.next := by rw [← hn, update_eq_self]
        have h2 : Function.update h.prev x none = h.prev := by rw [← hp, update_eq_self]
        rw [url_remove, hp]
        simp only [hn, h1, h2]
      rw [Call.apply, Call.effect, same, replaced_free [] hx]
      exact hs

theorem Reached.stands (hr : Reached Call.Meets h L) : Stands h L := by
  induction hr with
  | start => exact ⟨nodup_nil, by simp, fun _ _ => ⟨rfl, rfl⟩⟩
  | step _ ha hp ih => exact ih.step ha hp

theorem inconsistent {c : Call ι} (ha : c.Allowed L)
    (hm : ¬ c.Meets h) : ¬ Consistent (c.apply h) (c.effect L) := by
  obtain ⟨a, x, p, rfl, hp⟩ : ∃ a x p, c = .insert_before (some a) x ∧ h.prev a = some p := by
    cases c with
    | insert_after url new => exact absurd trivial hm
    | remove x => exact absurd trivial hm
    | insert_before url new =>
      cases url with
      | none => exact absurd trivial hm
      | some a =>
        obtain ⟨p, hp⟩ := Option.ne_none_iff_exists'.1 hm
        exact ⟨a, new, p, rfl, hp⟩
  have hxa : x ≠ a := fun e => ha.1 (e ▸ ha.2 a rfl)
  intro hc
  have hprev : (url_insert_before (some a) x h).prev x = some p := by
    rw [insert_before_prev, if_neg hxa, if_pos rfl, hp]
  have hnext : (url_insert_before (some a) x h).next p = some a := by
    simp [url_insert_before, hxa, Ne.symm hxa, hp]
  have hx := (hc.links p x).2 hprev
  rw [Call.apply, hnext, Option.some.injEq] at hx
  exact hxa hx.symm

/-- As long as nothing is inserted before an element that is not the first of its list the links stand for the
lists, and the first such call breaks them. -/
theorem url_links {h : Links ι} {L : List (List ι)} (hr : Reached Call.Meets h L) :
    Consistent h L ∧ ∀ c : Call ι, c.Allowed L → (Consistent (c.apply h) (c.effect L) ↔ c.Meets h) := by
  refine ⟨hr.stands.consistent, fun c ha => ⟨fun hc => ?_, fun hm => (hr.stands.step ha hm).consistent⟩⟩
  by_contra hm
  exact inconsistent ha hm hc

theorem url_links_one : ∃ h L, Reached Call.Meets h L ∧ L = [[1, 2]] ∧ Consistent h L := by
  have h1 : Reached Call.Meets _ _ := .step (c := .insert_after none 1) .start (by decide) trivial
  have h2 : Reached Call.Meets _ _ := .step (c := .insert_after (some 1) 2) h1 (by decide) trivial
  exact ⟨_, _, h2, by decide, (url_links h2).1⟩

theorem url_links_broken : ∃ h L, Reached (fun _ _ => True) h L ∧ L = [[1, 3, 2]] ∧ h.prev 3 = some 1 ∧
    h.next 1 = some 2 ∧ ¬ Consistent h L := by
  have h1 : Reached (fun _ _ => True) _ _ := .step (c := .insert_after none 1) .start (by decide) trivial
  have h2 : Reached (fun _ _ => True) _ _ := .step (c := .insert_after (some 1) 2) h1 (by decide) trivial
  have h3 : Reached (fun _ _ => True) _ _ := .step (c := .insert_before (some 2) 3) h2 (by decide) trivial
  refine ⟨_, _, h3, by decide, by decide, by decide, fun hc => ?_⟩
  have h13 := (hc.links 1 3).2 (by decide)
  revert h13
  decide

end UrlLists

end WWindowSystem
