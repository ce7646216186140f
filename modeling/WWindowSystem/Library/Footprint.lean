import Mathlib.Data.Set.Defs
import WWindowSystem.Library.Forest

namespace WWindowSystem

variable {α σ P V : Type}

def scanList (f : σ → α → σ × α) (s : σ) : List α → σ × List α
  | [] => (s, [])
  | a :: l =>
    let r := f s a
    let n := scanList f r.1 l
    (n.1, r.2 :: n.2)

theorem scanList_append (f : σ → α → σ × α) (s : σ) (l m : List α) :
    scanList f s (l ++ m) = ((scanList f (scanList f s l).1 m).1,
      (scanList f s l).2 ++ (scanList f (scanList f s l).1 m).2) := by
  induction l generalizing s with
  | nil => rfl
  | cons a l ih => simp only [List.cons_append, scanList, ih]

theorem Forest.scan_toList (f : σ → α → σ × α) (s : σ) (t : Forest α) : (t.scan f s).1 = (scanList f s t.toList).1 ∧
      (t.scan f s).2.toList = (scanList f s t.toList).2 := by
  induction t generalizing s with
  | nil => exact ⟨rfl, rfl⟩
  | node w cs ns ihc ihn =>
    obtain ⟨hc1, hc2⟩ := ihc (f s w).1
    obtain ⟨hn1, hn2⟩ := ihn (cs.scan f (f s w).1).1
    rw [hc1] at hn1 hn2
    simp only [scan, toList, scanList, scanList_append, hc1, hn1, hc2, hn2, and_self]

/-- A visitor that writes, for each element, to the footprint of this element only, and turns `pre`
into `post`; both are about the footprint only. -/
structure Local (f : (P → V) → α → (P → V) × α) (fp : α → Set P) (pre post : (P → V) → α → Prop) :
    Prop where
  frame : ∀ s a q, q ∉ fp a → (f s a).1 q = s q
  same : ∀ s a, fp (f s a).2 = fp a
  visit : ∀ s a, pre s a → post (f s a).1 (f s a).2
  pre_congr : ∀ s s' a, (∀ q ∈ fp a, s' q = s q) → pre s a → pre s' a
  post_congr : ∀ s s' a, (∀ q ∈ fp a, s' q = s q) → post s a → post s' a

def Separate (fp : α → Set P) (l : List α) : Prop := l.Pairwise fun a b => ∀ q, q ∈ fp a → q ∉ fp b

variable {fp : α → Set P}

theorem Separate.perm {l m : List α} (h : Separate fp l) (hp : l.Perm m) : Separate fp m :=
  (hp.pairwise_iff fun hd q hb ha => hd q ha hb).mp h

variable {f : (P → V) → α → (P → V) × α}

theorem scanList_frame
    (hf : ∀ s a q, q ∉ fp a → (f s a).1 q = s q) (l : List α) (s : P → V) (q : P)
    (h : ∀ a ∈ l, q ∉ fp a) : (scanList f s l).1 q = s q := by
  induction l generalizing s with
  | nil => rfl
  | cons a l ih =>
    obtain ⟨ha, hl⟩ := List.forall_mem_cons.mp h
    rw [scanList, ih _ hl, hf s a q ha]

theorem Local.scanList
    {pre post : (P → V) → α → Prop} (hf : Local f fp pre post) (l : List α) (s : P → V)
    (hd : Separate fp l) (h : ∀ a ∈ l, pre s a) : ∀ a ∈ (scanList f s l).2, post (scanList f s l).1 a := by
  induction l generalizing s with
  | nil => exact fun a ha => absurd ha List.not_mem_nil
  | cons a l ih =>
    obtain ⟨hda, hdl⟩ := List.pairwise_cons.mp hd
    obtain ⟨ha, hl⟩ := List.forall_mem_cons.mp h
    -- the first visit leaves the footprints of the others alone, the later ones that of the first
    have hl' : ∀ b ∈ l, pre (f s a).1 b := by
      intro b hb
      refine hf.pre_congr s _ b (fun q hq => ?_) (hl b hb)
      exact hf.frame s a q fun hqa => hda b hb q hqa hq
    refine List.forall_mem_cons.mpr ⟨?_, ih (f s a).1 hdl hl'⟩
    refine hf.post_congr (f s a).1 _ _ (fun q hq => ?_) (hf.visit s a ha)
    rw [hf.same] at hq
    exact scanList_frame hf.frame l _ q fun b hb => hda b hb q hq

end WWindowSystem
