import Mathlib.Data.List.Basic
import Mathlib.Data.List.Range

namespace WWindowSystem

open List

variable {α : Type}

def gridRow (f : Int → Int → α) (wd : Nat) (k : Int) : List α := (List.range wd).map fun x : Nat => f k x

def gridRows (f : Int → Int → α) (wd : Nat) (lo : Int) (n : Nat) : List (List α) :=
  (List.range n).map fun i : Nat => gridRow f wd (lo + i)

variable {f g : Int → Int → α} {wd n m : Nat} {lo : Int}

@[simp] theorem length_gridRow (f : Int → Int → α) (wd : Nat) (k : Int) : (gridRow f wd k).length = wd := by
  simp [gridRow]

@[simp] theorem length_gridRows (f : Int → Int → α) (wd : Nat) (lo : Int) (n : Nat) :
    (gridRows f wd lo n).length = n := by
  simp [gridRows]

theorem gridRow_congr {k k' : Int} (h : ∀ x : Int, 0 ≤ x → x < wd → f k x = g k' x) :
    gridRow f wd k = gridRow g wd k' := by
  apply map_congr_left
  intro x hx
  rw [mem_range] at hx
  exact h x (by omega) (by omega)

theorem gridRows_congr {lo' : Int} (h : ∀ (i : Nat) (x : Int), i < n → 0 ≤ x → x < wd → f (lo + i) x = g (lo' + i) x) :
    gridRows f wd lo n = gridRows g wd lo' n := by
  apply map_congr_left
  intro i hi
  exact gridRow_congr fun x => h i x (mem_range.mp hi)

theorem gridRows_add (f : Int → Int → α) (wd : Nat) (lo : Int) (m n : Nat) :
    gridRows f wd lo (m + n) = gridRows f wd lo m ++ gridRows f wd (lo + m) n := by
  unfold gridRows
  rw [range_add, map_append, map_map]
  congr 1
  apply map_congr_left
  intro i _
  simp only [Function.comp, Int.natCast_add, Int.add_assoc]

theorem gridRows_one (f : Int → Int → α) (wd : Nat) (lo : Int) : gridRows f wd lo 1 = [gridRow f wd lo] := by
  simp [gridRows]

theorem gridRows_succ (f : Int → Int → α) (wd : Nat) (lo : Int) (n : Nat) :
    gridRows f wd lo (n + 1) = gridRows f wd lo n ++ [gridRow f wd (lo + n)] := by
  rw [gridRows_add, gridRows_one]

theorem gridRows_cons (f : Int → Int → α) (wd : Nat) (lo : Int) (n : Nat) :
    gridRows f wd lo (n + 1) = gridRow f wd lo :: gridRows f wd (lo + 1) n := by
  rw [Nat.add_comm, gridRows_add, gridRows_one]
  rfl

theorem gridRows_take (f : Int → Int → α) (wd : Nat) (lo : Int) (m n : Nat) :
    (gridRows f wd lo (m + n)).take m = gridRows f wd lo m := by
  rw [gridRows_add, take_left' (length_gridRows ..)]

theorem gridRows_drop (f : Int → Int → α) (wd : Nat) (lo : Int) (m n : Nat) :
    (gridRows f wd lo (m + n)).drop m = gridRows f wd (lo + m) n := by
  rw [gridRows_add, drop_left' (length_gridRows ..)]

theorem gridRows_window (f : Int → Int → α) (wd : Nat) (lo : Int) (m n k : Nat) :
    ((gridRows f wd lo (m + (n + k))).drop m).take n = gridRows f wd (lo + m) n := by
  rw [gridRows_drop, gridRows_take]

theorem gridRows_map_take (f : Int → Int → α) (lo : Int) (n : Nat) {w : Nat} (h : w ≤ wd) :
    (gridRows f wd lo n).map (List.take w) = gridRows f w lo n := by
  unfold gridRows
  rw [map_map]
  apply map_congr_left
  intro i _
  simp only [Function.comp, gridRow]
  rw [← map_take, take_range, Nat.min_eq_left h]

theorem gridRows_insert (f : Int → Int → α) (wd : Nat) (lo : Int) (m n : Nat) (b : List α) :
    ((gridRows f wd lo (m + (n + 1))).take m ++ b :: (gridRows f wd lo (m + (n + 1))).drop m).dropLast =
      gridRows f wd lo m ++ b :: gridRows f wd (lo + m) n := by
  rw [gridRows_take, gridRows_drop, gridRows_succ, ← cons_append, ← append_assoc,
    dropLast_concat]

theorem gridRows_erase (f : Int → Int → α) (wd : Nat) (lo : Int) (m n : Nat) :
    (gridRows f wd lo (m + (n + 1))).eraseIdx m = gridRows f wd lo m ++ gridRows f wd (lo + m + 1) n := by
  rw [gridRows_add, eraseIdx_append_of_length_le (by rw [length_gridRows]), length_gridRows,
    Nat.sub_self, gridRows_cons, eraseIdx_zero, tail_cons]

theorem gridRows_mapIdx (f : Int → Int → α) (h : Int → Int → α → α) (wd n : Nat) (lo : Int) :
    ((gridRows f wd lo n).mapIdx fun i row => row.mapIdx fun x c => h (lo + i) x c) =
      gridRows (fun k x => h k x (f k x)) wd lo n := by
  apply ext_getElem
  · simp
  · intro i h1 h2
    simp only [gridRows, gridRow, getElem_mapIdx, getElem_map, getElem_range]
    apply ext_getElem
    · simp
    · intro x h3 h4
      simp

theorem gridRows_modify (f : Int → Int → α) (wd n : Nat) (y x : Nat) (c : α) :
    (gridRows f wd 0 n).modify y (fun row => row.set x c) =
      gridRows (fun k z => if k = y ∧ z = x then c else f k z) wd 0 n := by
  apply ext_getElem
  · simp
  · intro i h1 h2
    rw [getElem_modify]
    simp only [gridRows, gridRow, getElem_map, getElem_range, Int.zero_add]
    split_ifs with hi
    · subst hi
      apply ext_getElem
      · simp
      · intro z h3 h4
        rw [getElem_set]
        simp only [getElem_map, getElem_range, true_and, Int.natCast_inj]
        by_cases hz : x = z
        · rw [if_pos hz, if_pos hz.symm]
        · rw [if_neg hz, if_neg (fun he => hz he.symm)]
    · apply map_congr_left
      intro z _
      rw [if_neg (by omega)]

end WWindowSystem
