import Mathlib.Tactic.Ring
import WWindowSystem.Server.Tidy

namespace WWindowSystem

open Forest List

structure Census where
  opened : Nat → Int
  total : Nat → Int
  globOpen : Int
  globTotal : Int
  mouse : Int

def Mark.of (c : Nat) (m : Mark) : Bool := m.cptr = some c

def Mark.nomouse (m : Mark) : Bool := m.flags.has W_NOMOUSE

def openCount (P : Mark → Bool) (l : List (Mark × List Mark)) : Nat :=
  l.countP fun p => P p.1 && reallyOpen p

def totalCount (P : Mark → Bool) (l : List (Mark × List Mark)) : Nat := l.countP fun p => P p.1

def census (l : List (Mark × List Mark)) : Census :=
  { opened := fun c => openCount (Mark.of c) l
    total := fun c => totalCount (Mark.of c) l
    globOpen := openCount (fun m => m.cptr.isSome) l
    globTotal := totalCount (fun m => m.cptr.isSome) l
    mouse := openCount Mark.nomouse l }

def Census.shift (N : Census) (e : Int) (M : List Mark) : Census :=
  { N with
    opened := fun c => N.opened c + e * M.countP (Mark.of c)
    globOpen := N.globOpen + e * M.length
    mouse := N.mouse + e * M.countP Mark.nomouse }

def Census.grow (N : Census) (e : Int) (M : List Mark) : Census :=
  { N with
    total := fun c => N.total c + e * M.countP (Mark.of c)
    globTotal := N.globTotal + e * M.length }

structure Tally (s : Server) (N : Census) : Prop where
  opened : ∀ c ∈ s.clients, c.openWindows = N.opened c.id
  total : ∀ c ∈ s.clients, c.totalWindows = N.total c.id
  globOpen : s.globOpenWindows = short N.globOpen
  globTotal : s.globTotalWindows = short N.globTotal
  mouse : s.mouse_disabled = short N.mouse

theorem short_add_short (x y : Int) : short (short x + y) = short (x + y) := by
  unfold short
  omega

theorem short_sub_short (x y : Int) : short (short x - y) = short (x - y) := by
  unfold short
  omega

theorem client_do_open_eq (s : Server) (w : Window) :
    client_do_open s w =
      { s with
        clients := s.clients.map fun c =>
          if w.cptr = some c.id then { c with openWindows := c.openWindows + 1 } else c
        mouse_disabled := if w.flags.has W_NOMOUSE then short (s.mouse_disabled + 1) else s.mouse_disabled
        globOpenWindows := short (s.globOpenWindows + 1) } := by
  unfold client_do_open Server.updateClient
  cases w.cptr with
  | none =>
    simp only [reduceCtorEq, if_false, map_id']
    split_ifs <;> rfl
  | some i =>
    simp only [Option.some.injEq, eq_comm (a := i)]
    split_ifs <;> rfl

theorem client_do_close_eq (s : Server) (w : Window) :
    client_do_close s w =
      { s with
        clients := s.clients.map fun c =>
          if w.cptr = some c.id then { c with openWindows := c.openWindows - 1 } else c
        mouse_disabled := if w.flags.has W_NOMOUSE then short (s.mouse_disabled - 1) else s.mouse_disabled
        glob_leftmousepressed :=
          if s.glob_leftmousepressed = some w.id then none else s.glob_leftmousepressed
        glob_rightmousepressed :=
          if s.glob_rightmousepressed = some w.id then none else s.glob_rightmousepressed
        globOpenWindows := short (s.globOpenWindows - 1) } := by
  unfold client_do_close Server.updateClient
  by_cases hn : w.flags.has W_NOMOUSE = true <;>
    by_cases hl : s.glob_leftmousepressed = some w.id <;>
      by_cases hr : s.glob_rightmousepressed = some w.id <;>
        simp only [hn, hl, hr, if_true, if_false, Bool.false_eq_true] <;>
        cases w.cptr <;>
        simp [eq_comm]

theorem Tally.map {s s' : Server} {N N' : Census} {f : Client → Client} (h : Tally s N)
    (hc : s'.clients = s.clients.map f)
    (hf : ∀ c ∈ s.clients, (f c).openWindows - c.openWindows = N'.opened (f c).id - N.opened c.id ∧
      (f c).totalWindows - c.totalWindows = N'.total (f c).id - N.total c.id)
    (hopen : s'.globOpenWindows = short N'.globOpen) (htotal : s'.globTotalWindows = short N'.globTotal)
    (hmouse : s'.mouse_disabled = short N'.mouse) : Tally s' N' := by
  refine ⟨?_, ?_, hopen, htotal, hmouse⟩
  · intro c hm
    rw [hc] at hm
    obtain ⟨d, hd, rfl⟩ := mem_map.mp hm
    have := h.opened d hd
    have := (hf d hd).1
    omega
  · intro c hm
    rw [hc] at hm
    obtain ⟨d, hd, rfl⟩ := mem_map.mp hm
    have := h.total d hd
    have := (hf d hd).2
    omega

theorem countP_of (c : Nat) (m : Mark) :
    ((List.countP (Mark.of c) [m] : Nat) : Int) = if m.cptr = some c then 1 else 0 := by
  simp only [countP_cons, countP_nil, Mark.of, decide_eq_true_eq]
  split_ifs <;> rfl

theorem countP_nomouse (m : Mark) :
    ((List.countP Mark.nomouse [m] : Nat) : Int) = if m.flags.has W_NOMOUSE then 1 else 0 := by
  rw [countP_singleton, Mark.nomouse]
  split_ifs <;> rfl

variable {s : Server}

theorem client_do_open_tally {N : Census} (h : Tally s N) (w : Window) :
    Tally (client_do_open s w) (N.shift 1 [w.mark]) := by
  rw [client_do_open_eq]
  have hc := fun c => countP_of c w.mark
  have hm := countP_nomouse w.mark
  have hw : w.mark.cptr = w.cptr := rfl
  have hf : w.mark.flags = w.flags := rfl
  rw [hf] at hm
  apply h.map rfl
  · intro c _
    simp only [Census.shift, hc, hw]
    by_cases h : w.cptr = some c.id
    · simp only [h, if_true]
      constructor <;> omega
    · simp only [h, if_false]
      constructor <;> omega
  · simp only [Census.shift, h.globOpen, short_add_short, length_singleton]
    rfl
  · exact h.globTotal
  · simp only [Census.shift, hm, h.mouse]
    split_ifs
    · rw [short_add_short, Int.one_mul]
    · rw [Int.mul_zero, Int.add_zero]

theorem client_do_close_tally {N : Census} (h : Tally s N) (w : Window) :
    Tally (client_do_close s w) (N.shift (-1) [w.mark]) := by
  rw [client_do_close_eq]
  have hc := fun c => countP_of c w.mark
  have hm := countP_nomouse w.mark
  have hw : w.mark.cptr = w.cptr := rfl
  have hf : w.mark.flags = w.flags := rfl
  rw [hf] at hm
  apply h.map rfl
  · intro c _
    simp only [Census.shift, hc, hw]
    by_cases h : w.cptr = some c.id
    · simp only [h, if_true]
      constructor <;> omega
    · simp only [h, if_false]
      constructor <;> omega
  · simp only [Census.shift, h.globOpen, short_sub_short, length_singleton]
    rfl
  · exact h.globTotal
  · simp only [Census.shift, hm, h.mouse]
    split_ifs
    · rw [short_sub_short]
      rfl
    · rw [Int.mul_zero, Int.add_zero]

theorem client_do_delete_eq (s : Server) (w : Window) :
    client_do_delete s w =
      { s with
        glob_activewindow := if w.id = s.glob_activewindow then 0 else s.glob_activewindow
        glob_activetopwin := if w.id = s.glob_activetopwin then 0 else s.glob_activetopwin
        colors := colorFreeTable s.colors w.colTab
        clients := s.clients.map fun c =>
          if w.cptr = some c.id then { c with totalWindows := c.totalWindows - 1 } else c
        globTotalWindows := short (s.globTotalWindows - 1) } := by
  unfold client_do_delete Server.updateClient
  by_cases hl : w.id = s.glob_activewindow
  · by_cases hr : w.id = s.glob_activetopwin
    · simp only [eq_true hl, eq_true hr, if_true]
      cases w.cptr <;> simp [eq_comm]
    · simp only [eq_true hl, eq_false hr, if_true, if_false]
      cases w.cptr <;> simp [eq_comm]
  · by_cases hr : w.id = s.glob_activetopwin
    · simp only [eq_false hl, eq_true hr, if_true, if_false]
      cases w.cptr <;> simp [eq_comm]
    · simp only [eq_false hl, eq_false hr, if_false]
      cases w.cptr <;> simp [eq_comm]

theorem window_delete_one_eq (s : Server) (w : Window) :
    window_delete_one s w =
      { client_do_delete s w with
        window_find_cache := if s.window_find_cache = some w.id then none else s.window_find_cache
        topWindow := if w.flags.has W_TOP ∧ s.topWindow = some w.id then none else s.topWindow } := by
  rw [client_do_delete_eq]
  unfold window_delete_one
  simp only [client_do_delete_eq]
  by_cases hc : s.window_find_cache = some w.id <;>
    simp only [hc, if_true, if_false] <;>
    split_ifs <;> rfl

theorem window_delete_one_tally {N : Census} (h : Tally s N) (w : Window) :
    Tally (window_delete_one s w) (N.grow (-1) [w.mark]) := by
  rw [window_delete_one_eq, client_do_delete_eq]
  have hc := fun c => countP_of c w.mark
  have hw : w.mark.cptr = w.cptr := rfl
  apply h.map rfl
  · intro c _
    simp only [Census.grow, hc, hw]
    by_cases h : w.cptr = some c.id
    · simp only [h, if_true]
      constructor <;> omega
    · simp only [h, if_false]
      constructor <;> omega
  · exact h.globOpen
  · simp only [Census.grow, h.globTotal, short_sub_short, length_singleton]
    rfl
  · exact h.mouse

variable (N : Census)

theorem shift_cons (e : Int) (m : Mark) (M : List Mark) :
    (N.shift e [m]).shift e M = N.shift e (m :: M) := by
  simp only [Census.shift, countP_cons, length_cons, countP_nil, length_nil]
  congr 1
  · funext c
    push_cast
    ring
  · push_cast
    ring
  · push_cast
    ring

theorem grow_cons (e : Int) (m : Mark) (M : List Mark) : (N.grow e [m]).grow e M = N.grow e (m :: M) := by
  simp only [Census.grow, countP_cons, length_cons, countP_nil, length_nil]
  congr 1
  · funext c
    push_cast
    ring
  · push_cast
    ring

theorem shift_nil (e : Int) : N.shift e [] = N := by
  simp [Census.shift]

theorem grow_nil (e : Int) : N.grow e [] = N := by
  simp [Census.grow]

variable {M M' : List Mark}

theorem shift_perm (e : Int) (h : M.Perm M') : N.shift e M = N.shift e M' := by
  have hc := fun c => h.countP_eq (Mark.of c)
  simp only [Census.shift, hc, h.countP_eq, h.length_eq]

theorem grow_perm (e : Int) (h : M.Perm M') : N.grow e M = N.grow e M' := by
  have hc := fun c => h.countP_eq (Mark.of c)
  simp only [Census.grow, hc, h.length_eq]

theorem shift_back (M : List Mark) : (N.shift 1 M).shift (-1) M = N := by
  simp [Census.shift]

theorem grow_back (M : List Mark) : (N.grow 1 M).grow (-1) M = N := by
  simp [Census.grow]

theorem tally_open {N : Census} (h : Tally s N) (L : List Window) :
    Tally (L.foldl client_do_open s) (N.shift 1 (L.map Window.mark)) := by
  induction L generalizing s N with
  | nil => exact (shift_nil N 1).symm ▸ h
  | cons w L ih =>
    rw [map_cons, ← shift_cons]
    exact ih (client_do_open_tally h w)

theorem tally_close {N : Census} (h : Tally s N) (L : List Window) :
    Tally (L.foldl client_do_close s) (N.shift (-1) (L.map Window.mark)) := by
  induction L generalizing s N with
  | nil => exact (shift_nil N (-1)).symm ▸ h
  | cons w L ih =>
    rw [map_cons, ← shift_cons]
    exact ih (client_do_close_tally h w)

theorem tally_delete {N : Census} (h : Tally s N) (L : List Window) :
    Tally (L.foldl window_delete_one s) (N.grow (-1) (L.map Window.mark)) := by
  induction L generalizing s N with
  | nil => exact (grow_nil N (-1)).symm ▸ h
  | cons w L ih =>
    rw [map_cons, ← grow_cons]
    exact ih (window_delete_one_tally h w)

end WWindowSystem
