import WWindowSystem.Wt.Getstring

namespace WWindowSystem

open List

structure entry_t where
  y : Int
  ht : Int
  deriving DecidableEq

structure ListWidget where
  entries : List entry_t
  sel_entry : Int
  mpressed : Bool
  timer : Int

def find_entry (w : ListWidget) (y : Int) : Int :=
  match w.entries.findIdx? fun ep => ep.y ≤ y ∧ y < ep.y + ep.ht with
  | some i => i
  | none => -1

def move_timer (self : Int) (w : ListWidget) (T : Ticker) (mouse : Option Int) : ListWidget × Ticker :=
  match mouse with
  | none => (w, T)
  | some y =>
    let entry := find_entry w y
    let w := if entry ≠ w.sel_entry then { w with sel_entry := entry } else w
    let r := T.wt_addtimeout 100 .move_timer self
    ({ w with timer := r.1 }, r.2)

def list_create : ListWidget := { entries := [], sel_entry := -1, mpressed := false, timer := 0 }

def list_delete (self : Int) (w : ListWidget) (T : Ticker) : Ticker := T.wt_deltimeout self w.timer

inductive ListEvent where
  | mpress
  | mrelease
  | active
  | inactive
  | other
  deriving DecidableEq

def list_event (self : Int) (w : ListWidget) (T : Ticker) (mouse : Option Int) : ListEvent → ListWidget × Ticker
  | .mpress => move_timer self { w with mpressed := true } T mouse
  | .mrelease => if ¬ w.mpressed then (w, T) else ({ w with mpressed := false }, T)
  | .active => if w.mpressed then move_timer self w T mouse else (w, T)
  | .inactive => ({ w with sel_entry := -1 }, T.wt_deltimeout self w.timer)
  | .other => (w, T)

def getstring_delete (self : Int) (d : Getstring) : Ticker := d.T.wt_deltimeout self d.s.timer

structure Widgets where
  T : Ticker
  lists : Int → Option ListWidget
  strings : Int → Option Getstr

def Widgets.start (longMax : Int) : Widgets :=
  { T := Ticker.start longMax, lists := fun _ => none, strings := fun _ => none }

def Widgets.withList (D : Widgets) (self : Int) (f : ListWidget → Ticker → ListWidget × Ticker) : Widgets :=
  match D.lists self with
  | none => D
  | some w =>
    let r := f w D.T
    { D with T := r.2, lists := Function.update D.lists self (some r.1) }

def Widgets.withString (D : Widgets) (self : Int) (f : Getstring → Getstring) : Widgets :=
  match D.strings self with
  | none => D
  | some s =>
    let r := f ⟨s, D.T⟩
    { D with T := r.T, strings := Function.update D.strings self (some r.s) }

def Widgets.ran (D : Widgets) (mouse : Option (Int × Int)) : Option (timeout_t TimerFn) → Widgets
  | none => D
  | some tp =>
    match tp.handler with
    | .move_timer => D.withList tp.arg fun w T => move_timer tp.arg w T (mouse.map Prod.snd)
    | .timer_callback => D.withString tp.arg fun d => timer_callback tp.arg d (mouse.map Prod.fst)
    | .other _ => D

inductive WidgetCall where
  | create_list (self : Int)
  | create_string (self char_width fontht : Int)
  | list_label (self : Int) (entries : List entry_t)
  | realize_string (self : Int)
  | list_event (self : Int) (e : ListEvent) (mouse : Option Int)
  | string_event (self : Int) (e : GetstringEvent)
  | focus (self : Int) (enter : Bool)
  | setopt (self : Int) (o : GetstringOpt)
  | delete (self : Int)
  | do_timeouts (mouse : Option (Int × Int))
  | handler_returns (mouse : Option (Int × Int))
  | other_addtimeout (delta f arg : Int)
  | other_deltimeout (handle : Int)
  | gettime (curr : Int)

def Widgets.free (D : Widgets) (self : Int) : Bool := (D.lists self).isNone && (D.strings self).isNone

def Widgets.run (D : Widgets) : WidgetCall → Widgets
  | .create_list self =>
    if D.free self then { D with lists := Function.update D.lists self (some list_create) } else D
  | .create_string self char_width fontht =>
    if D.free self then
      let d := getstring_create char_width fontht D.T.longMax
      { D with strings := Function.update D.strings self (some d.s) }
    else D
  | .list_label self entries => D.withList self fun w T => ({ w with entries }, T)
  | .realize_string self => D.withString self getstring_realize
  | .list_event self e mouse => D.withList self fun w T => WWindowSystem.list_event self w T mouse e
  | .string_event self e => D.withString self fun d => getstring_event self d e
  | .focus self enter => D.withString self fun d => getstring_focus self d enter
  | .setopt self o => D.withString self fun d => getstring_setopt self d o
  | .delete self =>
    match D.lists self, D.strings self with
    | some w, _ => { D with T := list_delete self w D.T, lists := Function.update D.lists self none }
    | none, some s => { D with T := getstring_delete self ⟨s, D.T⟩, strings := Function.update D.strings self none }
    | none, none => D
  | .do_timeouts mouse =>
    let r := D.T.timeouts.wt_do_timeouts D.T.curr
    Widgets.ran { D with T := { D.T with timeouts := r.2 } } mouse r.1
  | .handler_returns mouse =>
    let r := D.T.timeouts.handler_returns D.T.curr
    Widgets.ran { D with T := { D.T with timeouts := r.2 } } mouse r.1
  | .other_addtimeout delta f arg => { D with T := (D.T.wt_addtimeout delta (.other f) arg).2 }
  | .other_deltimeout handle => { D with T := { D.T with timeouts := D.T.timeouts.wt_deltimeout handle } }
  | .gettime curr => { D with T := { D.T with curr } }

def Ticker.pending (T : Ticker) : List (timeout_t TimerFn) := T.timeouts.glob_timeouts.map Prod.snd

def Own (self : Int) (tp : timeout_t TimerFn) : Bool :=
  tp.arg == self && (tp.handler == .move_timer || tp.handler == .timer_callback)

variable {T T' : Ticker} {self : Int}

variable (S : Timeouts TimerFn)

theorem pending_update (curr : Int) :
    (S.wt_update_timeouts curr).glob_timeouts.map Prod.snd = S.glob_timeouts.map Prod.snd := by
  unfold Timeouts.wt_update_timeouts
  split_ifs
  · rfl
  · exact items_addFirst _ _

theorem addtimeout_spec (T : Ticker) {delta : Int} (hd : 0 < delta) (f : TimerFn) (arg : Int) :
    (T.wt_addtimeout delta f arg).1 = T.timeouts.theid ∧
      (T.wt_addtimeout delta f arg).2.pending.Perm (⟨T.timeouts.theid, f, arg⟩ :: T.pending) ∧
        (T.wt_addtimeout delta f arg).2.erased = T.erased := by
  unfold Ticker.wt_addtimeout Timeouts.wt_addtimeout Ticker.pending
  rw [if_neg (by omega)]
  refine ⟨rfl, ?_, rfl⟩
  dsimp only
  rw [← pending_update { T.timeouts with theid := nextId T.longMax T.timeouts.theid } T.curr]
  exact items_insertDelta _ _ _

theorem find_pending (p : timeout_t TimerFn → Bool) (l : List (Int × timeout_t TimerFn)) :
    (l.find? fun e => p e.2).map Prod.snd = (l.map Prod.snd).find? p := by
  rw [find?_map]
  rfl

theorem deltimeout_spec (T : Ticker) (self handle : Int) :
    (T.wt_deltimeout self handle).pending = T.pending.eraseP (fun tp => tp.id == handle) ∧
      (T.wt_deltimeout self handle).erased =
        ((T.pending.find? fun tp => tp.id == handle).toList.map fun tp => (self, tp)) ++ T.erased := by
  refine ⟨items_eraseDelta _ _, ?_⟩
  unfold Ticker.wt_deltimeout Ticker.pending
  dsimp only
  rw [← find_pending]
  cases T.timeouts.glob_timeouts.find? fun e => e.2.id == handle with
  | none => rfl
  | some e => rfl

def Taken (tp : Option (timeout_t TimerFn)) (T T' : Ticker) : Prop :=
  (T.pending = tp.toList ++ T'.pending) ∧ T'.erased = T.erased ∧ T'.timeouts.theid = T.timeouts.theid ∧
    T'.longMax = T.longMax

theorem check_taken :
    S.glob_timeouts.map Prod.snd = S.check.1.toList ++ S.check.2.glob_timeouts.map Prod.snd ∧
      S.check.2.theid = S.theid := by
  unfold Timeouts.check
  cases hS : S.glob_timeouts with
  | nil =>
    dsimp only
    rw [hS]
    exact ⟨rfl, rfl⟩
  | cons e next =>
    obtain ⟨delta, tp⟩ := e
    dsimp only
    split_ifs
    · dsimp only
      rw [items_addFirst]
      exact ⟨rfl, rfl⟩
    · rw [hS]
      exact ⟨rfl, rfl⟩

theorem update_theid (curr : Int) : (S.wt_update_timeouts curr).theid = S.theid := by
  unfold Timeouts.wt_update_timeouts
  split_ifs <;> rfl

theorem do_timeouts_taken (T : Ticker) : Taken (T.timeouts.wt_do_timeouts T.curr).1 T
    { T with timeouts := (T.timeouts.wt_do_timeouts T.curr).2 } := by
  obtain ⟨hp, ht⟩ := check_taken (T.timeouts.wt_update_timeouts T.curr)
  rw [pending_update] at hp
  exact ⟨hp, rfl, ht.trans (update_theid _ _), rfl⟩

theorem handler_returns_taken (T : Ticker) : Taken (T.timeouts.handler_returns T.curr).1 T
    { T with timeouts := (T.timeouts.handler_returns T.curr).2 } := by
  unfold Timeouts.handler_returns
  cases T.timeouts.running with
  | nil => exact ⟨rfl, rfl, rfl, rfl⟩
  | cons tp running =>
    obtain ⟨hp, ht⟩ := check_taken (Timeouts.wt_update_timeouts { T.timeouts with running } T.curr)
    rw [pending_update] at hp
    exact ⟨hp, rfl, ht.trans (update_theid _ _), rfl⟩

structure Ticker.Sound (T : Ticker) (timer : TimerFn → Int → Option Int) : Prop where
  once : ∀ self, T.pending.countP (Own self) ≤ 1
  holds : ∀ tp ∈ T.pending, ∀ self, Own self tp = true → timer tp.handler self = some tp.id
  own : ∀ x ∈ T.erased, Own x.1 x.2 = true
  ids : ∀ tp ∈ T.pending, 0 ≤ tp.id
  next : 0 ≤ T.timeouts.theid ∧ 0 ≤ T.longMax

def Ticker.Quiet (T : Ticker) (self : Int) : Prop := ∀ tp ∈ T.pending, Own self tp = false

def Ticker.Finds (T : Ticker) (self handle : Int) : Prop :=
  ∀ tp, T.pending.find? (fun tp => tp.id == handle) = some tp → Own self tp = true

variable {timer timer' : TimerFn → Int → Option Int}

theorem Ticker.Sound.sublist (h : T.Sound timer) (hp : T'.pending.Sublist T.pending) (he : T'.erased = T.erased)
    (hn : 0 ≤ T'.timeouts.theid ∧ 0 ≤ T'.longMax) : T'.Sound timer := by
  refine ⟨fun self => le_trans hp.countP_le (h.once self), fun tp hm => h.holds tp (hp.subset hm), ?_,
    fun tp hm => h.ids tp (hp.subset hm), hn⟩
  rw [he]
  exact h.own

theorem Ticker.Sound.moved (h : T.Sound timer) (hq : T.Quiet self)
    (ht : ∀ f a, a ≠ self → timer' f a = timer f a) : T.Sound timer' := by
  refine ⟨h.once, fun tp hm a ha => ?_, h.own, h.ids, h.next⟩
  have hne : a ≠ self := by
    rintro rfl
    exact Bool.false_ne_true ((hq tp hm).symm.trans ha)
  rw [ht _ _ hne]
  exact h.holds tp hm a ha

theorem own_arg {tp : timeout_t TimerFn} (h : Own self tp = true) : tp.arg = self := by
  unfold Own at h
  rw [Bool.and_eq_true, beq_iff_eq] at h
  exact h.1

theorem Ticker.Sound.registered (h : T.Sound timer) (hq : T.Quiet self) {f : TimerFn}
    (hp : T'.pending.Perm (⟨T.timeouts.theid, f, self⟩ :: T.pending)) (hf : timer' f self = some T.timeouts.theid)
    (ht : ∀ f a, a ≠ self → timer' f a = timer f a) (he : T'.erased = T.erased)
    (hn : 0 ≤ T'.timeouts.theid ∧ 0 ≤ T'.longMax) : T'.Sound timer' := by
  have hm := h.moved hq ht
  refine ⟨fun a => ?_, fun tp htp a ha => ?_, ?_, fun tp htp => ?_, hn⟩
  · rw [hp.countP_eq, countP_cons]
    have hzero : a = self → T.pending.countP (Own a) = 0 := by
      rintro rfl
      rw [countP_eq_zero]
      intro tp htp
      rw [hq tp htp]
      exact Bool.false_ne_true
    have hone := h.once a
    split_ifs with hown
    · rw [hzero (own_arg hown).symm]
    · exact hone
  · rcases mem_cons.mp (hp.mem_iff.mp htp) with rfl | htp
    · rw [← own_arg ha]
      exact hf
    · exact hm.holds tp htp a ha
  · rw [he]
    exact h.own
  · rcases mem_cons.mp (hp.mem_iff.mp htp) with rfl | htp
    · exact h.next.1
    · exact h.ids tp htp

theorem erased_quiet (h : T.Sound timer) {handle : Int} (hf : T.Finds self handle)
    (hid : ∀ tp ∈ T.pending, Own self tp = true → tp.id = handle) : (T.wt_deltimeout self handle).Quiet self := by
  have hone := h.once self
  unfold Ticker.Quiet
  rw [(deltimeout_spec T self handle).1]
  unfold Ticker.Finds at hf
  generalize T.pending = l at hf hid hone ⊢
  intro tp htp
  by_contra hown
  rw [Bool.not_eq_false] at hown
  have hmem := mem_of_mem_eraseP htp
  have hid' : (tp.id == handle) = true := by
    rw [hid tp hmem hown, beq_self_eq_true]
  obtain ⟨a, l1, l2, hnone, ha, rfl, he⟩ := exists_of_eraseP (p := fun tp => tp.id == handle) hmem hid'
  rw [he] at htp
  have hfind : (l1 ++ a :: l2).find? (fun tp => tp.id == handle) = some a := by
    rw [find?_eq_some_iff_append]
    exact ⟨ha, l1, l2, rfl, fun b hb => by rw [Bool.eq_false_of_not_eq_true (hnone b hb)]; rfl⟩
  have hcount : 1 ≤ (l1 ++ l2).countP (Own self) := countP_pos_iff.mpr ⟨tp, htp, hown⟩
  rw [countP_append] at hcount
  rw [countP_append, countP_cons, if_pos (hf a hfind)] at hone
  omega

theorem Ticker.Sound.erase (h : T.Sound timer) {handle : Int} (hf : T.Finds self handle) :
    (T.wt_deltimeout self handle).Sound timer := by
  obtain ⟨hp, he⟩ := deltimeout_spec T self handle
  have hsub : (T.wt_deltimeout self handle).pending.Sublist T.pending := by
    rw [hp]
    exact eraseP_sublist
  refine ⟨fun a => le_trans hsub.countP_le (h.once a), fun tp hm => h.holds tp (hsub.subset hm), ?_,
    fun tp hm => h.ids tp (hsub.subset hm), h.next⟩
  rw [he]
  intro x hx
  rcases mem_append.mp hx with hx | hx
  · obtain ⟨tp, htp, rfl⟩ := mem_map.mp hx
    rw [Option.mem_toList] at htp
    exact hf tp htp
  · exact h.own x hx

end WWindowSystem
