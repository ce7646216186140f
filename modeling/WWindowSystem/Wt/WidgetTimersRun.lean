import WWindowSystem.Library.Run
import WWindowSystem.Wt.GetstringTimers

namespace WWindowSystem

open List Function

def Widgets.timer (D : Widgets) : TimerFn → Int → Option Int
  | .move_timer, self => (D.lists self).map ListWidget.timer
  | .timer_callback, self => (D.strings self).map Getstr.timer
  | .other _, _ => none

structure Widgets.Timed (D : Widgets) : Prop where
  once : ∀ self, D.T.pending.countP (Own self) ≤ 1
  holds : ∀ tp ∈ D.T.pending, ∀ self, Own self tp = true → D.timer tp.handler self = some tp.id
  own : ∀ x ∈ D.T.erased, Own x.1 x.2 = true

def ListEvent.Ok (T : Ticker) (self : Int) (w : ListWidget) (mouse : Option Int) : ListEvent → Prop
  | .mpress => mouse ≠ none → T.Quiet self
  | .active => w.mpressed = true → mouse ≠ none → T.Quiet self
  | .inactive => T.Finds self w.timer
  | .mrelease => True
  | .other => True

def GetstringEvent.TimerOk (T : Ticker) (self : Int) (s : Getstr) : GetstringEvent → Prop
  | .mpress _ k _ _ => k = Getstr.BUTTON_LEFT → T.Quiet self
  | .mrelease _ => s.timer ≥ 0 → T.Finds self s.timer
  | .key _ => True

def WidgetCall.Ok (D : Widgets) : WidgetCall → Prop
  | .list_event self e mouse => ∀ w, D.lists self = some w → e.Ok D.T self w mouse
  | .string_event self e => ∀ s, D.strings self = some s → e.TimerOk D.T self s
  | .focus self enter => ∀ s, D.strings self = some s → enter = false → s.timer ≥ 0 → D.T.Finds self s.timer
  | .setopt self _ => ∀ s, D.strings self = some s → s.timer ≥ 0 → D.T.Finds self s.timer
  | .delete self => (∀ w, D.lists self = some w → D.T.Finds self w.timer) ∧
      ∀ s, D.strings self = some s → s.timer ≥ 0 → D.T.Finds self s.timer
  | _ => True

variable {D : Widgets} {T : Ticker} {self : Int}

def Widgets.Sound (D : Widgets) : Prop := D.T.Sound D.timer

theorem update_timer_list (D : Widgets) (T : Ticker) (self : Int) (w : Option ListWidget) (f : TimerFn) {a : Int} (ha : a ≠ self) :
    ({ D with T, lists := Function.update D.lists self w } : Widgets).timer f a = D.timer f a := by
  cases f with
  | move_timer =>
    unfold Widgets.timer
    dsimp only
    rw [update_of_ne ha]
  | timer_callback => rfl
  | other f => rfl

theorem update_timer_string (D : Widgets) (T : Ticker) (self : Int) (s : Option Getstr) (f : TimerFn) {a : Int}
    (ha : a ≠ self) : ({ D with T, strings := Function.update D.strings self s } : Widgets).timer f a = D.timer f a := by
  cases f with
  | move_timer => rfl
  | timer_callback =>
    unfold Widgets.timer
    dsimp only
    rw [update_of_ne ha]
  | other f => rfl

theorem own_handler {tp : timeout_t TimerFn} (h : Own self tp = true) :
    tp.handler = .move_timer ∨ tp.handler = .timer_callback := by
  unfold Own at h
  rw [Bool.and_eq_true, Bool.or_eq_true] at h
  exact h.2.imp eq_of_beq eq_of_beq

variable {timer timer' : TimerFn → Int → Option Int}

theorem sound_same (h : T.Sound timer)
    (ht : ∀ f a, timer' f a = timer f a) : T.Sound timer' := by
  refine ⟨h.once, fun tp hm a ha => ?_, h.own, h.ids, h.next⟩
  rw [ht]
  exact h.holds tp hm a ha

theorem nextId_nonneg {longMax theid : Int} (h : 0 ≤ theid) : 0 ≤ nextId longMax theid := by
  unfold nextId
  split_ifs <;> omega

theorem addtimeout_next (T : Ticker) (f : TimerFn) (arg delta : Int) (h : 0 ≤ T.timeouts.theid ∧ 0 ≤ T.longMax) :
    0 ≤ (T.wt_addtimeout delta f arg).2.timeouts.theid ∧ 0 ≤ (T.wt_addtimeout delta f arg).2.longMax := by
  refine ⟨?_, h.2⟩
  unfold Ticker.wt_addtimeout Timeouts.wt_addtimeout
  split_ifs
  · exact h.1
  · dsimp only
    rw [update_theid]
    exact nextId_nonneg h.1

theorem started_sound (h : T.Sound timer) (hq : T.Quiet self) (f : TimerFn)
    (hf : timer' f self = some (T.wt_addtimeout 100 f self).1) (ht : ∀ f a, a ≠ self → timer' f a = timer f a) :
    (T.wt_addtimeout 100 f self).2.Sound timer' := by
  obtain ⟨hid, hp, he⟩ := addtimeout_spec T (by decide : (0 : Int) < 100) f self
  exact h.registered hq hp (hid ▸ hf) ht he (addtimeout_next T f self 100 h.next)

variable {w : ListWidget}

theorem list_ids (h : D.Sound) (hw : D.lists self = some w) (hs : D.strings self = none) :
    ∀ tp ∈ D.T.pending, Own self tp = true → tp.id = w.timer := by
  intro tp hm ho
  have ht := h.holds tp hm self ho
  unfold Widgets.timer at ht
  rcases own_handler ho with hh | hh
  · rw [hh] at ht
    dsimp only at ht
    rw [hw] at ht
    exact (Option.some.inj ht).symm
  · rw [hh] at ht
    dsimp only at ht
    rw [hs] at ht
    exact absurd ht (by simp)

variable {s : Getstr}

theorem string_ids (h : D.Sound) (hs : D.strings self = some s) (hl : D.lists self = none) :
    ∀ tp ∈ D.T.pending, Own self tp = true → tp.id = s.timer := by
  intro tp hm ho
  have ht := h.holds tp hm self ho
  unfold Widgets.timer at ht
  rcases own_handler ho with hh | hh
  · rw [hh] at ht
    dsimp only at ht
    rw [hl] at ht
    exact absurd ht (by simp)
  · rw [hh] at ht
    dsimp only at ht
    rw [hs] at ht
    exact (Option.some.inj ht).symm

theorem timer_kept_list (T : Ticker) {w w' : ListWidget} (hw : D.lists self = some w) (ht : w'.timer = w.timer)
    (f : TimerFn) (a : Int) :
    ({ D with T, lists := Function.update D.lists self (some w') } : Widgets).timer f a = D.timer f a := by
  by_cases ha : a = self
  · subst ha
    cases f with
    | move_timer =>
      unfold Widgets.timer
      dsimp only
      rw [update_self, hw]
      exact congrArg some ht
    | timer_callback => rfl
    | other f => rfl
  · exact update_timer_list D T self (some w') f ha

theorem timer_kept_string (T : Ticker) {s s' : Getstr} (hs : D.strings self = some s) (ht : s'.timer = s.timer)
    (f : TimerFn) (a : Int) :
    ({ D with T, strings := Function.update D.strings self (some s') } : Widgets).timer f a = D.timer f a := by
  by_cases ha : a = self
  · subst ha
    cases f with
    | move_timer => rfl
    | timer_callback =>
      unfold Widgets.timer
      dsimp only
      rw [update_self, hs]
      exact congrArg some ht
    | other f => rfl
  · exact update_timer_string D T self (some s') f ha

def Widgets.Apart (D : Widgets) : Prop := ∀ a, D.lists a = none ∨ D.strings a = none

theorem Widgets.Apart.list (h : D.Apart) (hw : D.lists self = some w) : D.strings self = none := by
  rcases h self with hl | hs
  · rw [hw] at hl
    exact absurd hl (by simp)
  · exact hs

theorem Widgets.Apart.string (h : D.Apart) (hs : D.strings self = some s) : D.lists self = none := by
  rcases h self with hl | hs'
  · exact hl
  · rw [hs] at hs'
    exact absurd hs' (by simp)

theorem apart_list (h : D.Apart) (hs : D.strings self = none) (w : Option ListWidget) (T : Ticker) :
    ({ D with T, lists := Function.update D.lists self w } : Widgets).Apart := by
  intro a
  by_cases ha : a = self
  · subst ha
    exact Or.inr hs
  · dsimp only
    rw [update_of_ne ha]
    exact h a

theorem apart_string (h : D.Apart) (hl : D.lists self = none) (s : Option Getstr) (T : Ticker) :
    ({ D with T, strings := Function.update D.strings self s } : Widgets).Apart := by
  intro a
  by_cases ha : a = self
  · subst ha
    exact Or.inl hl
  · dsimp only
    rw [update_of_ne ha]
    exact h a

theorem move_timer_sound (h : D.Sound) (hw : D.lists self = some w) {w0 : ListWidget}
    (ht : w0.timer = w.timer) (mouse : Option Int) (hq : mouse ≠ none → D.T.Quiet self) :
    ({ D with T := (move_timer self w0 D.T mouse).2,
              lists := Function.update D.lists self (some (move_timer self w0 D.T mouse).1) } : Widgets).Sound := by
  cases mouse with
  | none => exact sound_same h (timer_kept_list D.T hw ht)
  | some y =>
    refine started_sound h (hq (by simp)) .move_timer ?_ fun f a ha => update_timer_list D _ self _ f ha
    unfold Widgets.timer
    dsimp only
    rw [update_self]
    rfl

theorem list_event_sound (h : D.Sound) (hw : D.lists self = some w) (e : ListEvent)
    (mouse : Option Int) (he : e.Ok D.T self w mouse) :
    ({ D with T := (list_event self w D.T mouse e).2,
              lists := Function.update D.lists self (some (list_event self w D.T mouse e).1) } : Widgets).Sound := by
  have hsame {w' : ListWidget} (ht : w'.timer = w.timer) :
      ({ D with lists := Function.update D.lists self (some w') } : Widgets).Sound :=
    sound_same h (timer_kept_list D.T hw ht)
  cases e with
  | mpress =>
    unfold list_event
    dsimp only
    apply move_timer_sound h hw _ mouse he
    rfl
  | mrelease =>
    unfold list_event
    dsimp only
    split_ifs
    · exact hsame rfl
    · exact hsame rfl
  | active =>
    unfold list_event
    dsimp only
    split_ifs with hp
    · exact move_timer_sound h hw rfl mouse (he hp)
    · exact hsame rfl
  | inactive => exact sound_same (h.erase he) (timer_kept_list _ hw rfl)
  | other => exact hsame rfl

variable {d' : Getstring}

theorem string_sound (h : D.Sound) (ha : D.Apart) (hs : D.strings self = some s)
    (hstep : TimerStep self ⟨s, D.T⟩ d') (hf : s.timer ≥ 0 → D.T.Finds self s.timer) :
    ({ D with T := d'.T, strings := Function.update D.strings self (some d'.s) } : Widgets).Sound := by
  cases hstep with
  | quiet hT ht =>
    have hT' : d'.T = D.T := hT
    rw [hT']
    exact sound_same h (timer_kept_string D.T hs ht)
  | stops h0 hT ht =>
    have hT' : d'.T = D.T.wt_deltimeout self s.timer := hT
    rw [hT']
    have hq := erased_quiet h (hf h0) (string_ids h hs (ha.string hs))
    exact (h.erase (hf h0)).moved hq fun f a ha => update_timer_string D _ self _ f ha

theorem restarts_sound (h : D.Sound) (hq : D.T.Quiet self)
    (hstep : Restarts self ⟨s, D.T⟩ d') :
    ({ D with T := d'.T, strings := Function.update D.strings self (some d'.s) } : Widgets).Sound := by
  have hother (T : Ticker) (f : TimerFn) (a : Int) (ha : a ≠ self) :
      ({ D with T, strings := Function.update D.strings self (some d'.s) } : Widgets).timer f a = D.timer f a :=
    update_timer_string D T self (some d'.s) f ha
  rcases hstep with ⟨hT, _⟩ | ⟨ht, hT⟩
  · have hT' : d'.T = D.T := hT
    rw [hT']
    exact h.moved hq (hother D.T)
  · rw [hT]
    refine started_sound h hq .timer_callback ?_ (hother _)
    unfold Widgets.timer
    dsimp only
    rw [update_self]
    exact congrArg some ht

theorem string_event_sound (h : D.Sound) (ha : D.Apart) (hs : D.strings self = some s) (e : GetstringEvent)
    (he : e.TimerOk D.T self s) :
    ({ D with T := (getstring_event self ⟨s, D.T⟩ e).T,
              strings := Function.update D.strings self (some (getstring_event self ⟨s, D.T⟩ e).s) } : Widgets).Sound := by
  cases e with
  | mpress x key sel mouse =>
    obtain ⟨hl, hr⟩ := mpress_step self ⟨s, D.T⟩ x key sel mouse
    by_cases hk : key = Getstr.BUTTON_LEFT
    · exact restarts_sound h (he hk) (hl hk)
    · obtain ⟨hT, ht⟩ := hr hk
      rw [hT]
      exact sound_same h (timer_kept_string D.T hs ht)
  | mrelease key => exact string_sound h ha hs (mrelease_step self ⟨s, D.T⟩ key) he
  | key key =>
    obtain ⟨hT, ht⟩ := key_step self ⟨s, D.T⟩ key
    rw [hT]
    exact sound_same h (timer_kept_string D.T hs ht)

theorem finds_of_neg (h : D.Sound) {handle : Int} (hneg : handle < 0) : D.T.Finds self handle := by
  intro tp htp
  have hid : tp.id = handle := by
    have hid := find?_some htp
    exact eq_of_beq hid
  have := h.ids tp (mem_of_find?_eq_some htp)
  omega

theorem delete_list_sound (h : D.Sound) (ha : D.Apart) (hw : D.lists self = some w)
    (hf : D.T.Finds self w.timer) :
    ({ D with T := list_delete self w D.T, lists := Function.update D.lists self none } : Widgets).Sound := by
  have hq := erased_quiet h hf (list_ids h hw (ha.list hw))
  exact (h.erase hf).moved hq fun f a ha => update_timer_list D _ self none f ha

theorem delete_string_sound (h : D.Sound) (ha : D.Apart) (hs : D.strings self = some s)
    (hf : s.timer ≥ 0 → D.T.Finds self s.timer) :
    ({ D with T := getstring_delete self ⟨s, D.T⟩, strings := Function.update D.strings self none } : Widgets).Sound := by
  have hf' : D.T.Finds self s.timer := by
    by_cases h0 : s.timer ≥ 0
    · exact hf h0
    · exact finds_of_neg h (by omega)
  have hq := erased_quiet h hf' (string_ids h hs (ha.string hs))
  exact (h.erase hf').moved hq fun f a ha => update_timer_string D _ self none f ha

theorem free_quiet (h : D.Sound) (hfree : D.free self = true) : D.T.Quiet self := by
  unfold Widgets.free at hfree
  rw [Bool.and_eq_true, Option.isNone_iff_eq_none, Option.isNone_iff_eq_none] at hfree
  intro tp hm
  by_contra hown
  rw [Bool.not_eq_false] at hown
  have ht := h.holds tp hm self hown
  unfold Widgets.timer at ht
  rcases own_handler hown with hh | hh
  · rw [hh] at ht
    dsimp only at ht
    rw [hfree.1] at ht
    exact absurd ht (by simp)
  · rw [hh] at ht
    dsimp only at ht
    rw [hfree.2] at ht
    exact absurd ht (by simp)

variable {T' : Ticker} {tp : Option (timeout_t TimerFn)}

theorem taken_sound {timer : TimerFn → Int → Option Int} (h : T.Sound timer)
    (ht : Taken tp T T') : T'.Sound timer := by
  obtain ⟨hp, he, hid, hmax⟩ := ht
  refine h.sublist ?_ he (hid ▸ hmax ▸ h.next)
  rw [hp]
  exact sublist_append_right _ _

theorem taken_quiet {timer : TimerFn → Int → Option Int} (h : T.Sound timer)
    {tp : timeout_t TimerFn} (ht : Taken (some tp) T T') (hown : Own self tp = true) : T'.Quiet self := by
  obtain ⟨hp, _, _, _⟩ := ht
  have hone := h.once self
  rw [hp] at hone
  intro tp' hm
  by_contra hown'
  rw [Bool.not_eq_false] at hown'
  have hcount : 1 ≤ T'.pending.countP (Own self) := countP_pos_iff.mpr ⟨tp', hm, hown'⟩
  rw [countP_append, Option.toList_some, countP_singleton, if_pos hown] at hone
  omega

structure Widgets.Kept (D : Widgets) : Prop where
  sound : D.Sound
  apart : D.Apart

theorem withList_kept (h : D.Kept) {f : ListWidget → Ticker → ListWidget × Ticker}
    (hf : ∀ w, D.lists self = some w →
      ({ D with T := (f w D.T).2, lists := Function.update D.lists self (some (f w D.T).1) } : Widgets).Sound) :
    (D.withList self f).Kept := by
  unfold Widgets.withList
  cases hw : D.lists self with
  | none => exact h
  | some w => exact ⟨hf w hw, apart_list h.apart (h.apart.list hw) _ _⟩

theorem withString_kept (h : D.Kept) {f : Getstring → Getstring}
    (hf : ∀ s, D.strings self = some s →
      ({ D with T := (f ⟨s, D.T⟩).T, strings := Function.update D.strings self (some (f ⟨s, D.T⟩).s) } : Widgets).Sound) :
    (D.withString self f).Kept := by
  unfold Widgets.withString
  cases hs : D.strings self with
  | none => exact h
  | some s => exact ⟨hf s hs, apart_string h.apart (h.apart.string hs) _ _⟩

theorem own_move_timer (id arg : Int) : Own arg ⟨id, .move_timer, arg⟩ = true := by simp [Own]

theorem own_timer_callback (id arg : Int) : Own arg ⟨id, .timer_callback, arg⟩ = true := by simp [Own]

theorem ran_kept (h : D.Kept) (ht : Taken tp D.T T')
    (mouse : Option (Int × Int)) : (Widgets.ran { D with T := T' } mouse tp).Kept := by
  have hs : ({ D with T := T' } : Widgets).Kept := ⟨taken_sound h.sound ht, h.apart⟩
  unfold Widgets.ran
  cases tp with
  | none => exact hs
  | some tp =>
    obtain ⟨id, handler, arg⟩ := tp
    cases handler with
    | move_timer =>
      have hq := taken_quiet h.sound ht (own_move_timer id arg)
      exact withList_kept hs fun w hw => move_timer_sound hs.sound hw rfl _ fun _ => hq
    | timer_callback =>
      have hq := taken_quiet h.sound ht (own_timer_callback id arg)
      exact withString_kept hs fun s _ => restarts_sound hs.sound hq (timer_callback_restarts arg ⟨s, T'⟩ _)
    | other f => exact hs

theorem widget_create_kept (h : D.Kept) (hfree : D.free self = true) :
    ({ D with lists := Function.update D.lists self (some list_create) } : Widgets).Kept ∧
      ∀ s, ({ D with strings := Function.update D.strings self (some s) } : Widgets).Kept := by
  have hq := free_quiet h.sound hfree
  unfold Widgets.free at hfree
  rw [Bool.and_eq_true, Option.isNone_iff_eq_none, Option.isNone_iff_eq_none] at hfree
  constructor
  · exact ⟨h.sound.moved hq fun f a ha => update_timer_list D D.T self _ f ha, apart_list h.apart hfree.2 _ _⟩
  · intro s
    exact ⟨h.sound.moved hq fun f a ha => update_timer_string D D.T self _ f ha, apart_string h.apart hfree.1 _ _⟩

theorem own_other (f arg id : Int) : Own self ⟨id, .other f, arg⟩ = false := by simp [Own]

theorem other_addtimeout_kept (h : D.Kept) (delta f arg : Int) : (D.run (.other_addtimeout delta f arg)).Kept := by
  refine ⟨?_, h.apart⟩
  unfold Widgets.run
  by_cases hd : delta ≤ 0
  · have hsame : (D.T.wt_addtimeout delta (.other f) arg).2 = D.T := by
      unfold Ticker.wt_addtimeout Timeouts.wt_addtimeout
      rw [if_pos hd]
    dsimp only
    rw [hsame]
    exact h.sound
  · obtain ⟨_, hp, he⟩ := addtimeout_spec D.T (by omega : 0 < delta) (.other f) arg
    have hs := h.sound
    refine ⟨fun self => ?_, fun tp hm self hown => ?_, ?_, fun tp hm => ?_, addtimeout_next D.T _ arg delta hs.next⟩
    · rw [hp.countP_eq, countP_cons, own_other]
      exact hs.once self
    · rcases mem_cons.mp (hp.mem_iff.mp hm) with rfl | hm
      · rw [own_other] at hown
        exact absurd hown Bool.false_ne_true
      · exact hs.holds tp hm self hown
    · rw [he]
      exact hs.own
    · rcases mem_cons.mp (hp.mem_iff.mp hm) with rfl | hm
      · exact hs.next.1
      · exact hs.ids tp hm

theorem other_deltimeout_kept (h : D.Kept) (handle : Int) : (D.run (.other_deltimeout handle)).Kept := by
  refine ⟨h.sound.sublist ?_ rfl h.sound.next, h.apart⟩
  have hp := (deltimeout_spec D.T 0 handle).1
  have hsub : (D.T.wt_deltimeout 0 handle).pending.Sublist D.T.pending := by
    rw [hp]
    exact eraseP_sublist
  exact hsub

theorem widget_delete_kept (h : D.Kept) (he : (WidgetCall.delete self).Ok D) : (D.run (.delete self)).Kept := by
  unfold Widgets.run
  dsimp only
  cases hw : D.lists self with
  | some w => exact ⟨delete_list_sound h.sound h.apart hw (he.1 w hw), apart_list h.apart (h.apart.list hw) _ _⟩
  | none =>
    cases hs : D.strings self with
    | some s => exact ⟨delete_string_sound h.sound h.apart hs (he.2 s hs), apart_string h.apart hw _ _⟩
    | none => exact h

theorem widgets_run_kept (h : D.Kept) (e : WidgetCall) (he : e.Ok D) : (D.run e).Kept := by
  cases e with
  | create_list self =>
    unfold Widgets.run
    dsimp only
    split_ifs with hfree
    · exact (widget_create_kept h hfree).1
    · exact h
  | create_string self char_width fontht =>
    unfold Widgets.run
    dsimp only
    split_ifs with hfree
    · exact (widget_create_kept h hfree).2 _
    · exact h
  | list_label self entries =>
    show (D.withList self fun w T => ({ w with entries }, T)).Kept
    exact withList_kept h fun w hw => sound_same h.sound (timer_kept_list D.T hw rfl)
  | realize_string self =>
    show (D.withString self getstring_realize).Kept
    apply withString_kept h
    intro s hs
    obtain ⟨hT, ht⟩ := realize_step ⟨s, D.T⟩
    rw [hT]
    exact sound_same h.sound (timer_kept_string D.T hs ht)
  | list_event self e mouse =>
    show (D.withList self fun w T => WWindowSystem.list_event self w T mouse e).Kept
    exact withList_kept h fun w hw => list_event_sound h.sound hw e mouse (he w hw)
  | string_event self e =>
    show (D.withString self fun d => getstring_event self d e).Kept
    exact withString_kept h fun s hs => string_event_sound h.sound h.apart hs e (he s hs)
  | focus self enter =>
    show (D.withString self fun d => getstring_focus self d enter).Kept
    apply withString_kept h
    intro s hs
    cases enter with
    | false => exact string_sound h.sound h.apart hs (focus_step self ⟨s, D.T⟩ false) (he s hs rfl)
    | true => exact sound_same h.sound (timer_kept_string D.T hs rfl)
  | setopt self o =>
    show (D.withString self fun d => getstring_setopt self d o).Kept
    exact withString_kept h fun s hs => string_sound h.sound h.apart hs (setopt_step self ⟨s, D.T⟩ o) (he s hs)
  | delete self => exact widget_delete_kept h he
  | do_timeouts mouse => exact ran_kept h (do_timeouts_taken D.T) mouse
  | handler_returns mouse => exact ran_kept h (handler_returns_taken D.T) mouse
  | other_addtimeout delta f arg => exact other_addtimeout_kept h delta f arg
  | other_deltimeout handle => exact other_deltimeout_kept h handle
  | gettime curr => exact ⟨⟨h.sound.once, h.sound.holds, h.sound.own, h.sound.ids, h.sound.next⟩, h.apart⟩

theorem widgets_start_kept {longMax : Int} (hmax : 0 ≤ longMax) : (Widgets.start longMax).Kept := by
  have hnil : (Widgets.start longMax).T.pending = [] := rfl
  refine ⟨⟨fun self => ?_, ?_, ?_, ?_, ⟨le_refl 0, hmax⟩⟩, fun a => Or.inl rfl⟩
  · rw [hnil]
    exact Nat.zero_le 1
  · rw [hnil]
    exact fun tp hm => absurd hm not_mem_nil
  · exact fun x hx => absurd hx not_mem_nil
  · rw [hnil]
    exact fun tp hm => absurd hm not_mem_nil

theorem Widgets.Kept.timed (h : D.Kept) : D.Timed := ⟨h.sound.once, h.sound.holds, h.sound.own⟩

instance Ticker.decidableQuiet (T : Ticker) (self : Int) : Decidable (T.Quiet self) :=
  inferInstanceAs (Decidable (∀ tp ∈ T.pending, Own self tp = false))

instance Ticker.decidableFinds (T : Ticker) (self handle : Int) : Decidable (T.Finds self handle) :=
  inferInstanceAs (Decidable (∀ tp ∈ T.pending.find? fun tp => tp.id == handle, Own self tp = true))

instance ListEvent.decidableOk (T : Ticker) (self : Int) (w : ListWidget) (mouse : Option Int) (e : ListEvent) :
    Decidable (e.Ok T self w mouse) :=
  match e with
  | .mpress => inferInstanceAs (Decidable (_ → _))
  | .mrelease => inferInstanceAs (Decidable True)
  | .active => inferInstanceAs (Decidable (_ → _ → _))
  | .inactive => inferInstanceAs (Decidable (Ticker.Finds _ _ _))
  | .other => inferInstanceAs (Decidable True)

instance GetstringEvent.decidableTimerOk (T : Ticker) (self : Int) (s : Getstr) (e : GetstringEvent) :
    Decidable (e.TimerOk T self s) :=
  match e with
  | .mpress _ _ _ _ => inferInstanceAs (Decidable (_ → _))
  | .mrelease _ => inferInstanceAs (Decidable (_ → _))
  | .key _ => inferInstanceAs (Decidable True)

instance WidgetCall.decidableOk (D : Widgets) (e : WidgetCall) : Decidable (e.Ok D) :=
  match e with
  | .list_event self e mouse => inferInstanceAs (Decidable (∀ w ∈ D.lists self, e.Ok D.T self w mouse))
  | .string_event self e => inferInstanceAs (Decidable (∀ s ∈ D.strings self, e.TimerOk D.T self s))
  | .focus self enter => inferInstanceAs (Decidable (∀ s ∈ D.strings self, enter = false → s.timer ≥ 0 → _))
  | .setopt self _ => inferInstanceAs (Decidable (∀ s ∈ D.strings self, s.timer ≥ 0 → _))
  | .delete self => inferInstanceAs (Decidable ((∀ w ∈ D.lists self, _) ∧ ∀ s ∈ D.strings self, s.timer ≥ 0 → _))
  | .create_list _ => inferInstanceAs (Decidable True)
  | .create_string _ _ _ => inferInstanceAs (Decidable True)
  | .list_label _ _ => inferInstanceAs (Decidable True)
  | .realize_string _ => inferInstanceAs (Decidable True)
  | .do_timeouts _ => inferInstanceAs (Decidable True)
  | .handler_returns _ => inferInstanceAs (Decidable True)
  | .other_addtimeout _ _ _ => inferInstanceAs (Decidable True)
  | .other_deltimeout _ => inferInstanceAs (Decidable True)
  | .gettime _ => inferInstanceAs (Decidable True)

def pressBoth : List WidgetCall :=
  [.create_list 1, .create_string 2 8 16, .other_addtimeout 500 7 1, .list_event 1 .mpress (some 12),
    .string_event 2 (.mpress 10 Getstr.BUTTON_LEFT none (some 12)), .gettime 120, .do_timeouts (some (12, 40)),
    .handler_returns (some (12, 40)), .handler_returns none, .list_event 1 .mrelease none,
    .string_event 2 (.mrelease Getstr.BUTTON_LEFT), .list_event 1 .inactive none, .delete 1, .delete 2]

end WWindowSystem
