import WWindowSystem.Wt.GetstringOptions
import WWindowSystem.Wt.WidgetTimers

namespace WWindowSystem

variable {d d' : Getstring} {self : Int}

variable (s : Getstr)

@[simp] theorem touch_timer (i : Int) : (s.touch i).timer = s.timer := rfl

@[simp] theorem span_timer (i n : Int) : (s.span i n).timer = s.timer := rfl

@[simp] theorem put_timer (i : Int) (c : Byte) : (s.put i c).timer = s.timer := rfl

@[simp] theorem strcpy_timer (val : List Byte) : (s.strcpy val).timer = s.timer := rfl

@[simp] theorem memcpy_timer (dst src n : Int) : (s.memcpy dst src n).timer = s.timer := rfl

@[simp] theorem cursor_invert_timer : (cursor_invert s).timer = s.timer := rfl

@[simp] theorem getstring_draw_timer : (getstring_draw s).timer = s.timer := rfl

@[simp] theorem cursor_position_timer (x : Int) : (cursor_position s x).timer = s.timer := rfl

@[simp] theorem draw_to_endpos_timer : (draw_to_endpos s).timer = s.timer := by
  unfold draw_to_endpos
  dsimp only
  rw [getstring_draw_timer]
  split_ifs <;> rfl

@[simp] theorem redraw_getstring_timer : (redraw_getstring s).timer = s.timer := by
  unfold redraw_getstring
  dsimp only
  split_ifs <;> simp

@[simp] theorem query_minsize_timer : (getstring_query_minsize s).1.timer = s.timer := by
  unfold getstring_query_minsize
  dsimp only
  split_ifs <;> rfl

@[simp] theorem query_geometry_timer : (getstring_query_geometry s).1.timer = s.timer :=
  query_minsize_timer s

@[simp] theorem scroll_left_timer : (scroll_left s).timer = s.timer := by
  unfold scroll_left
  split_ifs <;> rfl

@[simp] theorem scroll_right_timer : (scroll_right s).timer = s.timer := by
  unfold scroll_right
  split_ifs <;> rfl

@[simp] theorem moveLeft_timer (n : Nat) (s : Getstr) (idx : Int) : (moveLeft n s idx).timer = s.timer := by
  induction n generalizing s idx with
  | zero => rfl
  | succ n ih => simp [moveLeft, ih]

@[simp] theorem moveRight_timer (n : Nat) (s : Getstr) (idx : Int) : (moveRight n s idx).timer = s.timer := by
  induction n generalizing s idx with
  | zero => rfl
  | succ n ih => simp [moveRight, ih]

@[simp] theorem backspace_key_timer : (backspace_key s).timer = s.timer := by
  unfold backspace_key
  dsimp only
  split_ifs <;> simp

@[simp] theorem add_key_timer (key : Int) : (add_key s key).timer = s.timer := by
  unfold add_key
  dsimp only
  split_ifs <;> simp

theorem ite_timer {c : Prop} [Decidable c] {s t u : Getstr} (ht : t.timer = s.timer) (hu : u.timer = s.timer) :
    (if c then t else u).timer = s.timer := by
  split_ifs
  · exact ht
  · exact hu

@[simp] theorem process_key_timer (key : Int) : (process_key s key).timer = s.timer := by
  have hhome : (if s.textpos = 0 then { s with cursor := 0 } else s).timer = s.timer := ite_timer rfl rfl
  unfold process_key
  apply ite_timer (ite_timer rfl (backspace_key_timer s))
  apply ite_timer
  · apply ite_timer rfl
    apply ite_timer
    · exact backspace_key_timer _
    · exact moveLeft_timer _ s _
  apply ite_timer
  · exact ite_timer rfl rfl
  apply ite_timer
  · exact ite_timer rfl rfl
  apply ite_timer
  · exact ite_timer (ite_timer (scroll_right_timer s) rfl) rfl
  apply ite_timer
  · exact ite_timer (ite_timer (scroll_left_timer s) rfl) rfl
  apply ite_timer
  · dsimp only
    apply ite_timer
    · exact (getstring_draw_timer _).trans hhome
    · exact hhome
  apply ite_timer
  · exact ite_timer (ite_timer (draw_to_endpos_timer s) rfl) rfl
  apply ite_timer rfl
  exact ite_timer (add_key_timer s key) rfl

@[simp] theorem paint_text_timer (x : Int) : (paint_text s x).timer = s.timer := by
  unfold paint_text
  dsimp only
  split_ifs <;> simp

@[simp] theorem clear_selection_timer : (clear_selection s).timer = s.timer := by
  unfold clear_selection
  split_ifs <;> simp

@[simp] theorem remove_selection_timer : (remove_selection s).timer = s.timer := by
  unfold remove_selection
  rw [getstring_draw_timer]
  dsimp only
  split_ifs <;> simp

@[simp] theorem paste_timer (data : List Byte) : (paste s data).timer = s.timer := by
  have hadd (s : Getstr) : (data.foldl (fun s c => add_key s c.toInt) s).timer = s.timer := by
    induction data generalizing s with
    | nil => rfl
    | cons c data ih => exact (ih (add_key s c.toInt)).trans (add_key_timer s c.toInt)
  exact ite_timer (hadd s) rfl

inductive TimerStep (self : Int) (d d' : Getstring) : Prop where
  | quiet (hT : d'.T = d.T) (ht : d'.s.timer = d.s.timer)
  | stops (h0 : d.s.timer ≥ 0) (hT : d'.T = d.T.wt_deltimeout self d.s.timer) (ht : d'.s.timer = -1)

theorem stop_step (self : Int) (d : Getstring) {s : Getstr} (hs : d.s.timer = s.timer) :
    TimerStep self ⟨s, d.T⟩ (d.stop self) := by
  unfold Getstring.stop
  split_ifs with h0
  · exact .stops (hs ▸ h0) (by rw [hs]) rfl
  · exact .quiet rfl hs

theorem TimerStep.same (h : TimerStep self d d') {s : Getstr} (hs : s.timer = d'.s.timer) :
    TimerStep self d ⟨s, d'.T⟩ := by
  cases h with
  | quiet hT ht => exact .quiet hT (hs.trans ht)
  | stops h0 hT ht => exact .stops h0 hT (hs.trans ht)

theorem TimerStep.ite {c : Prop} [Decidable c] {u : Getstring} (h : c → TimerStep self d d') (h' : ¬ c → TimerStep self d u) :
    TimerStep self d (if c then d' else u) := by
  split_ifs with hc
  · exact h hc
  · exact h' hc

theorem TimerStep.of_eq {d0 : Getstring} (h : TimerStep self d0 d') (hT : d0.T = d.T) (ht : d0.s.timer = d.s.timer) :
    TimerStep self d d' := by
  cases h with
  | quiet hT' ht' => exact .quiet (hT'.trans hT) (ht'.trans ht)
  | stops h0 hT' ht' => exact .stops (ht ▸ h0) (by rw [hT', hT, ht]) ht'

theorem resized_step (self : Int) (d : Getstring) {s : Getstr} (hs : d.s.timer = s.timer) (w : Int) : TimerStep self d
    ⟨redraw_getstring { (getstring_query_geometry (Getstring.stop self ⟨s, d.T⟩).s).1 with
      w := { (getstring_query_geometry (Getstring.stop self ⟨s, d.T⟩).s).1.w with w } },
      (Getstring.stop self ⟨s, d.T⟩).T⟩ := by
  have hstop : TimerStep self d (Getstring.stop self ⟨s, d.T⟩) := stop_step self ⟨s, d.T⟩ hs.symm
  apply hstop.same
  rw [redraw_getstring_timer]
  exact query_geometry_timer _

theorem reshape_step (self : Int) (d : Getstring) (x y wd ht : Int) :
    TimerStep self d (getstring_reshape self d x y wd ht).1 := by
  have hplace : ∀ r : Getstring × Bool, (if x ≠ d.s.w.x ∨ y ≠ d.s.w.y then
      (({ d with s := { d.s with w := { d.s.w with x, y } } }, true) : Getstring × Bool) else (d, false)) = r →
      r.1.T = d.T ∧ r.1.s.timer = d.s.timer := by
    rintro r rfl
    split_ifs <;> exact ⟨rfl, rfl⟩
  unfold getstring_reshape
  generalize (if x ≠ d.s.w.x ∨ y ≠ d.s.w.y then
      (({ d with s := { d.s with w := { d.s.w with x, y } } }, true) : Getstring × Bool) else (d, false)) = r at hplace ⊢
  obtain ⟨d0, ret⟩ := r
  obtain ⟨hT, ht⟩ := hplace _ rfl
  have hmin := query_minsize_timer { d0.s with showlen := d0.s.roomFor wd }
  refine TimerStep.of_eq ?_ hT ht
  dsimp only
  generalize getstring_query_minsize { d0.s with showlen := d0.s.roomFor wd } = m at hmin ⊢
  by_cases hwd : wd ≠ d0.s.w.w
  · rw [if_pos hwd]
    generalize (if wd < m.2.1 then m.2.1 else wd) = wd'
    by_cases hsize : wd' ≠ m.1.w.w ∨ m.2.2 ≠ m.1.w.h
    · rw [if_pos hsize]
      by_cases hr : m.1.is_realized = true
      · rw [if_pos hr]
        apply resized_step self d0
        exact hmin.symm
      · rw [if_neg hr]
        exact .quiet rfl hmin
    · rw [if_neg hsize]
      exact .quiet rfl hmin
  · rw [if_neg hwd]
    exact .quiet rfl rfl

theorem check_size_step (self : Int) (d : Getstring) : TimerStep self d (check_size self d).1 := by
  unfold check_size
  by_cases hr : d.s.is_realized = true
  · rw [if_neg (not_not.mpr hr)]
    exact (reshape_step self ⟨(getstring_query_minsize d.s).1, d.T⟩ _ _ _ _).of_eq rfl (query_minsize_timer d.s)
  · rw [if_pos hr]
    exact .quiet rfl rfl

theorem withText_timer (val : List Byte) : (s.withText val).timer = s.timer := by
  unfold Getstr.withText Getstr.strcpy Getstr.span
  dsimp only
  split_ifs <;> rfl

theorem setopt_step (self : Int) (d : Getstring) (o : GetstringOpt) : TimerStep self d (getstring_setopt self d o) := by
  cases o with
  | string_address val =>
    have hdef : getstring_setopt self d (.string_address val) =
        if (d.s.withText val).is_realized then Getstring.stop self ⟨redraw_getstring (d.s.withText val), d.T⟩
        else ⟨d.s.withText val, d.T⟩ := rfl
    have ht := withText_timer d.s val
    rw [hdef]
    refine TimerStep.ite (fun _ => ?_) fun _ => .quiet rfl ht
    exact stop_step self ⟨redraw_getstring (d.s.withText val), d.T⟩ ((redraw_getstring_timer _).trans ht)
  | string_length val =>
    have hdef : getstring_setopt self d (.string_length val) =
        ⟨if (d.s.withLength val).showlen > (d.s.withLength val).maxlen ∨ (d.s.withLength val).showlen = 0 then
          { d.s.withLength val with showlen := (d.s.withLength val).maxlen } else d.s.withLength val, d.T⟩ := rfl
    obtain ⟨_, _, _, _, he⟩ := withLength_same d.s val
    rw [hdef, he]
    exact .quiet rfl (ite_timer rfl rfl)
  | string_mask val => exact .quiet rfl rfl
  | string_width val => exact (check_size_step self _).of_eq rfl rfl
  | width val => exact (reshape_step self _ _ _ _ _).of_eq rfl rfl

theorem focus_step (self : Int) (d : Getstring) (enter : Bool) : TimerStep self d (getstring_focus self d enter) := by
  cases enter with
  | false => exact stop_step self ⟨cursor_invert d.s, d.T⟩ rfl
  | true => exact .quiet rfl rfl

theorem mrelease_step (self : Int) (d : Getstring) (key : Int) :
    TimerStep self d (getstring_event self d (.mrelease key)) := by
  have hs : TimerStep self d (d.stop self) := stop_step self d rfl
  unfold getstring_event
  exact TimerStep.ite (fun _ => hs.same rfl) fun _ => hs

theorem key_step (self : Int) (d : Getstring) (key : Int) :
    (getstring_event self d (.key key)).T = d.T ∧ (getstring_event self d (.key key)).s.timer = d.s.timer := by
  have hs : (if d.s.cursor_on = true then cursor_invert d.s else d.s).timer = d.s.timer := ite_timer rfl rfl
  unfold getstring_event
  dsimp only
  generalize (if d.s.cursor_on = true then cursor_invert d.s else d.s) = s at hs ⊢
  have hshow {t : Getstr} (ht : t.timer = s.timer) :
      (if d.s.cursor_on = true then cursor_invert t else t).timer = d.s.timer :=
    (ite_timer (s := d.s) (ht.trans hs) (ht.trans hs))
  have hkey {t : Getstr} (ht : t.timer = s.timer) :
      (cursor_position (process_key t key) (process_key t key).cursor).timer = s.timer :=
    (process_key_timer t key).trans ht
  by_cases hne : s.copyend ≠ s.copystart
  · rw [if_pos hne]
    by_cases hm : MOVEMENT key
    · rw [if_pos hm]
      exact ⟨rfl, hshow (hkey (clear_selection_timer s))⟩
    rw [if_neg hm]
    by_cases hd : DESTRUCTIVE key
    · rw [if_pos hd]
      exact ⟨rfl, hshow (remove_selection_timer s)⟩
    · rw [if_neg hd]
      exact ⟨rfl, hshow (hkey (remove_selection_timer s))⟩
  · rw [if_neg hne]
    exact ⟨rfl, hshow (hkey rfl)⟩

def Restarts (self : Int) (d d' : Getstring) : Prop :=
  (d'.T = d.T ∧ d'.s.timer = -1) ∨ (d'.s.timer = (d.T.wt_addtimeout 100 .timer_callback self).1 ∧
    d'.T = (d.T.wt_addtimeout 100 .timer_callback self).2)

theorem timer_callback_restarts (self : Int) (d : Getstring) (mouse : Option Int) :
    Restarts self d (timer_callback self d mouse) := by
  cases mouse with
  | none => exact Or.inl ⟨rfl, rfl⟩
  | some mx => exact Or.inr ⟨rfl, rfl⟩

theorem mpress_step (self : Int) (d : Getstring) (x key : Int) (sel : Option (List Byte)) (mouse : Option Int) :
    (key = Getstr.BUTTON_LEFT → Restarts self d (getstring_event self d (.mpress x key sel mouse))) ∧
      (key ≠ Getstr.BUTTON_LEFT → (getstring_event self d (.mpress x key sel mouse)).T = d.T ∧
        (getstring_event self d (.mpress x key sel mouse)).s.timer = d.s.timer) := by
  unfold getstring_event
  dsimp only
  constructor
  · intro hl
    rw [if_pos hl]
    exact timer_callback_restarts self ⟨_, d.T⟩ mouse
  · intro hl
    rw [if_neg hl]
    by_cases hr : key = Getstr.BUTTON_RIGHT
    · rw [if_pos hr]
      cases sel with
      | none => exact ⟨rfl, clear_selection_timer _⟩
      | some data => exact ⟨rfl, (paste_timer _ data).trans (clear_selection_timer _)⟩
    · rw [if_neg hr]
      exact ⟨rfl, clear_selection_timer _⟩

theorem realize_step (d : Getstring) : (getstring_realize d).T = d.T ∧ (getstring_realize d).s.timer = d.s.timer := by
  unfold getstring_realize
  split_ifs
  · exact ⟨rfl, rfl⟩
  · exact ⟨rfl, (redraw_getstring_timer _).trans (query_geometry_timer d.s)⟩

end WWindowSystem
