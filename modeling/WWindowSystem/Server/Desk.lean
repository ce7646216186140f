import WWindowSystem.Server.References

namespace WWindowSystem

open Forest Option

def EV_MOUSE : Flags := 0x0010

abbrev Buttons := BitVec 8

def BUTTON_LEFT : Buttons := 4
def BUTTON_RIGHT : Buttons := 1

def Buttons.has (buttons mask : Buttons) : Bool := buttons &&& mask != 0#8

structure Desk where
  server : Server
  real : Point := (0, 0)
  glob_loopmove : Bool := false
  loop_move_window : Option Nat := none

/-- What reaches the main loop. `real` is where the mouse is after the user has placed or resized
a window, `resized` says whether the rectangle that the user was shown has changed. -/
inductive DeskEvent where
  | request (r : Request) (real : Point)
  | mousemove (x y : Int)
  | mousebutton (x y : Int) (press release : Buttons) (resized : Bool) (real : Point)
  | mouse_show

def moveMouse (size : Nat) (old delta : Int) : Int :=
  let z := short (old + delta)
  let z := if z < 0 then 0 else z
  if z ≥ size then size - 1 else z

def event_mousemove (screen : Display) (D : Driver) (d : Desk) (x y : Int) : Desk :=
  let real : Point := (moveMouse screen.width d.real.1 x, moveMouse screen.height d.real.2 y)
  let d := { d with real }
  if d.glob_loopmove then
    match d.loop_move_window.bind d.server.windowLookup with
    -- the source would follow a dangling pointer
    | none => d
    | some f => { d with
      server := (client_move D d.server false f.win.id (short (f.win.pos.x0 + x))
        (short (f.win.pos.y0 + y)) real).2 }
  else { d with server := w_changeActiveWindow D d.server real.1 real.2 }

def Server.press (s : Server) (buttons : Buttons) (win : Option Nat) : Server :=
  { s with
    glob_leftmousepressed := if buttons.has BUTTON_LEFT then win else s.glob_leftmousepressed
    glob_rightmousepressed := if buttons.has BUTTON_RIGHT then win else s.glob_rightmousepressed }

def pressFrame (D : Driver) (d : Desk) (win : Window) (x y : Int) (press : Buttons) (resized : Bool)
    (real : Point) : Desk :=
  let edge : Bool := y - win.pos.y0 < 4 || win.pos.y1 - y < 4 || x - win.pos.x0 < 4 || win.pos.x1 - x < 4
  let resize := win.flags.has W_RESIZE && press.has BUTTON_LEFT && edge
  let d := if resize then { d with server := get_rectangle_done d.server, real } else d
  if resize && resized then d
  else
    let pressed := if resize then BUTTON_LEFT else BUTTON_RIGHT
    let d := if win.flags.has W_MOVE && !press.has pressed then
        { d with loop_move_window := some win.id, glob_loopmove := true }
      else d
    if !win.flags.has W_TOP && press.has BUTTON_RIGHT then
      { d with server := w_topDown D d.server win.id }
    else d

def pressWindow (D : Driver) (d : Desk) (win : Window) (x y : Int) (press : Buttons) (resized : Bool)
    (real : Point) : Desk :=
  let wx := short (x - win.pos.x0)
  let wy := short (y - win.pos.y0)
  if rect_cont_point win.work x y then
    if win.flags.has EV_MOUSE then { d with server := d.server.press press (some win.id) } else d
  else if win.flags.has (W_ICON ||| W_CLOSE) &&
      (rect_cont_point win.area.close wx wy || rect_cont_point win.area.icon wx wy) then
    { d with server := d.server.press press none }
  else pressFrame D d win x y press resized real

-- A press on the background only opens the menu, which changes nothing here.
def event_mousebutton (D : Driver) (d : Desk) (x y : Int) (press release : Buttons) (resized : Bool)
    (real : Point) : Desk :=
  if d.glob_loopmove then { d with server := get_rectangle_done d.server, glob_loopmove := false }
  else
    let s := d.server.press release none
    if press = 0 then { d with server := s }
    else
      let r := window_find s x y true
      let d := { d with server := r.2 }
      match r.1.bind r.2.windowLookup with
      | none => d
      | some f =>
        if f.win.id = 0 then { d with real := if press.has BUTTON_LEFT then real else d.real }
        else pressWindow D d f.win x y press resized real

def mouse_show (d : Desk) : Desk :=
  if d.glob_loopmove then d
  else { d with server := (window_find d.server d.real.1 d.real.2 true).2 }

def Desk.step (screen : Display) (D : Driver) (d : Desk) : DeskEvent → Desk
  | .request r real => { d with server := serve D d.server (r, real), real }
  | .mousemove x y => event_mousemove screen D d x y
  | .mousebutton x y press release resized real => event_mousebutton D d x y press release resized real
  | .mouse_show => mouse_show d

theorem findBelow_reallyOpen (x y : Int) (found : Option Window) (k : Context Window)
    (hk : openAbove k = true) (t : Forest Window) : findBelow x y found t = found ∨
      ∃ f : Focus, f.zip = zip k t ∧ findBelow x y found t = some f.win ∧ really_open f.ctx f.win = true := by
  induction t generalizing found k with
  | nil => exact .inl rfl
  | node w cs ns ihc ihn =>
    rw [findBelow]
    split_ifs with hw hp
    · rw [Bool.and_eq_true] at hw
      refine .inr ⟨⟨k, w, cs, ns⟩, rfl, rfl, ?_⟩
      rw [really_open, hw.1, Bool.true_and]
      exact hk
    · rw [Bool.and_eq_true] at hw
      have hr : really_open k w = true := by
        rw [really_open, hw.1, Bool.true_and]
        exact hk
      right
      rcases ihc (some w) (.parent w ns :: k) (by rw [openAbove_parent, hk, hw.1]; rfl) with h | ⟨f, hf, h⟩
      · exact ⟨⟨k, w, cs, ns⟩, rfl, h, hr⟩
      · exact ⟨f, hf, h⟩
    · exact ihn found (.prev w cs :: k) hk

variable {s : Server}

theorem reallyOpen_focus {f : Focus} (hf : f.zip = s.tree)
    (h : really_open f.ctx f.win = true) : OnScreen (markPaths s.tree) f.win.id := by
  refine ⟨(f.win.mark, ancestors (mapCtx Window.mark f.ctx)), ?_, rfl, ?_⟩
  · rw [markPaths, ← hf, Focus.zip, map_zip]
    exact mem_paths_of_zip rfl
  · rw [reallyOpen, all_open_mark]
    exact h

theorem window_find_onScreen (h : Lit true s.tree) (x y : Int) {id : Nat}
    (hid : (window_find s x y true).1 = some id) : OnScreen (markPaths s.tree) id := by
  unfold window_find at hid
  split at hid
  next r hr =>
    simp only [if_true, findCached, bind_eq_bind, bind_eq_some_iff] at hr
    obtain ⟨i, -, f, hf, hr⟩ := hr
    obtain ⟨hz, hfi⟩ := Server.windowLookup_zip hf
    split_ifs at hr
    rw [bind_eq_some_iff] at hr
    obtain ⟨l, hl, hr⟩ := hr
    obtain rfl := Option.some.inj hr
    obtain rfl := Option.some.inj hid
    obtain ⟨q, hq, -⟩ := map_eq_some_iff.mp hl
    have hopen := h.really_open hz (List.ne_nil_of_mem (List.mem_of_find?_eq_some hq))
    rw [← hfi]
    exact reallyOpen_focus hz hopen
  next =>
    obtain ⟨w, hw, rfl⟩ := map_eq_some_iff.mp hid
    rcases findBelow_reallyOpen x y none [] rfl s.tree with hn | ⟨f, hf, he, ho⟩
    · rw [hn] at hw
      cases hw
    · rw [he] at hw
      obtain rfl := Option.some.inj hw
      exact reallyOpen_focus hf ho

theorem window_find_referenced (h : s.Referenced) (x y : Int) : (window_find s x y true).2.Referenced := by
  have hre := window_find_reordered s x y true
  have hm : (window_find s x y true).2.tree.map Window.mark = s.tree.map Window.mark :=
    hre.map fun _ _ => rfl
  have hcache : CacheLive (window_find s x y true).2 :=
    window_find_live s x y true fun id hid => (present_iff s id).mp (h.live.cache id hid)
  have hids : (window_find s x y true).2.ids = s.ids := by rw [ids_mark, ids_mark, hm]
  obtain ⟨t, c, he⟩ := window_find_frame s x y true
  refine ⟨?_, hre.lit h.lit, ?_⟩
  · apply h.toCounted.congr hm <;> rw [he]
  · rw [markPaths, hm]
    have hr : (window_find s x y true).2.refs = { s.refs with cache := c } := by
      rw [he]
      rfl
    have hc : (window_find s x y true).2.window_find_cache = c := congrArg Refs.cache hr
    rw [hr]
    refine ⟨h.live.active, h.live.activetop, fun id hid => ?_, h.live.top, h.live.left, h.live.right⟩
    apply (present_iff s id).mpr
    rw [← hids]
    exact hcache id (hc.trans hid)

theorem press_referenced (h : s.Referenced) (buttons : Buttons) {win : Option Nat}
    (hw : ∀ id, win = some id → OnScreen (markPaths s.tree) id) : (s.press buttons win).Referenced := by
  refine ⟨h.toCounted.congr rfl rfl rfl rfl rfl, h.lit, h.live.press ?_ ?_⟩
  · intro id hid
    simp only [Server.press] at hid
    split_ifs at hid
    · exact hw id hid
    · exact h.live.left id hid
  · intro id hid
    simp only [Server.press] at hid
    split_ifs at hid
    · exact hw id hid
    · exact h.live.right id hid

variable {d : Desk}

theorem pressFrame_referenced (D : Driver) (h : d.server.Referenced) (win : Window)
    (x y : Int) (press : Buttons) (resized : Bool) (real : Point) :
    (pressFrame D d win x y press resized real).server.Referenced := by
  have hdone : (get_rectangle_done d.server).Referenced := act_referenced _ _ h (Act.place (D := D))
  have htop : ∀ s : Server, s.Referenced → (w_topDown D s win.id).Referenced :=
    fun s hs => (w_topDown_acts D s win.id).keep act_referenced hs
  unfold pressFrame
  dsimp only
  split_ifs
  all_goals first
    | exact hdone
    | exact h
    | exact htop _ hdone
    | exact htop _ h

theorem pressWindow_referenced (D : Driver) (h : d.server.Referenced) {win : Window}
    (hw : OnScreen (markPaths d.server.tree) win.id) (x y : Int) (press : Buttons) (resized : Bool)
    (real : Point) : (pressWindow D d win x y press resized real).server.Referenced := by
  unfold pressWindow
  dsimp only
  split_ifs
  · apply press_referenced h
    intro id hid
    exact Option.some.inj hid ▸ hw
  · exact h
  · exact press_referenced h press nofun
  · exact pressFrame_referenced D h win x y press resized real

theorem step_referenced (screen : Display) (D : Driver) (h : d.server.Referenced)
    (e : DeskEvent) : (d.step screen D e).server.Referenced := by
  have hact : ∀ s t : Server, s.Referenced → Acts D s t → t.Referenced :=
    fun s t hs ha => ha.keep act_referenced hs
  cases e with
  | request r real => exact serve_referenced D h (r, real)
  | mousemove x y =>
    change (event_mousemove screen D d x y).server.Referenced
    unfold event_mousemove
    dsimp only
    split_ifs
    · split
      · exact h
      · exact hact _ _ h (client_move_acts D _ _ _ _ _ _)
    · exact act_referenced _ _ h (Act.pointer _ _)
  | mousebutton x y press release resized real =>
    change (event_mousebutton D d x y press release resized real).server.Referenced
    unfold event_mousebutton
    by_cases hm : d.glob_loopmove = true
    · rw [if_pos hm]
      exact act_referenced _ _ h (Act.place (D := D))
    by_cases hp : press = 0
    · rw [if_neg hm, if_pos hp]
      exact press_referenced h release nofun
    · rw [if_neg hm, if_neg hp]
      have hs : (d.server.press release none).Referenced := press_referenced h release nofun
      have hf := window_find_referenced hs x y
      dsimp only
      split
      · exact hf
      next f hfound =>
        obtain ⟨id, hid, hlook⟩ := bind_eq_some_iff.mp hfound
        have hon := window_find_onScreen hs.lit x y hid
        by_cases h0 : f.win.id = 0
        · rw [if_pos h0]
          exact hf
        · rw [if_neg h0]
          apply pressWindow_referenced D hf
          have hm : (window_find (d.server.press release none) x y true).2.tree.map Window.mark =
              (d.server.press release none).tree.map Window.mark :=
            (window_find_reordered _ x y true).map fun _ _ => rfl
          rw [markPaths, hm, (Server.windowLookup_zip hlook).2]
          exact hon
  | mouse_show =>
    change (mouse_show d).server.Referenced
    unfold mouse_show
    split_ifs
    · exact h
    · exact window_find_referenced h _ _

end WWindowSystem
