import WWindowSystem.Server.Reachable

namespace WWindowSystem

open Function

def MOUSE_ARROW : Int := 0
def MOUSE_UPDOWN : Int := 1
def MOUSE_LEFTRIGHT : Int := 2
def MOUSE_MOVE : Int := 5
def MOUSE_USER : Int := 7
def MOUSE_POINTER_TYPES : Int := 8

structure WMouse where
  xDrawOffset : Int
  yDrawOffset : Int
  mask : List (BitVec 16)
  icon : List (BitVec 16)

/-- The server with the pointer fields of its windows. A handle that no window has stands for the zeros
of a new record. -/
structure Pointers where
  server : Server
  mtype : Nat → Int := fun _ => MOUSE_ARROW
  mdata : Nat → Option WMouse := fun _ => none
  /-- The index that `getPointerType` computed last. -/
  type : Int := MOUSE_ARROW

def client_setmousepointer (p : Pointers) (alloc : Bool) (handle : Nat) (type : Int) (data : WMouse) : Pointers :=
  match p.server.windowLookup handle with
  | none => p
  | some f =>
    let id := f.win.id
    let mtype := if (p.mdata id).isSome then Function.update p.mtype id MOUSE_ARROW else p.mtype
    if type = MOUSE_USER then
      if alloc then
        { p with mtype := Function.update mtype id type, mdata := Function.update p.mdata id (some data) }
      else { p with mtype, mdata := Function.update p.mdata id none }
    else { p with mtype := Function.update mtype id type, mdata := Function.update p.mdata id none }

def intersectPixel (R : Rec) (x y : Int) : Bool :=
  decide (R.y0 ≤ y ∧ x ≤ R.x0 + R.w - 1 ∧ y ≤ R.y0 + R.h - 1 ∧ R.x0 ≤ x)

def borderType (win : Window) (x y : Int) : Int :=
  let type := if y - win.pos.y0 < 4 then MOUSE_UPDOWN else MOUSE_ARROW
  let type := if x - win.pos.x0 < 4 then type + MOUSE_LEFTRIGHT else type
  let type := if win.pos.x1 - x < 4 then type + (MOUSE_LEFTRIGHT + type) else type
  if win.pos.y1 - y < 4 then type + (MOUSE_UPDOWN + if x - win.pos.x0 < 4 then 1 else 0) else type

def Pointers.windowAt (p : Pointers) (x y : Int) : Option Focus :=
  (window_find p.server x y true).1.bind (window_find p.server x y true).2.windowLookup

def getPointerType (p : Pointers) (glob_loopmove : Bool) (x y : Int) : Int :=
  if glob_loopmove then MOUSE_MOVE
  else match p.windowAt x y with
    | none => MOUSE_ARROW
    | some f =>
      if intersectPixel f.win.work x y then p.mtype f.win.id
      else if f.win.flags.has W_RESIZE then borderType f.win x y
      else MOUSE_ARROW

/-- `mouse_show` at a mouse position, with the type it computes. While a window is being moved the tree is not searched. -/
def mouse_show_at (p : Pointers) (glob_loopmove : Bool) (x y : Int) : Pointers :=
  { p with
    server := if glob_loopmove then p.server else (window_find p.server x y true).2
    type := getPointerType p glob_loopmove x y }

def Pointers.created (p : Pointers) (id : Nat) : Pointers :=
  { p with mtype := Function.update p.mtype id MOUSE_ARROW, mdata := Function.update p.mdata id none }

def Pointers.deleted (p : Pointers) (l : List Window) : Pointers :=
  { p with
    mtype := fun id => if id ∈ l.map Window.id then MOUSE_ARROW else p.mtype id
    mdata := fun id => if id ∈ l.map Window.id then none else p.mdata id }

inductive PointerEvent where
  | packet (handle : Nat) (type : Int)
  | show (glob_loopmove : Bool) (x y : Int)
  | window

inductive PointerStep (D : Driver) : Pointers → PointerEvent → Pointers → Prop
  | packet (p : Pointers) (alloc : Bool) (handle : Nat) (type : Int) (data : WMouse) :
      PointerStep D p (.packet handle type) (client_setmousepointer p alloc handle type data)
  | show (p : Pointers) (glob_loopmove : Bool) (x y : Int) :
      PointerStep D p (.show glob_loopmove x y) (mouse_show_at p glob_loopmove x y)
  | create (p : Pointers) {s' : Server} {id : Nat} (cptr : Client) (wwidth wheight : Int) (flags : Flags)
      (parent : Focus) (hp : parent.zip = p.server.tree) (hid : id ≠ 0)
      (hc : createWindow D p.server cptr wwidth wheight flags parent = some ((id : Int), s')) :
      PointerStep D p .window { p.created id with server := s' }
  | delete (p : Pointers) (f : Focus) (hf : f.zip = p.server.tree)
      (h0 : (window_delete D p.server f).1 = 0) :
      PointerStep D p .window
        { p.deleted (f.win :: f.childs.toList) with server := (window_delete D p.server f).2 }
  /-- A call that neither makes nor deletes a window. -/
  | server (p : Pointers) {s' : Server} (hs : Step D p.server s') (hi : s'.ids.Perm p.server.ids) :
      PointerStep D p .window { p with server := s' }

def AtSides (win : Window) (x y : Int) : Prop :=
  x - win.pos.x0 < 4 ∧ win.pos.x1 - x < 4 ∧ (y - win.pos.y0 < 4 ∨ win.pos.y1 - y < 4)

def PointerEvent.Safe (p : Pointers) : PointerEvent → Prop
  | .packet handle type => (p.server.windowLookup handle).isSome → 0 ≤ type ∧ type ≤ MOUSE_USER
  | .show glob_loopmove x y => glob_loopmove = false → ∀ f ∈ p.windowAt x y,
      intersectPixel f.win.work x y = false → f.win.flags.has W_RESIZE = true → ¬ AtSides f.win x y
  | .window => True

def SafeStep (D : Driver) (p q : Pointers) : Prop := ∃ e, e.Safe p ∧ PointerStep D p e q

structure Pointers.Sound (p : Pointers) : Prop where
  types : ∀ id, 0 ≤ p.mtype id ∧ p.mtype id ≤ MOUSE_USER
  user : ∀ id, p.mtype id = MOUSE_USER → (p.mdata id).isSome
  index : 0 ≤ p.type ∧ p.type < MOUSE_POINTER_TYPES

theorem borderType_index (win : Window) (x y : Int) :
    0 ≤ borderType win x y ∧ (borderType win x y < MOUSE_POINTER_TYPES ↔ ¬ AtSides win x y) := by
  unfold borderType AtSides MOUSE_POINTER_TYPES MOUSE_UPDOWN MOUSE_LEFTRIGHT MOUSE_ARROW
  dsimp only
  split_ifs <;> omega

variable {p : Pointers}

theorem getPointerType_index (hm : ∀ id, 0 ≤ p.mtype id ∧ p.mtype id ≤ MOUSE_USER)
    {glob_loopmove : Bool} {x y : Int} (hs : (PointerEvent.show glob_loopmove x y).Safe p) :
    0 ≤ getPointerType p glob_loopmove x y ∧ getPointerType p glob_loopmove x y < MOUSE_POINTER_TYPES := by
  unfold getPointerType
  cases glob_loopmove with
  | true =>
    rw [if_pos rfl]
    exact ⟨by decide, by decide⟩
  | false =>
    rw [if_neg Bool.false_ne_true]
    split
    · exact ⟨by decide, by decide⟩
    next f hf =>
      split_ifs with hw hr
      · obtain ⟨h0, h7⟩ := hm f.win.id
        exact ⟨h0, lt_of_le_of_lt h7 (by decide)⟩
      · obtain ⟨h0, hi⟩ := borderType_index f.win x y
        exact ⟨h0, hi.mpr (hs rfl f hf (by simpa using hw) hr)⟩
      · exact ⟨by decide, by decide⟩

theorem client_setmousepointer_type (p : Pointers) (alloc : Bool) (handle : Nat) (type : Int) (data : WMouse) :
    (client_setmousepointer p alloc handle type data).type = p.type := by
  unfold client_setmousepointer
  split
  · rfl
  · dsimp only
    split_ifs <;> rfl

theorem client_setmousepointer_user (h : ∀ id, p.mtype id = MOUSE_USER → (p.mdata id).isSome)
    (alloc : Bool) (handle : Nat) (type : Int) (data : WMouse) (id : Nat) :
    (client_setmousepointer p alloc handle type data).mtype id = MOUSE_USER →
      ((client_setmousepointer p alloc handle type data).mdata id).isSome := by
  unfold client_setmousepointer
  split
  · exact h id
  next f hf =>
    dsimp only
    by_cases hid : id = f.win.id
    · subst hid
      by_cases hu : type = MOUSE_USER
      · rw [if_pos hu]
        cases alloc with
        | true => simp
        | false =>
          -- the shape that was there took its type with it
          intro hm
          by_cases hd : (p.mdata f.win.id).isSome = true
          · simp [hd, MOUSE_ARROW, MOUSE_USER] at hm
          · simp only [hd, Bool.false_eq_true, if_false] at hm
            exact absurd (h _ hm) hd
      · rw [if_neg hu]
        simp [hu]
    · split_ifs <;> simpa [update_of_ne hid] using h id

theorem client_setmousepointer_types (h : ∀ id, 0 ≤ p.mtype id ∧ p.mtype id ≤ MOUSE_USER)
    {handle : Nat} {type : Int} (hs : (PointerEvent.packet handle type).Safe p) (alloc : Bool) (data : WMouse)
    (id : Nat) : 0 ≤ (client_setmousepointer p alloc handle type data).mtype id ∧
      (client_setmousepointer p alloc handle type data).mtype id ≤ MOUSE_USER := by
  unfold client_setmousepointer
  split
  · exact h id
  next f hf =>
    have ht := hs (hf ▸ rfl)
    have ha : 0 ≤ MOUSE_ARROW ∧ MOUSE_ARROW ≤ MOUSE_USER := by decide
    dsimp only
    by_cases hid : id = f.win.id
    · subst hid
      split_ifs <;> simp only [update_self]
      all_goals first | exact ht | exact ha | exact h _
    · split_ifs <;> simpa only [update_of_ne hid] using h id

theorem deleted_sound (h : p.Sound) (l : List Window) (s : Server) :
    ({ p.deleted l with server := s } : Pointers).Sound where
  types id := by
    dsimp only [Pointers.deleted]
    split_ifs
    · exact ⟨by decide, by decide⟩
    · exact h.types id
  user id := by
    dsimp only [Pointers.deleted]
    split_ifs
    · exact fun hm => absurd hm (by decide)
    · exact h.user id
  index := h.index

theorem created_sound (h : p.Sound) (new : Nat) (s : Server) :
    ({ p.created new with server := s } : Pointers).Sound where
  types id := by
    dsimp only [Pointers.created]
    rw [update_apply]
    split_ifs
    · exact ⟨by decide, by decide⟩
    · exact h.types id
  user id := by
    dsimp only [Pointers.created]
    rw [update_apply, update_apply]
    split_ifs
    · exact fun hm => absurd hm (by decide)
    · exact h.user id
  index := h.index

theorem safe_step_sound {D : Driver} {p q : Pointers} (hs : SafeStep D p q) (h : p.Sound) : q.Sound := by
  obtain ⟨e, he, hs⟩ := hs
  cases hs with
  | packet alloc handle type data =>
    exact ⟨client_setmousepointer_types h.types he alloc data,
      client_setmousepointer_user h.user alloc handle type data,
      client_setmousepointer_type p alloc handle type data ▸ h.index⟩
  | «show» glob_loopmove x y => exact ⟨h.types, h.user, getPointerType_index h.types he⟩
  | create cptr wwidth wheight flags parent hp hid hc => exact created_sound h _ _
  | delete f hf h0 => exact deleted_sound h _ _
  | server hs hi => exact ⟨h.types, h.user, h.index⟩

def pointer_init (d : Display) (screen : Pixmap) (colors : Colors) : Pointers :=
  { server := window_init d screen colors }

theorem pointer_init_sound (d : Display) (screen : Pixmap) (colors : Colors) :
    (pointer_init d screen colors).Sound where
  types _ := (by decide : 0 ≤ MOUSE_ARROW ∧ MOUSE_ARROW ≤ MOUSE_USER)
  user _ hm := absurd hm (by decide : MOUSE_ARROW ≠ MOUSE_USER)
  index := (by decide : 0 ≤ MOUSE_ARROW ∧ MOUSE_ARROW < MOUSE_POINTER_TYPES)

/-- While the packets have types of the table and no window is too narrow at the mouse, the index stays
in the table and every user's pointer has its shape. -/
theorem pointer_index {D : Driver} {d : Display} {screen : Pixmap} {colors : Colors} {p : Pointers}
    (h : Relation.ReflTransGen (SafeStep D) (pointer_init d screen colors) p) :
    (0 ≤ p.type ∧ p.type < MOUSE_POINTER_TYPES) ∧
      ∀ w ∈ p.server.tree.toList, p.mtype w.id = MOUSE_USER → (p.mdata w.id).isSome := by
  have hsound : p.Sound := by
    induction h with
    | refl => exact pointer_init_sound d screen colors
    | tail _ hs ih => exact safe_step_sound hs ih
  exact ⟨hsound.index, fun w _ => hsound.user w.id⟩

def plainShape : WMouse := ⟨-8, -8, List.replicate 16 0, List.replicate 16 0⟩

def backgroundShown (type : Int) : Pointers :=
  mouse_show_at (client_setmousepointer (pointer_init vga (fun _ => 0) twoColors) true 0 type plainShape) false 320 240

theorem pointer_index_user : (0 ≤ (backgroundShown MOUSE_USER).type ∧ (backgroundShown MOUSE_USER).type < MOUSE_POINTER_TYPES) ∧
    ∀ w ∈ (backgroundShown MOUSE_USER).server.tree.toList, (backgroundShown MOUSE_USER).mtype w.id = MOUSE_USER →
      ((backgroundShown MOUSE_USER).mdata w.id).isSome := by
  apply @pointer_index plain vga (fun _ => 0) twoColors
  refine (Relation.ReflTransGen.single ⟨.packet 0 MOUSE_USER, ?_, .packet _ true 0 MOUSE_USER plainShape⟩).tail
    ⟨.show false 320 240, ?_, .show _ false 320 240⟩
  rotate_left
  · exact fun _ => ⟨by decide, by decide⟩
  · intro _ f hf hw
    have hall : ((client_setmousepointer (pointer_init vga (fun _ => 0) twoColors) true 0 MOUSE_USER
        plainShape).windowAt 320 240).all (fun f => intersectPixel f.win.work 320 240) = true := by
      decide +kernel
    rw [Option.mem_def.mp hf, Option.all_some, hw] at hall
    exact absurd hall Bool.false_ne_true

theorem pointer_index_outside : ¬ ∀ p, Relation.ReflTransGen (fun p q => ∃ e, PointerStep plain p e q)
    (pointer_init vga (fun _ => 0) twoColors) p → (0 ≤ p.type ∧ p.type < MOUSE_POINTER_TYPES) ∧
        ∀ w ∈ p.server.tree.toList, p.mtype w.id = MOUSE_USER → (p.mdata w.id).isSome := by
  intro h
  have hrun := h (backgroundShown 8) ((Relation.ReflTransGen.single ⟨_, .packet _ true 0 8 plainShape⟩).tail
    ⟨_, .show _ false 320 240⟩)
  exact absurd hrun.1.2 (by decide +kernel)

end WWindowSystem
