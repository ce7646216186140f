import Mathlib.Logic.Relation
import WWindowSystem.Library.Forest
import WWindowSystem.Server.Fonts

namespace WWindowSystem.FontUse

open List Function

structure WINDOW where
  id : Nat
  cptr : Option Nat
  font : Option Nat
  deriving DecidableEq

/-- The fonts with the windows: `root` is `glob_rootwindow`, `freed` the slots whose data was freed since they were loaded. -/
structure Desk where
  fonts : FontState
  root : WINDOW
  childs : Forest WINDOW
  freed : Nat → Bool

def Desk.windows (s : Desk) : List WINDOW := s.root :: s.childs.toList

def Desk.numused (s : Desk) (h : Nat) : Nat := (s.fonts.glob_font h).numused

def wtree_traverse_pre (f : WINDOW → WINDOW × Bool) (s : Desk) : Desk :=
  let r := f s.root
  { s with root := r.1, childs := if r.2 then s.childs else s.childs.visit (fun _ win _ => f win) [] }

def killFont (cptr fp : Nat) (win : WINDOW) : WINDOW × Bool :=
  if win.cptr = some cptr then (if win.font = some fp then { win with font := none } else win, false) else (win, true)

def Desk.setFonts (s : Desk) (fonts : FontState) : Desk :=
  { s with
    fonts
    freed := fun h =>
      if s.numused h = 0 then s.freed h && decide ((fonts.glob_font h).numused = 0)
      else s.freed h || decide ((fonts.glob_font h).numused = 0) }

def unloadfont (s : Desk) (cptr : Nat) (fonthandle : Int) : Int × Desk :=
  let r := client_unloadfont s.fonts cptr fonthandle
  if r.1 = 0 then (0, (wtree_traverse_pre (killFont cptr fonthandle.toNat) s).setFonts r.2) else (r.1, s)

def WINDOW.setFont (handle h : Nat) (win : WINDOW) : WINDOW := if win.id = handle then { win with font := some h } else win

def client_setfont (s : Desk) (cptr handle : Nat) (fonthandle : Int) : Desk :=
  let h := fonthandle.toNat
  if fonthandle < 0 ∨ fonthandle ≥ MAXFONTS then s
  else if s.numused h ≠ 0 ∧ h ∈ s.fonts.font cptr then
    { s with root := s.root.setFont handle h, childs := s.childs.map (·.setFont handle h) }
  else s

inductive Event where
  | connect (cptr : Nat)
  | loadfont (cptr : Nat) (family : CString) (size : Int) (styles : BitVec 16)
  | unloadfont (cptr : Nat) (fonthandle : Int)
  | setfont (cptr handle : Nat) (fonthandle : Int)
  | create (cptr id : Nat)
  | windows
  | disconnect (cptr : Nat)

/-- A window is created without a font. The other requests only move windows in the tree or remove them. -/
inductive Step (cfg : FontConfig) (files : CString → Option FontFile) : Desk → Event → Desk → Prop
  | connect {s : Desk} {cptr : Nat} (hc : cptr ∉ s.fonts.clients) :
      Step cfg files s (.connect cptr)
        { s with fonts := { s.fonts.setList cptr [] with clients := cptr :: s.fonts.clients } }
  | loadfont {s : Desk} {cptr : Nat} (hc : cptr ∈ s.fonts.clients) (family : CString) (size : Int) (styles : BitVec 16) :
      Step cfg files s (.loadfont cptr family size styles)
        (s.setFonts (client_loadfont cfg files s.fonts cptr family size styles).2)
  | unloadfont {s : Desk} {cptr : Nat} (hc : cptr ∈ s.fonts.clients) (fonthandle : Int) :
      Step cfg files s (.unloadfont cptr fonthandle) (unloadfont s cptr fonthandle).2
  | setfont {s : Desk} {cptr : Nat} (hc : cptr ∈ s.fonts.clients) (handle : Nat) (fonthandle : Int) :
      Step cfg files s (.setfont cptr handle fonthandle) (client_setfont s cptr handle fonthandle)
  | create {s : Desk} {cptr id : Nat} {t : Forest WINDOW} (hc : cptr ∈ s.fonts.clients) (hid : ∀ win ∈ s.windows, win.id ≠ id)
      (ht : t.toList.Perm (⟨id, some cptr, none⟩ :: s.childs.toList)) : Step cfg files s (.create cptr id) { s with childs := t }
  | windows {s : Desk} {t : Forest WINDOW} (ht : t.toList.Subperm s.childs.toList) : Step cfg files s .windows { s with childs := t }
  | disconnect {s : Desk} {cptr : Nat} {t : Forest WINDOW} (hc : cptr ∈ s.fonts.clients) (ht : t.toList.Subperm s.childs.toList)
      (hgone : ∀ win ∈ t.toList, win.cptr ≠ some cptr) :
      Step cfg files s (.disconnect cptr) ({ s with childs := t }.setFonts (killClientFonts s.fonts cptr))

/-- No font goes that a window still has: a client unloads none that one of its windows has, and the last user of a font
neither unloads it nor disconnects while another window has it. -/
def Event.Safe (s : Desk) : Event → Prop
  | .unloadfont cptr fonthandle => fonthandle.toNat ∈ s.fonts.font cptr →
      ∀ win ∈ s.windows, win.font = some fonthandle.toNat → win.cptr ≠ some cptr ∧ s.numused fonthandle.toNat ≠ 1
  | .disconnect cptr => ∀ win ∈ s.windows, win.cptr ≠ some cptr → ∀ h ∈ s.fonts.font cptr, win.font = some h → s.numused h ≠ 1
  | _ => True

def font_init (slots : Nat → FontSlot) : Desk where
  fonts := ⟨slots, [], fun _ => []⟩
  root := ⟨1, none, none⟩
  childs := .node ⟨0, none, none⟩ .nil .nil
  freed := fun _ => false

structure Sound (slots : Nat → FontSlot) (s : Desk) : Prop where
  nodup : s.fonts.clients.Nodup
  numused : ∀ h, s.numused h = (slots h).numused + s.fonts.uses h
  lists : ∀ cptr, (s.fonts.font cptr).Nodup
  freed : ∀ h, s.freed h = true → s.numused h = 0
  windows : ∀ win ∈ s.windows, ∀ h, win.font = some h → s.numused h ≠ 0
  root : s.root.cptr = none

variable {cfg : FontConfig} {files : CString → Option FontFile} {s t : Desk} {cptr : Nat} {slots : Nat → FontSlot}

def Exact (slots : Nat → FontSlot) (f : FontState) : Prop := ∀ h, (f.glob_font h).numused = (slots h).numused + f.uses h

theorem Exact.change {f : FontState} (h : Exact slots f) (hn : f.clients.Nodup) (hc : cptr ∈ f.clients) {idx : Nat} {slot : FontSlot}
    {list : List Nat} (ho : ∀ i ≠ idx, list.count i = (f.font cptr).count i)
    (hs : (f.glob_font idx).numused + list.count idx = slot.numused + (f.font cptr).count idx) :
    Exact slots ((f.setSlot idx slot).setList cptr list) := by
  intro i
  have hu := setList_uses (s := f.setSlot idx slot) hn hc list i
  have hold := h i
  change _ = _ + (f.setSlot idx slot).uses i at hold
  change _ + (f.font cptr).count i = _ at hu
  change (Function.update f.glob_font idx slot i).numused = _
  by_cases hi : i = idx
  · subst hi
    rw [update_self]
    omega
  · rw [update_of_ne hi]
    have := ho i hi
    omega

variable (f : FontState)

theorem loadfont_cases (cptr : Nat) (family : CString) (size : Int) (styles : BitVec 16) :
    (client_loadfont cfg files f cptr family size styles).2 = f ∨
      ∃ idx slot, (client_loadfont cfg files f cptr family size styles).2 = (f.setSlot idx slot).setList cptr (idx :: f.font cptr) ∧
        slot.numused = (f.glob_font idx).numused + 1 ∧ (idx ∉ f.font cptr ∨ (f.glob_font idx).numused = 0) := by
  unfold client_loadfont
  dsimp only
  split
  next idx _ =>
    split_ifs with hidx
    · exact .inl rfl
    · exact .inr ⟨idx, _, rfl, rfl, .inl hidx⟩
  · unfold font_loadfont
    cases hf : (List.range MAXFONTS).find? fun idx => (f.glob_font idx).numused = 0 with
    | none => exact .inl rfl
    | some idx =>
      cases files (compose_name cfg family size styles) with
      | none => exact .inl rfl
      | some file =>
        have h0 : (f.glob_font idx).numused = 0 := by simpa using find?_some hf
        exact .inr ⟨idx, _, rfl, by simp [h0], .inr h0⟩

theorem unloadfont_cases (cptr : Nat) (fonthandle : Int) : (client_unloadfont f cptr fonthandle).1 ≠ 0 ∨
      fonthandle.toNat ∈ f.font cptr ∧ ∃ slot, (client_unloadfont f cptr fonthandle).2 =
        (f.setSlot fonthandle.toNat slot).setList cptr ((f.font cptr).erase fonthandle.toNat) ∧
        slot.numused = (f.glob_font fonthandle.toNat).numused - 1 := by
  unfold client_unloadfont
  split_ifs with h0
  · exact .inl (by simp)
  · dsimp only
    split_ifs with hm
    · exact .inr ⟨hm, _, rfl, rfl⟩
    · exact .inl (by simp)

theorem slot_numused (idx : Nat) (slot : FontSlot) (list : List Nat) (i : Nat) :
    (((f.setSlot idx slot).setList cptr list).glob_font i).numused =
      if i = idx then slot.numused else (f.glob_font i).numused := by
  change (Function.update f.glob_font idx slot i).numused = _
  rw [update_apply]
  split_ifs <;> rfl

theorem list_font (idx : Nat) (slot : FontSlot) (list : List Nat) (c : Nat) :
    ((f.setSlot idx slot).setList cptr list).font c = if c = cptr then list else f.font c := by
  change Function.update f.font cptr list c = _
  rw [update_apply]

theorem Sound.used (h : Sound slots s) (hc : cptr ∈ s.fonts.clients) {i : Nat} (hi : i ∈ s.fonts.font cptr) : s.numused i ≠ 0 := by
  have hcount := count_pos_iff.mpr hi
  have huses := count_le_uses hc i
  have hnum := h.numused i
  omega

theorem Sound.setFonts (h : Sound slots s) {f : FontState} (hn : f.clients.Nodup) (he : Exact slots f) (hl : ∀ c, (f.font c).Nodup)
    (hw : ∀ win ∈ s.windows, ∀ i, win.font = some i → (f.glob_font i).numused ≠ 0) : Sound slots (s.setFonts f) where
  nodup := hn
  numused := he
  lists := hl
  freed i hi := by
    change (f.glob_font i).numused = 0
    have hfreed := h.freed i
    change (if s.numused i = 0 then _ else _) = true at hi
    split_ifs at hi with h0
    · exact of_decide_eq_true (Bool.and_eq_true_iff.mp hi).2
    · rcases Bool.or_eq_true_iff.mp hi with hold | hnew
      · exact absurd (hfreed hold) h0
      · exact of_decide_eq_true hnew
  windows := hw
  root := h.root

theorem loadfont_sound (h : Sound slots s) (hc : cptr ∈ s.fonts.clients) (family : CString) (size : Int) (styles : BitVec 16) :
    Sound slots (s.setFonts (client_loadfont cfg files s.fonts cptr family size styles).2) := by
  rcases @loadfont_cases cfg files s.fonts cptr family size styles with hsame | ⟨idx, slot, hnew, hslot, hidx⟩
  · rw [hsame]
    exact h.setFonts h.nodup h.numused h.lists h.windows
  · rw [hnew]
    have hout : idx ∉ s.fonts.font cptr := hidx.elim id fun h0 hi => h.used hc hi h0
    refine h.setFonts h.nodup (Exact.change h.numused h.nodup hc (fun i hi => count_cons_of_ne (Ne.symm hi)) ?_) (fun c => ?_)
      fun win hwin i hi => ?_
    · rw [count_cons_self, hslot]
      omega
    · rw [list_font]
      split_ifs
      · exact nodup_cons.mpr ⟨hout, h.lists cptr⟩
      · exact h.lists c
    · rw [slot_numused]
      split_ifs
      · omega
      · exact h.windows win hwin i hi

theorem traverse_killFont (h : s.root.cptr = none) (cptr fp : Nat) : wtree_traverse_pre (killFont cptr fp) s = s := by
  have hroot : killFont cptr fp s.root = (s.root, true) := by simp [killFont, h]
  simp only [wtree_traverse_pre, hroot, if_true]

theorem unloadfont_eq (h : s.root.cptr = none) (cptr : Nat) (fonthandle : Int) :
    (client_unloadfont s.fonts cptr fonthandle).1 ≠ 0 ∧ (unloadfont s cptr fonthandle).1 ≠ 0 ∧ (unloadfont s cptr fonthandle).2 = s ∨
      (client_unloadfont s.fonts cptr fonthandle).1 = 0 ∧
        (unloadfont s cptr fonthandle).2 = s.setFonts (client_unloadfont s.fonts cptr fonthandle).2 := by
  unfold unloadfont
  dsimp only
  rw [traverse_killFont h]
  by_cases h0 : (client_unloadfont s.fonts cptr fonthandle).1 = 0
  · rw [if_pos h0]
    exact .inr ⟨h0, rfl⟩
  · rw [if_neg h0]
    exact .inl ⟨h0, h0, rfl⟩

theorem unloadfont_sound (h : Sound slots s) (hc : cptr ∈ s.fonts.clients) (fonthandle : Int)
    (hsafe : (Event.unloadfont cptr fonthandle).Safe s) : Sound slots (unloadfont s cptr fonthandle).2 := by
  rcases unloadfont_eq h.root cptr fonthandle with ⟨-, -, heq⟩ | ⟨h0, heq⟩
  · rw [heq]
    exact h
  · rw [heq]
    rcases unloadfont_cases s.fonts cptr fonthandle with hne | ⟨hmem, slot, hnew, hslot⟩
    · exact absurd h0 hne
    · rw [hnew]
      have hpos := count_pos_iff.mpr hmem
      have hused : (s.fonts.glob_font fonthandle.toNat).numused ≠ 0 := h.used hc hmem
      refine h.setFonts h.nodup (Exact.change h.numused h.nodup hc (fun i hi => count_erase_of_ne hi) ?_) (fun c => ?_)
        fun win hwin i hi => ?_
      · rw [count_erase_self]
        omega
      · rw [list_font]
        split_ifs
        · exact (h.lists cptr).erase _
        · exact h.lists c
      · rw [slot_numused]
        split_ifs with hsame
        · subst hsame
          have hone : (s.fonts.glob_font fonthandle.toNat).numused ≠ 1 := (hsafe hmem win hwin hi).2
          omega
        · exact h.windows win hwin i hi

theorem killFonts_exact {f : FontState} (h : Exact slots f) (hn : f.clients.Nodup) (hc : cptr ∈ f.clients) :
    Exact slots (killClientFonts f cptr) ∧
      (∀ i, ((killClientFonts f cptr).glob_font i).numused = (f.glob_font i).numused - (f.font cptr).count i) ∧
      ∀ c, (killClientFonts f cptr).font c = if c = cptr then [] else f.font c := by
  obtain ⟨h1, h2⟩ := giveBack_spec (f.font cptr) f
  have hfont (c : Nat) : (killClientFonts f cptr).font c = if c = cptr then [] else f.font c := by
    have hlists : (killClientFonts f cptr).font = Function.update f.font cptr [] := by
      rw [← h1]
      rfl
    rw [hlists, update_apply]
  refine ⟨fun i => ?_, h2, hfont⟩
  have hsame : ∀ c ∈ f.clients.erase cptr, (killClientFonts f cptr).font c = f.font c := by
    intro c hce
    have hne : c ≠ cptr := by
      rintro rfl
      exact hn.not_mem_erase hce
    rw [hfont, if_neg hne]
  have hcl : (killClientFonts f cptr).clients = f.clients.erase cptr := rfl
  rw [uses_other hcl hsame]
  have hold := h i
  rw [FontState.uses, ((perm_cons_erase hc).map _).sum_eq, map_cons, sum_cons] at hold
  have hnum := h2 i
  change ((killClientFonts f cptr).glob_font i).numused = _ at hnum
  omega

theorem disconnect_sound (h : Sound slots s) {childs : Forest WINDOW} (hc : cptr ∈ s.fonts.clients)
    (ht : childs.toList.Subperm s.childs.toList) (hgone : ∀ win ∈ childs.toList, win.cptr ≠ some cptr)
    (hsafe : (Event.disconnect cptr).Safe s) :
    Sound slots ({ s with childs }.setFonts (killClientFonts s.fonts cptr)) := by
  have hsub : ∀ win ∈ s.root :: childs.toList, win ∈ s.windows ∧ win.cptr ≠ some cptr := by
    intro win hwin
    rcases mem_cons.mp hwin with rfl | hwin
    · exact ⟨mem_cons_self, by simp [h.root]⟩
    · exact ⟨mem_cons_of_mem _ (ht.subset hwin), hgone win hwin⟩
  have hleft : Sound slots { s with childs } :=
    ⟨h.nodup, h.numused, h.lists, h.freed, fun win hwin => h.windows win (hsub win hwin).1, h.root⟩
  obtain ⟨hexact, hnum, hfont⟩ := killFonts_exact h.numused h.nodup hc
  refine hleft.setFonts (h.nodup.erase cptr) hexact (fun c => ?_) fun win hwin i hi => ?_
  · rw [hfont]
    split_ifs
    · exact nodup_nil
    · exact h.lists c
  · obtain ⟨hold, hother⟩ := hsub win hwin
    have hused := h.windows win hold i hi
    rw [hnum]
    by_cases hmem : i ∈ s.fonts.font cptr
    · have hone := hsafe win hold hother i hmem hi
      have hcount := nodup_iff_count_le_one.mp (h.lists cptr) i
      change (s.fonts.glob_font i).numused ≠ 1 at hone
      change (s.fonts.glob_font i).numused ≠ 0 at hused
      omega
    · rw [count_eq_zero_of_not_mem hmem]
      exact hused

theorem setfont_sound (h : Sound slots s) (handle : Nat) (fonthandle : Int) :
    Sound slots (client_setfont s cptr handle fonthandle) := by
  unfold client_setfont
  dsimp only
  split_ifs with hrange hset
  · exact h
  · refine ⟨h.nodup, h.numused, h.lists, h.freed, fun win hwin i hi => ?_, ?_⟩
    · obtain ⟨old, hold, rfl⟩ : ∃ old ∈ s.windows, old.setFont handle fonthandle.toNat = win := by
        rcases mem_cons.mp hwin with rfl | hwin
        · exact ⟨s.root, mem_cons_self, rfl⟩
        · rw [Forest.toList_map] at hwin
          obtain ⟨old, hold, rfl⟩ := mem_map.mp hwin
          exact ⟨old, mem_cons_of_mem _ hold, rfl⟩
      unfold WINDOW.setFont at hi
      split_ifs at hi
      · obtain rfl := Option.some.inj hi
        exact hset.1
      · exact h.windows old hold i hi
    · unfold WINDOW.setFont
      dsimp only
      split_ifs <;> exact h.root
  · exact h

theorem connect_sound (h : Sound slots s) (hc : cptr ∉ s.fonts.clients) :
    Sound slots { s with fonts := { s.fonts.setList cptr [] with clients := cptr :: s.fonts.clients } } where
  nodup := nodup_cons.mpr ⟨hc, h.nodup⟩
  numused i := by
    have hold := h.numused i
    have hrest : (s.fonts.clients.map fun c => (Function.update s.fonts.font cptr [] c).count i) =
        s.fonts.clients.map fun c => (s.fonts.font c).count i := by
      apply map_congr_left
      intro c hcc
      rw [update_of_ne fun heq : c = cptr => hc (heq ▸ hcc)]
    change s.numused i = _ + ((cptr :: s.fonts.clients).map fun c => (Function.update s.fonts.font cptr [] c).count i).sum
    rw [map_cons, sum_cons, update_self, count_nil, hrest, Nat.zero_add]
    exact hold
  lists c := by
    change (Function.update s.fonts.font cptr [] c).Nodup
    rw [update_apply]
    split_ifs
    · exact nodup_nil
    · exact h.lists c
  freed := h.freed
  windows := h.windows
  root := h.root

theorem step_sound {e : Event} (hs : Step cfg files s e t) (hsafe : e.Safe s) (h : Sound slots s) : Sound slots t := by
  cases hs with
  | connect hc => exact connect_sound h hc
  | loadfont hc family size styles => exact loadfont_sound h hc family size styles
  | unloadfont hc fonthandle => exact unloadfont_sound h hc fonthandle hsafe
  | setfont hc handle fonthandle => exact setfont_sound h handle fonthandle
  | create hc hid ht =>
    refine ⟨h.nodup, h.numused, h.lists, h.freed, fun win hwin i hi => ?_, h.root⟩
    rcases mem_cons.mp hwin with rfl | hwin
    · exact h.windows _ mem_cons_self i hi
    · rcases mem_cons.mp (ht.subset hwin) with rfl | hold
      · cases hi
      · exact h.windows win (mem_cons_of_mem _ hold) i hi
  | windows ht =>
    refine ⟨h.nodup, h.numused, h.lists, h.freed, fun win hwin i hi => ?_, h.root⟩
    rcases mem_cons.mp hwin with rfl | hwin
    · exact h.windows _ mem_cons_self i hi
    · exact h.windows win (mem_cons_of_mem _ (ht.subset hwin)) i hi
  | disconnect hc ht hgone => exact disconnect_sound h hc ht hgone hsafe

theorem font_init_sound (slots : Nat → FontSlot) : Sound slots (font_init slots) where
  nodup := nodup_nil
  numused _ := rfl
  lists _ := nodup_nil
  freed _ h := absurd h Bool.false_ne_true
  windows win hwin i hi := by
    simp only [Desk.windows, font_init, Forest.toList, append_nil, mem_cons, not_mem_nil, or_false] at hwin
    rcases hwin with rfl | rfl <;> cases hi
  root := rfl

def twoFonts (i : Nat) : FontSlot := ⟨[], if i < 2 then 1 else 0, ⟨10, 0, 0, 8, 6, [], fun _ => 6⟩⟩

def anyFile (_ : CString) : Option FontFile := some ⟨10, 0, 0, 8, 6, [], fun _ => 6⟩

def oneWindow : Desk :=
  let s := { font_init twoFonts with fonts := { (font_init twoFonts).fonts.setList 0 [] with clients := [0] } }
  let s := { s with childs := .node ⟨2, some 0, none⟩ .nil s.childs }
  client_setfont (s.setFonts (client_loadfont ⟨none, 0⟩ anyFile s.fonts 0 [] 0 0).2) 0 2 2

theorem oneWindow_reached : Relation.ReflTransGen (fun s t => ∃ e, Step ⟨none, 0⟩ anyFile s e t) (font_init twoFonts) oneWindow :=
  ((((Relation.ReflTransGen.refl.tail ⟨.connect 0, .connect not_mem_nil⟩).tail
    ⟨.create 0 2, .create mem_cons_self (by decide) (List.Perm.refl _)⟩).tail
    ⟨.loadfont 0 [] 0 0, .loadfont mem_cons_self [] 0 0⟩).tail
    ⟨.setfont 0 2 2, .setfont (by decide +kernel) 2 2⟩)

end WWindowSystem.FontUse
