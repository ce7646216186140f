import Mathlib.Algebra.Order.BigOperators.Group.List
import Mathlib.Data.List.Nodup
import Mathlib.Logic.Function.Basic
import WWindowSystem.Library.Words

namespace WWindowSystem

open List Function

abbrev CString := List Byte

def ascii (s : String) : CString := s.toList.map fun c => BitVec.ofNat 8 c.toNat

def MAXFONTS : Nat := 40
def MAXFAMILYNAME : Nat := 16
def DEF_WFONTFAMILY : CString := ascii "fixed"
def DEF_WFONTSIZE : Int := 10
def WFONT_EXTENSION : CString := ascii "wfnt"

def F_REVERSE : BitVec 16 := 0x0001
def F_UNDERLINE : BitVec 16 := 0x0002
def F_ITALIC : BitVec 16 := 0x0004
def F_BOLD : BitVec 16 := 0x0008
def F_LIGHT : BitVec 16 := 0x0010

structure FontFile where
  height : Int
  flags : BitVec 16
  styles : BitVec 16
  baseline : Int
  maxwidth : Int
  family : List Byte
  widths : Byte → Byte

structure FontSlot where
  name : CString
  numused : Nat
  file : FontFile

structure FontState where
  glob_font : Nat → FontSlot
  clients : List Nat
  font : Nat → List Nat

structure FontConfig where
  glob_fontfamily : Option CString
  glob_fontsize : Int

def isalnum (c : Byte) : Bool :=
  (0x30 ≤ c && c ≤ 0x39) || (0x41 ≤ c && c ≤ 0x5a) || (0x61 ≤ c && c ≤ 0x7a)

def sizeDigit (unit size : Int) : CString × Int :=
  if size.tdiv unit ≠ 0 then ([BitVec.ofInt 8 (0x30 + size.tdiv unit)], size.tmod unit) else ([], size)

def compose_name (cfg : FontConfig) (family : CString) (size : Int) (styles : BitVec 16) : CString :=
  let family := if family = [] then cfg.glob_fontfamily.getD DEF_WFONTFAMILY else family
  let size := if size = 0 then if cfg.glob_fontsize > 0 then cfg.glob_fontsize else DEF_WFONTSIZE
    else size
  let hundreds := sizeDigit 100 size
  let tens := sizeDigit 10 hundreds.2
  let style (mask : BitVec 16) (c : String) : CString := if styles &&& mask ≠ 0 then ascii c else []
  let fname := (family.takeWhile isalnum).take MAXFAMILYNAME ++ hundreds.1 ++ tens.1 ++
    [BitVec.ofInt 8 (0x30 + tens.2)] ++ style F_BOLD "b" ++ style F_ITALIC "i" ++ style F_LIGHT "l" ++
    style F_REVERSE "r" ++ style F_UNDERLINE "u" ++ ascii "." ++ WFONT_EXTENSION
  fname.takeWhile (· ≠ 0)

def FontState.setSlot (s : FontState) (idx : Nat) (slot : FontSlot) : FontState :=
  { s with glob_font := Function.update s.glob_font idx slot }

def FontState.setList (s : FontState) (cptr : Nat) (list : List Nat) : FontState :=
  { s with font := Function.update s.font cptr list }

def FontState.loaded (s : FontState) (fname : CString) : Option Nat :=
  (List.range MAXFONTS).find? fun idx => (s.glob_font idx).numused ≠ 0 ∧ (s.glob_font idx).name = fname

def font_loadfont (files : CString → Option FontFile) (s : FontState) (fname : CString) :
    Option (Nat × FontState) := do
  let idx ← (List.range MAXFONTS).find? fun idx => (s.glob_font idx).numused = 0
  let file ← files fname
  some (idx, s.setSlot idx { name := fname, numused := 1, file })

def client_loadfont (cfg : FontConfig) (files : CString → Option FontFile) (s : FontState)
    (cptr : Nat) (family : CString) (size : Int) (styles : BitVec 16) :
    Option (Nat × FontFile) × FontState :=
  let fname := compose_name cfg family size styles
  match s.loaded fname with
  | some idx =>
    let slot := s.glob_font idx
    if idx ∈ s.font cptr then (some (idx, slot.file), s)
    else (some (idx, slot.file),
      (s.setSlot idx { slot with numused := slot.numused + 1 }).setList cptr (idx :: s.font cptr))
  | none =>
    match font_loadfont files s fname with
    | none => (none, s)
    | some (idx, s) => (some (idx, (s.glob_font idx).file), s.setList cptr (idx :: s.font cptr))

def client_unloadfont (s : FontState) (cptr : Nat) (fonthandle : Int) : Int × FontState :=
  if fonthandle < 0 ∨ fonthandle ≥ MAXFONTS ∨ (s.glob_font fonthandle.toNat).numused = 0 then (-1, s)
  else
    let h := fonthandle.toNat
    if h ∈ s.font cptr then
      let slot := s.glob_font h
      (0, (s.setList cptr ((s.font cptr).erase h)).setSlot h { slot with numused := slot.numused - 1 })
    else (-1, s)

def killClientFonts (s : FontState) (cptr : Nat) : FontState :=
  let s' := (s.font cptr).foldl (fun s h =>
    let slot := s.glob_font h
    s.setSlot h { slot with numused := slot.numused - 1 }) s
  { s'.setList cptr [] with clients := s.clients.erase cptr }

def FontState.uses (s : FontState) (h : Nat) : Nat := (s.clients.map fun c => (s.font c).count h).sum

structure FontState.Counted (s : FontState) : Prop where
  nodup : s.clients.Nodup
  used : ∀ h, s.uses h ≤ (s.glob_font h).numused

theorem sum_update {l : List Nat} (hn : l.Nodup) {c : Nat} (hc : c ∈ l) (f : Nat → Nat) (v : Nat) :
    (l.map (Function.update f c v)).sum + f c = (l.map f).sum + v := by
  induction l with
  | nil => cases hc
  | cons a l ih =>
    obtain ⟨ha, hn⟩ := nodup_cons.mp hn
    rw [map_cons, map_cons, sum_cons, sum_cons]
    by_cases hac : a = c
    · subst hac
      have hrest : l.map (Function.update f a v) = l.map f := by
        apply map_congr_left
        intro b hb
        have hba : b ≠ a := by
          rintro rfl
          exact ha hb
        rw [update_of_ne hba]
      rw [update_self, hrest]
      omega
    · have hc' : c ∈ l := (mem_cons.mp hc).resolve_left (Ne.symm hac)
      have := ih hn hc'
      rw [update_of_ne hac]
      omega

variable {s : FontState} {cptr : Nat}

theorem setList_uses (hn : s.clients.Nodup) (hc : cptr ∈ s.clients) (list : List Nat) (i : Nat) :
    (s.setList cptr list).uses i + (s.font cptr).count i = s.uses i + list.count i := by
  have hs := sum_update hn hc (fun c => (s.font c).count i) (list.count i)
  have hf : (fun c => ((s.setList cptr list).font c).count i) =
      Function.update (fun c => (s.font c).count i) cptr (list.count i) := by
    funext c
    change (Function.update s.font cptr list c).count i = _
    by_cases hcc : c = cptr
    · rw [hcc, update_self, update_self]
    · rw [update_of_ne hcc, update_of_ne hcc]
  rw [FontState.uses, hf]
  exact hs

theorem count_le_uses (hc : cptr ∈ s.clients) (i : Nat) : (s.font cptr).count i ≤ s.uses i := by
  apply single_le_sum (fun _ _ => Nat.zero_le _)
  exact mem_map_of_mem hc

theorem FontState.Counted.numused (h : s.Counted) (hc : cptr ∈ s.clients) {i : Nat}
    (hi : i ∈ s.font cptr) : (s.glob_font i).numused ≠ 0 := by
  have h1 := count_pos_iff.mpr hi
  have h2 := count_le_uses hc i
  have h3 := h.used i
  omega

theorem FontState.Counted.change (h : s.Counted) (hc : cptr ∈ s.clients) {idx : Nat}
    {slot : FontSlot} {list : List Nat} (ho : ∀ i ≠ idx, list.count i ≤ (s.font cptr).count i)
    (hs : (s.glob_font idx).numused + list.count idx ≤ slot.numused + (s.font cptr).count idx) :
    ((s.setSlot idx slot).setList cptr list).Counted := by
  refine ⟨h.nodup, fun i => ?_⟩
  have hu := setList_uses (s := s.setSlot idx slot) h.nodup hc list i
  have hold := h.used i
  change (s.setSlot idx slot).uses i ≤ (s.glob_font i).numused at hold
  change _ + (s.font cptr).count i = _ at hu
  change _ ≤ (Function.update s.glob_font idx slot i).numused
  by_cases hi : i = idx
  · subst hi
    rw [update_self]
    omega
  · rw [update_of_ne hi]
    have := ho i hi
    omega

theorem client_loadfont_counted (cfg : FontConfig) (files : CString → Option FontFile)
    (h : s.Counted) (hc : cptr ∈ s.clients) (family : CString) (size : Int) (styles : BitVec 16) :
    (client_loadfont cfg files s cptr family size styles).2.Counted := by
  have hcons (idx i : Nat) (hi : i ≠ idx) : (idx :: s.font cptr).count i ≤ (s.font cptr).count i := by
    rw [count_cons_of_ne (Ne.symm hi)]
  unfold client_loadfont
  dsimp only
  split
  next idx _ =>
    split_ifs
    · exact h
    · apply h.change hc (hcons idx)
      rw [count_cons_self]
      dsimp only
      omega
  · unfold font_loadfont
    cases hf : (List.range MAXFONTS).find? fun idx => (s.glob_font idx).numused = 0 with
    | none => exact h
    | some idx =>
      cases files (compose_name cfg family size styles) with
      | none => exact h
      | some file =>
        have h0 : (s.glob_font idx).numused = 0 := by simpa using find?_some hf
        apply h.change hc (hcons idx)
        rw [count_cons_self]
        dsimp only
        omega

theorem setSlot_setList (idx : Nat) (slot : FontSlot) (list : List Nat) :
    (s.setList cptr list).setSlot idx slot = (s.setSlot idx slot).setList cptr list := rfl

theorem client_unloadfont_counted (h : s.Counted) (hc : cptr ∈ s.clients) (fonthandle : Int) :
    (client_unloadfont s cptr fonthandle).2.Counted := by
  unfold client_unloadfont
  split_ifs with h0
  · exact h
  · dsimp only
    split_ifs with hm
    · rw [setSlot_setList]
      have hpos := count_pos_iff.mpr hm
      apply h.change hc
      · intro i hi
        rw [count_erase_of_ne hi]
      · rw [count_erase_self]
        dsimp only
        omega
    · exact h

theorem giveBack_spec (l : List Nat) (s : FontState) :
    (l.foldl (fun s h => s.setSlot h { s.glob_font h with numused := (s.glob_font h).numused - 1 })
      s).font = s.font ∧
    ∀ i, ((l.foldl (fun s h =>
      s.setSlot h { s.glob_font h with numused := (s.glob_font h).numused - 1 }) s).glob_font i).numused =
        (s.glob_font i).numused - l.count i := by
  induction l generalizing s with
  | nil => exact ⟨rfl, fun i => rfl⟩
  | cons h l ih =>
    rw [foldl_cons]
    obtain ⟨h1, h2⟩ := ih (s.setSlot h { s.glob_font h with numused := (s.glob_font h).numused - 1 })
    refine ⟨h1, fun i => ?_⟩
    rw [h2]
    change (Function.update s.glob_font h _ i).numused - _ = _
    by_cases hi : i = h
    · subst hi
      rw [update_self, count_cons_self]
      dsimp only
      omega
    · rw [update_of_ne hi, count_cons_of_ne (Ne.symm hi)]

theorem uses_other {s' : FontState} {l : List Nat} (hl : s'.clients = l) (ho : ∀ c ∈ l, s'.font c = s.font c)
    (i : Nat) : s'.uses i = (l.map fun c => (s.font c).count i).sum := by
  rw [FontState.uses, hl]
  congr 1
  apply map_congr_left
  intro c hc
  rw [ho c hc]

theorem killClientFonts_counted (h : s.Counted) (hc : cptr ∈ s.clients) : (killClientFonts s cptr).Counted := by
  obtain ⟨h1, h2⟩ := giveBack_spec (s.font cptr) s
  refine ⟨h.nodup.erase cptr, fun i => ?_⟩
  have hsame : ∀ c ∈ s.clients.erase cptr, (killClientFonts s cptr).font c = s.font c := by
    intro c hce
    have hne : c ≠ cptr := by
      rintro rfl
      exact h.nodup.not_mem_erase hce
    rw [← h1]
    exact update_of_ne hne ..
  have hcl : (killClientFonts s cptr).clients = s.clients.erase cptr := rfl
  rw [uses_other hcl hsame]
  have hold := h.used i
  rw [FontState.uses, ((perm_cons_erase hc).map _).sum_eq, map_cons, sum_cons] at hold
  have hnum := h2 i
  change ((killClientFonts s cptr).glob_font i).numused = _ at hnum
  omega

theorem connect_counted (h : s.Counted) (hc : cptr ∉ s.clients) :
    ({ s.setList cptr [] with clients := cptr :: s.clients } : FontState).Counted := by
  refine ⟨nodup_cons.mpr ⟨hc, h.nodup⟩, fun i => ?_⟩
  have hold := h.used i
  have hself : (Function.update s.font cptr [] cptr).count i = 0 := by
    rw [update_self, count_nil]
  have hrest : (s.clients.map fun c => (Function.update s.font cptr [] c).count i) =
      s.clients.map fun c => (s.font c).count i := by
    apply map_congr_left
    intro c hcc
    have hne : c ≠ cptr := by
      rintro rfl
      exact hc hcc
    rw [update_of_ne hne]
  change ((cptr :: s.clients).map fun c => (Function.update s.font cptr [] c).count i).sum ≤ _
  rw [map_cons, sum_cons, hself, hrest, Nat.zero_add]
  exact hold

end WWindowSystem
