import Mathlib.Algebra.BigOperators.Group.List.Basic
import WWindowSystem.Library.Run
import WWindowSystem.Server.Fonts

namespace WWindowSystem

open List Function

structure WFONT where
  addr : Nat
  handle : Nat
  height : Int
  family : CString
  flags : BitVec 16
  styles : BitVec 16
  baseline : Int
  maxwidth : Int
  widths : Byte → Byte
  used : Nat

structure FontLink where
  cfg : FontConfig
  cptr : Nat
  fname : CString
  fsize : Int

/-- `font` of each window that the library knows, and for each address how often the font there was
loaded more than it was unloaded. -/
structure FontLib where
  server : FontState
  WFonts : List WFONT
  wins : Nat → Option (Option Nat)
  held : Nat → Nat

def FontLib.setUsed (S : FontLib) (addr used : Nat) : FontLib :=
  { S with WFonts := S.WFonts.map fun f => if f.addr = addr then { f with used } else f }

def FontLib.hold (S : FontLib) (addr held : Nat) : FontLib :=
  { S with held := Function.update S.held addr held }

def w_loadfont (L : FontLink) (files : CString → Option FontFile) (S : FontLib) (addr : Nat)
    (family : CString) (size : Int) (stylemask : BitVec 16) : Option Nat × FontLib :=
  let checkname := if family ≠ [] then family else L.fname
  let checksize := if size ≠ 0 then size else L.fsize
  match S.WFonts.find? fun f => f.family = checkname ∧ f.height = checksize ∧ f.styles = stylemask with
  | some f => (some f.addr, (S.setUsed f.addr (f.used + 1)).hold f.addr (S.held f.addr + 1))
  | none =>
    if addr ∈ S.WFonts.map WFONT.addr then (none, S)
    else
      let ret := client_loadfont L.cfg files S.server L.cptr (family.take (MAXFAMILYNAME - 1)) size
        stylemask
      match ret.1 with
      | none => (none, { S with server := ret.2 })
      | some (handle, file) =>
        let fptr : WFONT :=
          { addr, handle, height := file.height, flags := file.flags, styles := file.styles
            baseline := file.baseline, maxwidth := file.maxwidth, widths := file.widths
            family := (file.family.take (MAXFAMILYNAME - 1)).takeWhile (· ≠ 0), used := 1 }
        (some addr,
          { S with server := ret.2, WFonts := fptr :: S.WFonts }.hold addr (S.held addr + 1))

def w_unloadfont (L : FontLink) (S : FontLib) (font : Nat) : Int × FontLib :=
  match S.WFonts.find? fun f => f.addr = font with
  | none => (-1, S)
  | some f =>
    let S := S.hold font (S.held font - 1)
    if f.used - 1 > 0 then (0, S.setUsed font (f.used - 1))
    else
      let ret := client_unloadfont S.server L.cptr f.handle
      (ret.1, { S with server := ret.2, WFonts := S.WFonts.filter fun g => g.addr ≠ font })

def w_setfont (S : FontLib) (win font : Nat) : Option Nat × FontLib :=
  match S.wins win with
  | none => (none, S)
  | some oldfont =>
    if font ∈ S.WFonts.map WFONT.addr then
      (oldfont, { S with wins := Function.update S.wins win (some (some font)) })
    else (none, S)

inductive FontOther where
  | connect
  | disconnect
  | load (files : CString → Option FontFile) (family : CString) (size : Int) (styles : BitVec 16)
  | unload (fonthandle : Int)

def FontOther.run (cfg : FontConfig) (s : FontState) (cptr : Nat) : FontOther → FontState
  | .connect =>
    if cptr ∈ s.clients then s else { s.setList cptr [] with clients := cptr :: s.clients }
  | .disconnect => if cptr ∈ s.clients then killClientFonts s cptr else s
  | .load files family size styles =>
    if cptr ∈ s.clients then (client_loadfont cfg files s cptr family size styles).2 else s
  | .unload fonthandle =>
    if cptr ∈ s.clients then (client_unloadfont s cptr fonthandle).2 else s

inductive FontCall where
  | loadfont (files : CString → Option FontFile) (addr : Nat) (family : CString) (size : Int)
      (stylemask : BitVec 16)
  | unloadfont (font : Nat)
  | setfont (win font : Nat)
  | create (win : Nat) (ok : Bool)
  | delete (win : Nat) (ok : Bool)
  | other (cptr : Nat) (o : FontOther)

def fontCall (L : FontLink) (S : FontLib) : FontCall → FontLib
  | .loadfont files addr family size stylemask => (w_loadfont L files S addr family size stylemask).2
  | .unloadfont font => (w_unloadfont L S font).2
  | .setfont win font => (w_setfont S win font).2
  | .create win ok =>
    if ok ∧ S.wins win = none then { S with wins := Function.update S.wins win (some none) } else S
  | .delete win ok => if ok then { S with wins := Function.update S.wins win none } else S
  | .other cptr o => if cptr = L.cptr then S else { S with server := o.run L.cfg S.server cptr }

def fontLib_init (L : FontLink) (glob_font : Nat → FontSlot) : FontLib where
  server := ⟨glob_font, [L.cptr], fun _ => []⟩
  WFonts := []
  wins := fun _ => none
  held := fun _ => 0

/-- A font in use stands once in the list and the server knows that the client has it, and the
windows have only fonts in use. -/
structure FontLib.Kept (L : FontLink) (S : FontLib) : Prop where
  listed : ∀ p, 0 < S.held p → (S.WFonts.map WFONT.addr).count p = 1 ∧
    ∀ f ∈ S.WFonts, f.addr = p → f.handle ∈ S.server.font L.cptr
  set : ∀ win p, S.wins win = some (some p) → 0 < S.held p

def FontCall.Safe (S : FontLib) : FontCall → Prop
  | .unloadfont font => 1 < S.held font ∨ ((∀ win, S.wins win ≠ some (some font)) ∧
      ∀ f ∈ S.WFonts, ∀ g ∈ S.WFonts, f.addr = font → g.addr ≠ font → g.handle ≠ f.handle)
  | _ => True

structure FontLib.Ok (L : FontLink) (S : FontLib) : Prop where
  counted : S.server.Counted
  connected : L.cptr ∈ S.server.clients
  addrs : (S.WFonts.map WFONT.addr).Nodup
  known : ∀ f ∈ S.WFonts, f.handle ∈ S.server.font L.cptr
  held : ∀ f ∈ S.WFonts, 0 < f.used ∧ S.held f.addr = f.used
  unheld : ∀ p, p ∉ S.WFonts.map WFONT.addr → S.held p = 0
  set : ∀ win p, S.wins win = some (some p) → p ∈ S.WFonts.map WFONT.addr

theorem FontLib.Ok.kept {L : FontLink} {S : FontLib} (h : S.Ok L) : S.Kept L := by
  have hin (p : Nat) (hp : 0 < S.held p) : p ∈ S.WFonts.map WFONT.addr := by
    by_contra hno
    have := h.unheld p hno
    omega
  constructor
  · intro p hp
    refine ⟨count_eq_one_of_mem h.addrs (hin p hp), fun f hf _ => h.known f hf⟩
  · intro win p hw
    obtain ⟨f, hf, rfl⟩ := mem_map.mp (h.set win p hw)
    have := h.held f hf
    omega

theorem client_loadfont_cases {cfg : FontConfig} {files : CString → Option FontFile} {s s' : FontState}
    {cptr : Nat} {family : CString} {size : Int} {styles : BitVec 16} {ret : Option (Nat × FontFile)}
    (h : client_loadfont cfg files s cptr family size styles = (ret, s')) :
    (ret = none ∧ s' = s) ∨ ∃ idx file, ret = some (idx, file) ∧ s'.clients = s.clients ∧
      idx ∈ s'.font cptr ∧ s.font cptr ⊆ s'.font cptr ∧ ∀ c ≠ cptr, s'.font c = s.font c := by
  have hlist (t : FontState) (ht : t.font = s.font) (idx : Nat) :
      idx ∈ (t.setList cptr (idx :: s.font cptr)).font cptr ∧
        s.font cptr ⊆ (t.setList cptr (idx :: s.font cptr)).font cptr ∧
        ∀ c ≠ cptr, (t.setList cptr (idx :: s.font cptr)).font c = s.font c := by
    have hself : (t.setList cptr (idx :: s.font cptr)).font cptr = idx :: s.font cptr :=
      update_self ..
    rw [hself]
    refine ⟨mem_cons_self, subset_cons_self .., fun c hc => ?_⟩
    rw [← ht]
    exact update_of_ne hc ..
  unfold client_loadfont at h
  dsimp only at h
  split at h
  next idx _ =>
    split_ifs at h with hm
    · cases h
      exact Or.inr ⟨idx, _, rfl, rfl, hm, List.Subset.refl _, fun _ _ => rfl⟩
    · cases h
      obtain ⟨h1, h2, h3⟩ := hlist _ rfl idx
      exact Or.inr ⟨idx, _, rfl, rfl, h1, h2, h3⟩
  · unfold font_loadfont at h
    cases hf : (List.range MAXFONTS).find? fun idx => (s.glob_font idx).numused = 0 with
    | none =>
      rw [hf] at h
      cases h
      exact Or.inl ⟨rfl, rfl⟩
    | some idx =>
      rw [hf] at h
      cases hfile : files (compose_name cfg family size styles) with
      | none =>
        simp only [hfile] at h
        cases h
        exact Or.inl ⟨rfl, rfl⟩
      | some file =>
        simp only [hfile] at h
        cases h
        obtain ⟨h1, h2, h3⟩ := hlist (s.setSlot idx _) rfl idx
        exact Or.inr ⟨idx, _, rfl, rfl, h1, h2, h3⟩

theorem client_unloadfont_lists (s : FontState) (cptr : Nat) (h : Nat) :
    (client_unloadfont s cptr h).2.clients = s.clients ∧
      (∀ c ≠ cptr, (client_unloadfont s cptr h).2.font c = s.font c) ∧
      ∀ j ≠ h, j ∈ s.font cptr → j ∈ (client_unloadfont s cptr h).2.font cptr := by
  unfold client_unloadfont
  split_ifs
  · exact ⟨rfl, fun _ _ => rfl, fun _ _ hj => hj⟩
  · dsimp only
    split_ifs
    · refine ⟨rfl, fun c hc => update_of_ne hc .., fun j hj hmem => ?_⟩
      change j ∈ Function.update s.font cptr _ cptr
      rw [update_self]
      exact (mem_erase_of_ne hj).mpr hmem
    · exact ⟨rfl, fun _ _ => rfl, fun _ _ hj => hj⟩

theorem FontOther.run_ok {cfg : FontConfig} {s : FontState} (h : s.Counted) {me cptr : Nat}
    (hme : me ∈ s.clients) (hne : me ≠ cptr) (o : FontOther) :
    (o.run cfg s cptr).Counted ∧ me ∈ (o.run cfg s cptr).clients ∧ (o.run cfg s cptr).font me = s.font me := by
  cases o with
  | connect =>
    unfold FontOther.run
    dsimp only
    split_ifs with hc
    · exact ⟨h, hme, rfl⟩
    · exact ⟨connect_counted h hc, mem_cons_of_mem _ hme, update_of_ne hne ..⟩
  | disconnect =>
    unfold FontOther.run
    dsimp only
    split_ifs with hc
    · refine ⟨killClientFonts_counted h hc, (mem_erase_of_ne hne).mpr hme, ?_⟩
      obtain ⟨h1, -⟩ := giveBack_spec (s.font cptr) s
      exact (update_of_ne hne ..).trans (congrFun h1 me)
    · exact ⟨h, hme, rfl⟩
  | load files family size styles =>
    unfold FontOther.run
    dsimp only
    split_ifs with hc
    · refine ⟨client_loadfont_counted cfg files h hc family size styles, ?_⟩
      generalize hr : client_loadfont cfg files s cptr family size styles = r
      obtain ⟨ret, s'⟩ := r
      obtain ⟨-, rfl⟩ | ⟨_, _, -, h1, -, -, h3⟩ := client_loadfont_cases hr
      · exact ⟨hme, rfl⟩
      · exact ⟨h1 ▸ hme, h3 me hne⟩
    · exact ⟨h, hme, rfl⟩
  | unload fonthandle =>
    unfold FontOther.run
    dsimp only
    split_ifs with hc
    · refine ⟨client_unloadfont_counted h hc fonthandle, ?_⟩
      unfold client_unloadfont
      split_ifs
      · exact ⟨hme, rfl⟩
      · dsimp only
        split_ifs
        · exact ⟨hme, update_of_ne hne ..⟩
        · exact ⟨hme, rfl⟩
    · exact ⟨h, hme, rfl⟩

variable {L : FontLink} {S : FontLib}

theorem setUsed_addrs (addr n : Nat) : (S.setUsed addr n).WFonts.map WFONT.addr = S.WFonts.map WFONT.addr := by
  change (S.WFonts.map _).map WFONT.addr = _
  rw [map_map]
  apply map_congr_left
  intro f _
  dsimp only [Function.comp]
  split_ifs <;> rfl

theorem FontLib.Ok.use (h : S.Ok L) {f : WFONT} (hf : f ∈ S.WFonts) {n : Nat} (hn : 0 < n) :
    ((S.setUsed f.addr n).hold f.addr n).Ok L where
  counted := h.counted
  connected := h.connected
  addrs := by
    change ((S.setUsed f.addr n).WFonts.map WFONT.addr).Nodup
    rw [setUsed_addrs]
    exact h.addrs
  known := by
    intro g' hg'
    obtain ⟨g, hg, rfl⟩ := mem_map.mp hg'
    split_ifs
    · exact h.known g hg
    · exact h.known g hg
  held := by
    intro g' hg'
    obtain ⟨g, hg, rfl⟩ := mem_map.mp hg'
    change _ ∧ Function.update S.held f.addr n _ = _
    split_ifs with ha
    · exact ⟨hn, by rw [ha, update_self]⟩
    · rw [update_of_ne ha]
      exact h.held g hg
  unheld := by
    intro p hp
    change p ∉ (S.setUsed f.addr n).WFonts.map WFONT.addr at hp
    rw [setUsed_addrs] at hp
    have hne : p ≠ f.addr := by
      rintro rfl
      exact hp (mem_map_of_mem hf)
    exact (update_of_ne hne ..).trans (h.unheld p hp)
  set := by
    intro win p hw
    change p ∈ (S.setUsed f.addr n).WFonts.map WFONT.addr
    rw [setUsed_addrs]
    exact h.set win p hw

theorem w_loadfont_ok (h : S.Ok L) (files : CString → Option FontFile) (addr : Nat)
    (family : CString) (size : Int) (stylemask : BitVec 16) :
    (w_loadfont L files S addr family size stylemask).2.Ok L := by
  unfold w_loadfont
  dsimp only
  split
  next f hfind =>
    have hf := mem_of_find?_eq_some hfind
    rw [(h.held f hf).2]
    exact h.use hf (Nat.succ_pos _)
  · split_ifs with ha
    · exact h
    · have hcount := client_loadfont_counted L.cfg files h.counted h.connected
        (family.take (MAXFAMILYNAME - 1)) size stylemask
      generalize hr : client_loadfont L.cfg files S.server L.cptr (family.take (MAXFAMILYNAME - 1))
        size stylemask = r
      rw [hr] at hcount
      obtain ⟨ret, s'⟩ := r
      obtain ⟨rfl, rfl⟩ | ⟨idx, file, rfl, hcl, hidx, hsub, -⟩ := client_loadfont_cases hr
      · exact h
      · have h0 := h.unheld addr ha
        constructor
        · exact hcount
        · exact hcl ▸ h.connected
        · exact nodup_cons.mpr ⟨ha, h.addrs⟩
        · intro g hg
          cases hg with
          | head => exact hidx
          | tail _ hg => exact hsub (h.known g hg)
        · intro g hg
          change _ ∧ Function.update S.held addr (S.held addr + 1) _ = _
          cases hg with
          | head => exact ⟨Nat.one_pos, by rw [update_self, h0]⟩
          | tail _ hg =>
            have hne : g.addr ≠ addr := by
              rintro rfl
              exact ha (mem_map_of_mem hg)
            rw [update_of_ne hne]
            exact h.held g hg
        · intro p hp
          obtain ⟨hne, hp⟩ := not_or.mp (fun hin => hp (mem_cons.mpr hin))
          exact (update_of_ne hne ..).trans (h.unheld p hp)
        · intro win p hw
          exact mem_cons_of_mem _ (h.set win p hw)

theorem w_unloadfont_ok (h : S.Ok L) {font : Nat} (hs : FontCall.Safe S (.unloadfont font)) :
    (w_unloadfont L S font).2.Ok L := by
  unfold w_unloadfont
  split
  · exact h
  next f hfind =>
    have hf := mem_of_find?_eq_some hfind
    have ha : f.addr = font := by simpa using find?_some hfind
    subst ha
    obtain ⟨h0, hheld⟩ := h.held f hf
    dsimp only
    split_ifs with hu
    · rw [hheld]
      exact h.use hf hu
    · obtain hs | ⟨hwin, hother⟩ := hs
      · omega
      obtain ⟨hcl, -, hstay⟩ := client_unloadfont_lists S.server L.cptr f.handle
      have hmem (g : WFONT) : g ∈ S.WFonts.filter (fun g => g.addr ≠ f.addr) ↔
          g ∈ S.WFonts ∧ g.addr ≠ f.addr := by simp
      constructor
      · exact client_unloadfont_counted h.counted h.connected f.handle
      · exact hcl ▸ h.connected
      · exact h.addrs.sublist (filter_sublist.map _)
      · intro g hg
        obtain ⟨hg, hne⟩ := (hmem g).mp hg
        exact hstay g.handle (hother f hf g hg rfl hne) (h.known g hg)
      · intro g hg
        obtain ⟨hg, hne⟩ := (hmem g).mp hg
        refine ⟨(h.held g hg).1, ?_⟩
        exact (update_of_ne hne ..).trans (h.held g hg).2
      · intro p hp
        change Function.update S.held f.addr (S.held f.addr - 1) p = 0
        by_cases hpf : p = f.addr
        · subst hpf
          rw [update_self]
          omega
        · rw [update_of_ne hpf]
          apply h.unheld
          intro hin
          obtain ⟨g, hg, rfl⟩ := mem_map.mp hin
          exact hp (mem_map_of_mem ((hmem g).mpr ⟨hg, hpf⟩))
      · intro win p hw
        obtain ⟨g, hg, rfl⟩ := mem_map.mp (h.set win p hw)
        have hne : g.addr ≠ f.addr := by
          intro he
          exact hwin win (he ▸ hw)
        exact mem_map_of_mem ((hmem g).mpr ⟨hg, hne⟩)

theorem FontLib.Ok.wins (h : S.Ok L) {wins : Nat → Option (Option Nat)}
    (hw : ∀ win p, wins win = some (some p) → p ∈ S.WFonts.map WFONT.addr) : ({ S with wins } : FontLib).Ok L :=
  ⟨h.counted, h.connected, h.addrs, h.known, h.held, h.unheld, hw⟩

theorem FontLib.Ok.update (h : S.Ok L) {win : Nat} {v : Option (Option Nat)}
    (hv : ∀ p, v = some (some p) → p ∈ S.WFonts.map WFONT.addr) :
    ({ S with wins := Function.update S.wins win v } : FontLib).Ok L := by
  apply h.wins
  intro w p hw
  by_cases he : w = win
  · subst he
    rw [update_self] at hw
    exact hv p hw
  · rw [update_of_ne he] at hw
    exact h.set w p hw

theorem fontCall_ok {call : FontCall} (h : S.Ok L) (hs : call.Safe S) : (fontCall L S call).Ok L := by
  cases call with
  | loadfont files addr family size stylemask => exact w_loadfont_ok h files addr family size stylemask
  | unloadfont font => exact w_unloadfont_ok h hs
  | setfont win font =>
    change (w_setfont S win font).2.Ok L
    unfold w_setfont
    split
    · exact h
    · split_ifs with hf
      · apply h.update
        rintro p ⟨⟩
        exact hf
      · exact h
  | create win ok =>
    unfold fontCall
    dsimp only
    split_ifs
    · exact h.update nofun
    · exact h
  | delete win ok =>
    unfold fontCall
    dsimp only
    split_ifs
    · exact h.update nofun
    · exact h
  | other cptr o =>
    unfold fontCall
    dsimp only
    split_ifs with hc
    · exact h
    · obtain ⟨hcount, hcon, hfont⟩ := FontOther.run_ok h.counted h.connected (Ne.symm hc) o
      refine ⟨hcount, hcon, h.addrs, fun f hf => ?_, h.held, h.unheld, h.set⟩
      rw [hfont]
      exact h.known f hf

theorem fontLib_init_ok (L : FontLink) (glob_font : Nat → FontSlot) :
    (fontLib_init L glob_font).Ok L where
  counted := ⟨nodup_singleton _, fun _ => Nat.zero_le _⟩
  connected := mem_singleton.mpr rfl
  addrs := nodup_nil
  known := nofun
  held := nofun
  unheld := fun _ _ => rfl
  set := nofun

/-- No font that is in use gets lost, as long as the calls are safe. -/
theorem fonts_kept {L : FontLink} {glob_font : Nat → FontSlot} {l : List FontCall}
    (hl : AllSafe (fontCall L) FontCall.Safe (fontLib_init L glob_font) l) :
    (l.foldl (fontCall L) (fontLib_init L glob_font)).Kept L :=
  (hl.invariant (FontLib.Ok L) (fun _ _ h hs => fontCall_ok h hs) (fontLib_init_ok L glob_font)).kept

def fontLink : FontLink := ⟨⟨none, 0⟩, 1, ascii "fixed", 10⟩

def unusedSlots : Nat → FontSlot := fun _ => ⟨[], 0, ⟨0, 0, 0, 0, 0, [], fun _ => 0⟩⟩

def tinyFiles : CString → Option FontFile := fun _ => some ⟨8, 0, 0, 6, 8, ascii "tiny", fun _ => 8⟩

def loadAndSet : List FontCall :=
  [.create 5 true, .loadfont tinyFiles 100 (ascii "tiny") 8 0, .setfont 5 100,
    .loadfont tinyFiles 200 (ascii "tiny") 8 0, .unloadfont 100]

theorem fonts_kept_loadAndSet :
    (loadAndSet.foldl (fontCall fontLink) (fontLib_init fontLink unusedSlots)).Kept fontLink :=
  fonts_kept ⟨trivial, trivial, trivial, trivial, Or.inl (by decide +kernel), trivial⟩

def otherName : List FontCall :=
  [.loadfont tinyFiles 100 (ascii "small") 8 0, .loadfont tinyFiles 200 (ascii "small") 8 0,
    .unloadfont 100]

def unloadSet : List FontCall :=
  [.create 5 true, .loadfont tinyFiles 100 (ascii "tiny") 8 0, .setfont 5 100, .unloadfont 100]

theorem fonts_lost : ¬ (otherName.foldl (fontCall fontLink) (fontLib_init fontLink unusedSlots)).Kept fontLink ∧
      ¬ (unloadSet.foldl (fontCall fontLink) (fontLib_init fontLink unusedSlots)).Kept fontLink := by
  constructor
  · intro h
    have hheld : 0 < (otherName.foldl (fontCall fontLink)
        (fontLib_init fontLink unusedSlots)).held 200 := by decide +kernel
    obtain ⟨-, hlist⟩ := h.listed 200 hheld
    revert hlist
    decide +kernel
  · intro h
    have hset := h.set 5 100 (by decide +kernel)
    revert hset
    decide +kernel

end WWindowSystem
