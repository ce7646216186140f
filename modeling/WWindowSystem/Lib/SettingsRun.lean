import WWindowSystem.Lib.Settings
import WWindowSystem.Server.ColorCounts
import WWindowSystem.Server.DeskRun

namespace WWindowSystem

open List Function

structure Same (w : WWIN) (g : GCONTEXT) (asked : Pattern) : Prop where
  drawmode : g.drawmode = w.drawmode
  linewidth : g.linewidth = w.linewidth
  textstyle : g.textstyle = w.textstyle
  fgCol : g.fgCol = w.fg
  bgCol : g.bgCol = w.bg
  patbuf : g.patbuf = asked

def Dialogue.Agrees (S : Dialogue) : Prop :=
  ∀ h ∈ S.server.ids, ∀ win, S.libPtr h = some win →
    ∃ w, S.wins win = some w ∧ w.handle = h ∧ Same w (S.gc h) (S.asked win)

structure Dialogue.Cached (S : Dialogue) : Prop where
  counted : S.server.Counted
  agrees : S.Agrees
  pattern : ∀ win w, S.wins win = some w → w.pattern ≠ W_USERPATTERN →
    S.asked win = patternOf w.pattern

/-- The record is not one of a window that went away with its parent and whose handle means another
window now. -/
def Dialogue.Current (S : Dialogue) (win : Nat) : Prop :=
  ∀ w, S.wins win = some w → w.handle ∈ S.server.ids → S.libPtr w.handle = some win

def Dialogue.MayUse (L : Link) (S : Dialogue) (w : WWIN) (old color : Int) : Prop :=
  old ≠ color → colorInRange L color →
    ∀ f, S.server.windowLookup w.handle = some f → ColorUsed S.server.colors f.win color

instance (L : Link) (S : Dialogue) (w : WWIN) (old color : Int) : Decidable (S.MayUse L w old color) :=
  have : Decidable (∀ f, S.server.windowLookup w.handle = some f →
      ColorUsed S.server.colors f.win color) :=
    decidable_of_iff ((S.server.windowLookup w.handle).all fun f =>
      decide (ColorUsed S.server.colors f.win color)) (by simp [Option.all_eq_true])
  inferInstanceAs (Decidable (_ → _ → _))

def LibCall.Safe (L : Link) (S : Dialogue) : LibCall → Prop
  | .settextstyle win _ | .setmode win _ | .setlinewidth win _ => S.Current win
  | .setpattern win pattern => S.Current win ∧ ∀ w, S.wins win = some w →
      w.pattern = pattern → pattern = W_USERPATTERN → S.asked win = patternOf pattern
  | .setpatterndata win data => S.Current win ∧ patternData L data = data
  | .setForegroundColor win color =>
    S.Current win ∧ ∀ w, S.wins win = some w → S.MayUse L w w.fg color
  | .setBackgroundColor win color =>
    S.Current win ∧ ∀ w, S.wins win = some w → S.MayUse L w w.bg color
  | _ => True

variable {L : Link} {S : Dialogue} {win : Nat} {w : WWIN}

variable {change : Window → GCONTEXT → GCONTEXT}

theorem Dialogue.Agrees.set (h : S.Agrees) (hn : S.server.ids.Nodup) (hw : S.wins win = some w)
    (hcur : S.Current win) {v : WWIN} (hv : v.handle = w.handle) {asked : Nat → Pattern}
    (ha : ∀ i ≠ win, asked i = S.asked i)
    (hs : ∀ f, S.server.windowLookup w.handle = some f →
      Same w (S.gc w.handle) (S.asked win) → Same v (change f.win (S.gc w.handle)) (asked win)) :
    Dialogue.Agrees { S.setWin win (some v) with
      gc := changeGc S.server S.gc w.handle change, asked } := by
  intro i hi j hj
  obtain ⟨u, hu, hui, hsame⟩ := h i hi j hj
  by_cases hjw : j = win
  · subst hjw
    obtain rfl := Option.some.inj (hw.symm.trans hu)
    subst hui
    obtain ⟨f, hf⟩ := lookup_of_id hn hi
    refine ⟨v, update_self .., hv, ?_⟩
    dsimp only
    rw [changeGc_self hf]
    exact hs f hf hsame
  · have hne : i ≠ w.handle := by
      intro he
      have hc := hcur w hw (he ▸ hi)
      rw [← he] at hc
      exact hjw (Option.some.inj (hj.symm.trans hc))
    refine ⟨u, (update_of_ne hjw ..).trans hu, hui, ?_⟩
    dsimp only
    rw [changeGc_other hne, ha j hjw]
    exact hsame

variable {s : Server}

theorem Dialogue.Agrees.server (h : S.Agrees) (hs : s.ids ⊆ S.server.ids) :
    Dialogue.Agrees { S with server := s } :=
  fun i hi j hj => h i (hs hi) j hj

theorem Dialogue.Agrees.recolor (h : S.Agrees) (hw : S.wins win = some w) (colors : Int) :
    Dialogue.Agrees (S.setWin win (some { w with colors })) := by
  intro i hi j hj
  obtain ⟨u, hu, hui, hsame⟩ := h i hi j hj
  by_cases hjw : j = win
  · subst hjw
    obtain rfl := Option.some.inj (hw.symm.trans hu)
    exact ⟨_, update_self .., hui, hsame.1, hsame.2, hsame.3, hsame.4, hsame.5, hsame.6⟩
  · exact ⟨u, (update_of_ne hjw ..).trans hu, hui, hsame⟩

theorem setColors_mark {f : Focus} (hf : f.zip = s.tree) (r : Colors × Nat) :
    (s.setColors f r).tree.map Window.mark = s.tree.map Window.mark := by
  rw [← hf]
  simp only [Server.setColors, Server.setFocus, Focus.zip, Forest.map_zip, Forest.map]
  rfl

def Recolored (s t : Server) : Prop := t.ids = s.ids ∧ (s.Counted → t.Counted)

theorem Recolored.refl (s : Server) : Recolored s s := ⟨rfl, id⟩

theorem setColors_recolored {handle : Nat} {f : Focus}
    (hf : s.windowLookup handle = some f) (r : Colors × Nat) : Recolored s (s.setColors f r) := by
  have hm := setColors_mark (Server.windowLookup_zip hf).1 r
  constructor
  · rw [ids_mark, ids_mark, hm]
  · intro h
    exact h.congr hm rfl rfl rfl rfl

theorem clientAllocColor_recolored (s : Server) (handle red green blue : Nat) :
    Recolored s (clientAllocColor s handle red green blue).2 := by
  unfold clientAllocColor
  split
  · exact Recolored.refl s
  next f hf => exact setColors_recolored hf _

theorem clientFreeColor_recolored (s : Server) (handle : Nat) (color : Int) :
    Recolored s (clientFreeColor s handle color).2 := by
  unfold clientFreeColor
  split
  · exact Recolored.refl s
  next f hf => exact setColors_recolored hf _

theorem clientChangeColor_recolored (s : Server) (handle : Nat) (color : Int)
    (red green blue : Nat) : Recolored s (clientChangeColor s handle color red green blue).2 := by
  unfold clientChangeColor
  split
  · exact Recolored.refl s
  next f hf => exact setColors_recolored hf _

theorem other_counted (L : Link) (mouse : Point) (h : s.Counted) (o : Other) :
    (o.run L mouse s).Counted := by
  cases o with
  | request r => exact serve_counted L.driver h (r, mouse)
  | alloc handle red green blue => exact (clientAllocColor_recolored s handle red green blue).2 h
  | free handle color => exact (clientFreeColor_recolored s handle color).2 h
  | change handle color red green blue =>
    exact (clientChangeColor_recolored s handle color red green blue).2 h

def Request.IsCreate : Request → Prop
  | .create .. | .create2 .. => True
  | _ => False

variable (D : Driver)

theorem createBelow_ids (cptr : Client) (width height : Int) (flags : Flags) (parent : Nat) :
    (createBelow D s cptr width height flags parent).1 = 0 ∧ (createBelow D s cptr width height flags parent).2 = s ∨
      ∃ id ∉ s.ids, (createBelow D s cptr width height flags parent).1 = id ∧
        (createBelow D s cptr width height flags parent).2.ids ⊆ id :: s.ids := by
  unfold createBelow
  split
  · exact Or.inl ⟨rfl, rfl⟩
  next f hf =>
    obtain ⟨hz, -⟩ := Server.windowLookup_zip hf
    cases hc : createWindow D s cptr width height flags f with
    | none => exact Or.inl ⟨rfl, rfl⟩
    | some r =>
      rw [Option.getD_some]
      obtain ⟨h, s'⟩ := r
      obtain ⟨rfl, rfl⟩ | ⟨id, tab, -, rfl, hnew⟩ := createWindow_cases hc
      · exact Or.inl ⟨rfl, rfl⟩
      · right
        have hp := (hnew.paths hz Window.id).map Prod.fst
        rw [map_cons, Forest.paths_fst, Forest.paths_fst, Forest.toList_map,
          Forest.toList_map] at hp
        exact ⟨id, hnew.fresh, rfl, fun i hi => hp.mem_iff.mp hi⟩

theorem create_ids (mouse : Point) {r : Request} (hr : r.IsCreate) :
    (r.run D mouse s).1 = 0 ∧ (r.run D mouse s).2 = s ∨
      ∃ id ∉ s.ids, (r.run D mouse s).1 = id ∧ (r.run D mouse s).2.ids ⊆ id :: s.ids := by
  have hby (cid : Nat) (op : Client → Int × Server)
      (hop : ∀ cptr, (op cptr).1 = 0 ∧ (op cptr).2 = s ∨
        ∃ id ∉ s.ids, (op cptr).1 = id ∧ (op cptr).2.ids ⊆ id :: s.ids) :
      (byClient s cid op).1 = 0 ∧ (byClient s cid op).2 = s ∨
        ∃ id ∉ s.ids, (byClient s cid op).1 = id ∧ (byClient s cid op).2.ids ⊆ id :: s.ids := by
    unfold byClient
    split
    · exact Or.inl ⟨rfl, rfl⟩
    next cptr _ => exact hop cptr
  cases r with
  | create cid width height flags =>
    exact hby cid _ fun cptr => createBelow_ids D cptr width height flags _
  | create2 cid width height flags handle =>
    apply hby cid
    intro cptr
    unfold client_create2
    split_ifs
    · exact Or.inl ⟨rfl, rfl⟩
    · exact createBelow_ids D cptr width height flags handle
  | _ => exact hr.elim

theorem delete_ids (mouse : Point) (h : s.Counted) (handle : Nat) :
    (client_delete D s handle mouse).2.ids ⊆ s.ids ∧
      ((client_delete D s handle mouse).1 = 0 → handle ∉ (client_delete D s handle mouse).2.ids) := by
  constructor
  · intro i hi
    rw [ids_mark] at hi ⊢
    obtain ⟨m, hm, rfl⟩ := mem_map.mp hi
    exact mem_map_of_mem (client_delete_subset D h handle mouse hm)
  · intro h0 hmem
    obtain ⟨-, hnone⟩ | ⟨f, g, hf, hh, hc, -, -⟩ := client_delete_eq D s handle mouse h.nodup
    · unfold client_delete at h0
      split_ifs at h0 with hh
      · cases h0
      · cases hf : s.windowLookup handle with
        | none =>
          rw [hf] at h0
          cases h0
        | some f =>
          rw [hf] at h0
          simp only [hnone f hf (by omega), Option.isNone_none, if_true] at h0
          cases h0
    · have hz := (Server.windowLookup_zip hf)
      obtain ⟨l, hp, hl⟩ := cut_paths hz.1 (client_delete_mark D mouse h.toTidy hf hh hc)
      have hm : (s.tree.map Window.mark).toList.Perm
          (f.subtree ++ ((client_delete D s handle mouse).2.tree.map Window.mark).toList) := by
        rw [marks_toList, marks_toList, ← hl, ← map_append]
        exact hp.map _
      have hn := h.nodup
      rw [ids_mark, (hm.map Mark.id).nodup_iff, map_append, nodup_append] at hn
      rw [ids_mark] at hmem
      exact hn.2.2 _ (mem_map_of_mem mem_cons_self) _ hmem hz.2

theorem Dialogue.Cached.created (h : S.Cached) {mouse : Point} (hfree : S.wins win = none)
    (colors : Int) {r : Request} (hr : r.IsCreate) :
    (S.set_defgc win colors (r.run L.driver mouse S.server)).2.Cached := by
  have hcount : (r.run L.driver mouse S.server).2.Counted := serve_counted L.driver h.counted (r, mouse)
  obtain ⟨h0, hs⟩ | ⟨id, hid, hret, hsub⟩ := create_ids L.driver mouse (s := S.server) hr
  · rw [Dialogue.set_defgc, if_pos h0, hs]
    exact h
  · rw [Dialogue.set_defgc]
    split_ifs with h0
    · have hid0 : id = 0 := by omega
      exact absurd h.counted.base.1 (hid0 ▸ hid)
    · have hnat : (r.run L.driver mouse S.server).1.toNat = id := by omega
      refine ⟨hcount, fun i hi j hj => ?_, fun i u hu hp => ?_⟩
      · rw [hnat] at hj ⊢
        by_cases hne : i = id
        · subst hne
          dsimp only at hj
          rw [update_self] at hj
          obtain rfl := Option.some.inj hj
          refine ⟨_, update_self .., rfl, ?_⟩
          dsimp only
          rw [update_self, update_self]
          exact ⟨rfl, rfl, rfl, rfl, rfl, rfl⟩
        · dsimp only at hj ⊢
          rw [update_of_ne hne] at hj ⊢
          have hi' : i ∈ S.server.ids := (mem_cons.mp (hsub hi)).resolve_left hne
          obtain ⟨u, hu, hui, hsame⟩ := h.agrees i hi' j hj
          have hjw : j ≠ win := fun he => by
            rw [he, hfree] at hu
            cases hu
          rw [update_of_ne hjw, update_of_ne hjw]
          exact ⟨u, hu, hui, hsame⟩
      · dsimp only at hu ⊢
        by_cases hiw : i = win
        · subst hiw
          rw [update_self] at hu ⊢
          obtain rfl := Option.some.inj hu
          rfl
        · rw [update_of_ne hiw] at hu ⊢
          exact h.pattern i u hu hp

theorem Dialogue.Cached.set (h : S.Cached) (hw : S.wins win = some w) (hcur : S.Current win) {v : WWIN}
    (hv : v.handle = w.handle) (hp : v.pattern = w.pattern)
    (hs : ∀ f, S.server.windowLookup w.handle = some f →
      Same w (S.gc w.handle) (S.asked win) → Same v (change f.win (S.gc w.handle)) (S.asked win)) :
    Dialogue.Cached { S.setWin win (some v) with gc := changeGc S.server S.gc w.handle change } := by
  refine ⟨h.counted, h.agrees.set h.counted.nodup hw hcur hv (fun _ _ => rfl) hs, fun i u hu hpu => ?_⟩
  change Function.update S.wins win (some v) i = some u at hu
  by_cases hiw : i = win
  · subst hiw
    rw [update_self] at hu
    obtain rfl := Option.some.inj hu
    rw [hp] at hpu ⊢
    exact h.pattern i w hw hpu
  · rw [update_of_ne hiw] at hu
    exact h.pattern i u hu hpu

theorem Dialogue.Cached.setPattern (h : S.Cached) (hw : S.wins win = some w) (hcur : S.Current win)
    (pattern : BitVec 16) (asked : Pattern)
    (hp : pattern ≠ W_USERPATTERN → asked = patternOf pattern) :
    Dialogue.Cached { S.setWin win (some { w with pattern }) with
      asked := Function.update S.asked win asked
      gc := changeGc S.server S.gc w.handle fun _ g => { g with patbuf := asked } } := by
  refine ⟨h.counted, h.agrees.set (v := { w with pattern }) h.counted.nodup hw hcur
    rfl (fun i hi => update_of_ne hi ..) fun f _ hs => ?_, fun i u hu hpu => ?_⟩
  · rw [update_self]
    exact ⟨hs.drawmode, hs.linewidth, hs.textstyle, hs.fgCol, hs.bgCol, rfl⟩
  · change Function.update S.wins win _ i = some u at hu
    dsimp only
    by_cases hiw : i = win
    · subst hiw
      rw [update_self] at hu ⊢
      obtain rfl := Option.some.inj hu
      exact hp hpu
    · rw [update_of_ne hiw] at hu ⊢
      exact h.pattern i u hu hpu

theorem Dialogue.Cached.recolored (h : S.Cached) (hw : S.wins win = some w)
    (hs : Recolored S.server s) (colors : Int) :
    Dialogue.Cached ({ S with server := s }.setWin win (some { w with colors })) := by
  have ha : Dialogue.Agrees { S with server := s } := h.agrees.server (hs.1 ▸ List.Subset.refl _)
  refine ⟨hs.2 h.counted, ha.recolor hw colors, fun i u hu hpu => ?_⟩
  change Function.update S.wins win _ i = some u at hu
  by_cases hiw : i = win
  · subst hiw
    rw [update_self] at hu
    obtain rfl := Option.some.inj hu
    exact h.pattern i w hw hpu
  · rw [update_of_ne hiw] at hu
    exact h.pattern i u hu hpu

theorem libCall_cached (h : S.Cached) (c : LibCall × Point) (hs : c.1.Safe L S) : (libCall L S c).Cached := by
  obtain ⟨c, mouse⟩ := c
  unfold libCall
  cases c with
  | create win width height flags =>
    change (w_create L mouse S win width height flags).2.Cached
    unfold w_create
    split_ifs with hfree
    · exact h
    · exact h.created (by simpa using hfree) _ trivial
  | createChild win parent width height flags =>
    change (w_createChild L mouse S win parent width height flags).2.Cached
    unfold w_createChild
    split
    · exact h
    · split_ifs with hfree
      · exact h
      · exact h.created (by simpa using hfree) _ trivial
  | delete win =>
    change (w_delete L mouse S win).2.Cached
    unfold w_delete
    split
    · exact h
    next w hw =>
      obtain ⟨hsub, hgone⟩ := delete_ids L.driver mouse h.counted w.handle
      have hcount := client_delete_counted L.driver h.counted w.handle mouse
      dsimp only
      split_ifs with h0
      · refine ⟨hcount, fun i hi j hj => ?_, fun i u hu hpu => ?_⟩
        · obtain ⟨u, hu, hui, hsame⟩ := h.agrees i (hsub hi) j hj
          have hjw : j ≠ win := by
            intro he
            rw [he, hw] at hu
            obtain rfl := Option.some.inj hu
            exact hgone h0 (hui ▸ hi)
          exact ⟨u, (update_of_ne hjw ..).trans hu, hui, hsame⟩
        · change Function.update S.wins win none i = some u at hu
          by_cases hiw : i = win
          · rw [hiw, update_self] at hu
            cases hu
          · rw [update_of_ne hiw] at hu
            exact h.pattern i u hu hpu
      · exact ⟨hcount, h.agrees.server hsub, h.pattern⟩
  | settextstyle win flags =>
    change (w_settextstyle S win flags).2.Cached
    unfold w_settextstyle
    split
    · exact h
    next w hw =>
      dsimp only
      split_ifs
      · apply h.set (v := { w with textstyle := flags &&& F_STYLEMASK }) hw hs rfl rfl
        intro f _ hsame
        refine ⟨hsame.drawmode, hsame.linewidth, ?_, hsame.fgCol, hsame.bgCol, hsame.patbuf⟩
        dsimp only
        rw [BitVec.and_assoc, BitVec.and_self]
      · exact h
  | setpattern win pattern =>
    change (w_setpattern S win pattern).2.Cached
    unfold w_setpattern
    split
    · exact h
    next w hw =>
      dsimp only
      split_ifs with hne
      · exact h.setPattern hw hs.1 pattern (patternOf pattern) fun _ => rfl
      · -- The packet is left out, so the pattern must be the one in use.
        have heq : w.pattern = pattern := by simpa using hne
        have hasked : S.asked win = patternOf pattern := by
          by_cases hu : pattern = W_USERPATTERN
          · exact hs.2 w hw heq hu
          · have := h.pattern win w hw (heq ▸ hu)
            rwa [heq] at this
        rw [← hasked, update_eq_self]
        exact h
  | setpatterndata win data =>
    change (w_setpatterndata L S win data).2.Cached
    unfold w_setpatterndata
    split
    · exact h
    next w hw =>
      dsimp only
      rw [hs.2]
      exact h.setPattern hw hs.1 W_USERPATTERN data fun hne => absurd rfl hne
  | setmode win mode =>
    change (w_setmode S win mode).2.Cached
    unfold w_setmode
    split
    · exact h
    next w hw =>
      dsimp only
      split_ifs
      · apply h.set (v := { w with drawmode := mode }) hw hs rfl rfl
        intro f _ hsame
        exact ⟨rfl, hsame.linewidth, hsame.textstyle, hsame.fgCol, hsame.bgCol, hsame.patbuf⟩
      · exact h
  | setlinewidth win width =>
    change (w_setlinewidth S win width).2.Cached
    unfold w_setlinewidth
    split
    · exact h
    next w hw =>
      dsimp only
      split_ifs
      · exact h
      · apply h.set (v := { w with linewidth := width }) hw hs rfl rfl
        intro f _ hsame
        exact ⟨hsame.drawmode, rfl, hsame.textstyle, hsame.fgCol, hsame.bgCol, hsame.patbuf⟩
      · exact h
  | allocColor win red green blue =>
    change (w_allocColor S win red green blue).2.Cached
    unfold w_allocColor
    split
    · exact h
    next w hw =>
      have hr := clientAllocColor_recolored S.server w.handle red green blue
      dsimp only
      split_ifs
      · exact h.recolored hw hr _
      · exact ⟨hr.2 h.counted, h.agrees.server (hr.1 ▸ List.Subset.refl _), h.pattern⟩
  | freeColor win color =>
    change (w_freeColor S win color).2.Cached
    unfold w_freeColor
    split
    · exact h
    next w hw =>
      have hr := clientFreeColor_recolored S.server w.handle color
      dsimp only
      split_ifs
      · exact h.recolored hw hr _
      · exact ⟨hr.2 h.counted, h.agrees.server (hr.1 ▸ List.Subset.refl _), h.pattern⟩
  | setForegroundColor win color =>
    change (w_setForegroundColor L S win color).2.Cached
    unfold w_setForegroundColor
    split
    · exact h
    next w hw =>
      dsimp only
      split_ifs with hne hin
      · apply h.set (v := { w with fg := color }) hw hs.1 rfl rfl
        intro f hf hsame
        rw [colorSetFGColor, if_pos (hs.2 w hw hne hin f hf)]
        exact ⟨hsame.drawmode, hsame.linewidth, hsame.textstyle, rfl, hsame.bgCol, hsame.patbuf⟩
      · exact h
      · exact h
  | setBackgroundColor win color =>
    change (w_setBackgroundColor L S win color).2.Cached
    unfold w_setBackgroundColor
    split
    · exact h
    next w hw =>
      dsimp only
      split_ifs with hne hin
      · apply h.set (v := { w with bg := color }) hw hs.1 rfl rfl
        intro f hf hsame
        rw [colorSetBGColor, if_pos (hs.2 w hw hne hin f hf)]
        exact ⟨hsame.drawmode, hsame.linewidth, hsame.textstyle, hsame.fgCol, rfl, hsame.patbuf⟩
      · exact h
      · exact h
  | other o =>
    refine ⟨other_counted L mouse h.counted o, fun i hi j hj => ?_, h.pattern⟩
    change (if i ∈ S.server.ids then S.libPtr i else none) = some j at hj
    split_ifs at hj with hold
    exact h.agrees i hold j hj

/-- In a run of safe calls the records and the contexts agree. -/
theorem contexts_agree {L : Link} {d : Display} {screen : Pixmap} {colors : Colors} {l : List (LibCall × Point)}
    (hl : AllSafe (libCall L) (fun S c => c.1.Safe L S) (dialogue_init d screen colors) l) :
    (l.foldl (libCall L) (dialogue_init d screen colors)).Agrees := by
  have hstart : (dialogue_init d screen colors).Cached :=
    ⟨window_init_counted d screen colors, fun _ _ _ hj => (by cases hj), fun _ _ hu => (by cases hu)⟩
  exact (hl.invariant Dialogue.Cached (fun S c h hs => libCall_cached h c hs) hstart).agrees

def localLink : Link := ⟨plain, 1, 2, 2, false, false⟩

def noMouse : Point := (0, 0)

def allocAndSet : List (LibCall × Point) :=
  [(.other (.request (.connect 1 0 0)), noMouse), (.create 5 10 10 0, noMouse),
    (.allocColor 5 1 2 3, noMouse), (.setForegroundColor 5 3, noMouse)]

theorem contexts_agree_alloc : (allocAndSet.foldl (libCall localLink) (dialogue_init vga noScreen fourColors)).Agrees :=
  contexts_agree ⟨trivial, trivial, trivial,
    ⟨safe_of_all (by decide +kernel), safe_of_all (by decide +kernel)⟩, trivial⟩

def setTooEarly : List (LibCall × Point) :=
  [(.other (.request (.connect 1 0 0)), noMouse), (.create 5 10 10 0, noMouse),
    (.setForegroundColor 5 3, noMouse), (.allocColor 5 1 2 3, noMouse),
    (.setForegroundColor 5 3, noMouse)]

theorem contexts_disagree :
    ¬ (setTooEarly.foldl (libCall localLink) (dialogue_init vga noScreen fourColors)).Agrees := by
  intro h
  generalize hS : setTooEarly.foldl (libCall localLink) (dialogue_init vga noScreen fourColors) = S at h
  have hids : 2 ∈ S.server.ids := by
    rw [← hS]
    decide +kernel
  have hlib : S.libPtr 2 = some 5 := by
    rw [← hS]
    decide +kernel
  have hfg : (S.wins 5).map WWIN.fg = some 3 := by
    rw [← hS]
    decide +kernel
  have hgc : (S.gc 2).fgCol = 1 := by
    rw [← hS]
    decide +kernel
  obtain ⟨w, hw, -, hsame⟩ := h 2 hids 5 hlib
  rw [hw, Option.map_some, ← hsame.fgCol, hgc] at hfg
  cases hfg

end WWindowSystem
