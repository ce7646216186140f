import WWindowSystem.Server.Acts

namespace WWindowSystem

open Forest

def openAbove (k : Context Window) : Bool := (ancestors k).all fun w => w.is_open

theorem openAbove_parent (w : Window) (ns : Forest Window) (k : Context Window) :
    openAbove (.parent w ns :: k) = (openAbove k && w.is_open) := by
  rw [openAbove, ancestors, List.all_cons, Bool.and_comm]
  rfl

/-- Windows that are not on the screen have no rectangles; `b` says that everything above is open. -/
def Lit (b : Bool) : Forest Window → Prop
  | .nil => True
  | .node w cs ns => ((b && w.is_open) = false → w.vis_recs = []) ∧ Lit (b && w.is_open) cs ∧ Lit b ns

def CtxLit : Context Window → Prop
  | [] => True
  | .prev w cs :: k => ((openAbove k && w.is_open) = false → w.vis_recs = []) ∧
    Lit (openAbove k && w.is_open) cs ∧ CtxLit k
  | .parent w ns :: k => ((openAbove k && w.is_open) = false → w.vis_recs = []) ∧
    Lit (openAbove k) ns ∧ CtxLit k

variable (k : Context Window)

theorem lit_zip (t : Forest Window) : Lit true (zip k t) ↔ Lit (openAbove k) t ∧ CtxLit k := by
  induction k generalizing t with
  | nil => exact ⟨fun h => ⟨h, trivial⟩, fun h => h.1⟩
  | cons c k ih =>
    cases c with
    | prev w cs =>
      rw [zip, ih, Lit, CtxLit]
      change _ ↔ Lit (openAbove k) t ∧ _
      tauto
    | parent w ns =>
      rw [zip, ih, Lit, CtxLit, openAbove_parent]
      tauto

def Window.lid (w : Window) : Bool × List Rec := (w.is_open, w.vis_recs)

variable {b : Bool}

theorem Lit.congr {t u : Forest Window} (h : t.map Window.lid = u.map Window.lid)
    (ht : Lit b t) : Lit b u := by
  induction t generalizing b u with
  | nil =>
    cases u with
    | nil => trivial
    | node v ds ms => cases h
  | node w cs ns ihc ihn =>
    cases u with
    | nil => cases h
    | node v ds ms =>
      simp only [Forest.map, Forest.node.injEq, Window.lid, Prod.mk.injEq] at h
      obtain ⟨⟨ho, hv⟩, hcs, hns⟩ := h
      obtain ⟨h1, h2, h3⟩ := ht
      rw [ho] at h1 h2
      rw [hv] at h1
      exact ⟨h1, ihc hcs h2, ihn hns h3⟩

theorem lid_of_geom {t u : Forest Window} (h : t.map Window.geom = u.map Window.geom) :
    t.map Window.lid = u.map Window.lid := by
  have := congrArg (Forest.map fun g : (Bool × Rec × Rec) × Bool × List Rec => (g.1.1, g.2.2)) h
  rw [map_map, map_map] at this
  exact this

theorem Lit.geom {t u : Forest Window} (h : t.map Window.geom = u.map Window.geom)
    (ht : Lit b t) : Lit b u :=
  ht.congr (lid_of_geom h)

variable {t : Forest Window}

theorem Lit.of_false (h : Lit false t) : Lit b t := by
  induction t generalizing b with
  | nil => trivial
  | node w cs ns ihc ihn =>
    obtain ⟨h1, h2, h3⟩ := h
    exact ⟨fun _ => h1 rfl, ihc h2, ihn h3⟩

theorem lit_append {t u : Forest Window} : Lit b (t.append u) ↔ Lit b t ∧ Lit b u := by
  induction t with
  | nil => simp [append, Lit]
  | node w cs ns _ ihn =>
    rw [append, Lit, Lit, ihn]
    tauto

variable (recs : List Rec)

theorem rebuild_open (k : Context Window) (w : Window) (cs : Forest Window) :
    (window_rebuild_recs recs k w cs).1.is_open = w.is_open := by
  have := window_rebuild_recs_frame recs k w cs
  exact congrArg (fun g => g.1) this

theorem rebuild_lit (k : Context Window) (w : Window) (cs : Forest Window)
    (h : (openAbove k && w.is_open) = false → w.vis_recs = [])
    (hb : (openAbove k && w.is_open) = false) : (window_rebuild_recs recs k w cs).1.vis_recs = [] := by
  unfold window_rebuild_recs
  split_ifs with h1 h2
  · exact h hb
  · unfold window_build_recs
    have ho : w.is_open = true := by simpa using h1
    have ha : (ancestors k).any (fun wp => !wp.is_open) = true := by
      rw [ho, Bool.and_true, openAbove] at hb
      rw [List.any_eq_not_all_not]
      simp only [Bool.not_not, hb, Bool.not_false]
    rw [if_neg h1, if_pos ha]
  · exact h hb

theorem lit_visit (k : Context Window) (h : Lit (openAbove k) t) :
    Lit (openAbove k) (t.visit (window_rebuild_recs recs) k) := by
  induction t generalizing k with
  | nil => trivial
  | node w cs ns ihc ihn =>
    obtain ⟨h1, h2, h3⟩ := h
    have ho := rebuild_open recs k w cs
    refine ⟨?_, ?_, ?_⟩
    · rw [ho]
      exact rebuild_lit recs k w cs h1
    · rw [ho]
      split_ifs
      · exact h2
      · have := ihc (.parent (window_rebuild_recs recs k w cs).1 ns :: k)
        rw [openAbove_parent, ho] at this
        exact this h2
    · exact ihn (.prev _ _ :: k) h3

theorem openAbove_onParent (k : Context Window) (t : Forest Window) :
    openAbove (onParent (fun k p cs => (window_rebuild_recs recs k p cs).1) k t) = openAbove k := by
  have h := mapCtx_onParent (g := Window.frame) (fun k w cs => window_rebuild_recs_frame recs k w cs) k t
  have := congrArg (fun k => (ancestors k).all fun g : Bool × Rec × Rec => g.1) h
  simp only [ancestors_map, List.all_map] at this
  exact this

theorem ctxLit_onParent {k : Context Window} (h : CtxLit k) (t : Forest Window) :
    CtxLit (onParent (fun k p cs => (window_rebuild_recs recs k p cs).1) k t) := by
  induction k generalizing t with
  | nil => trivial
  | cons c k ih =>
    cases c with
    | prev w cs =>
      obtain ⟨h1, h2, h3⟩ := h
      rw [onParent, CtxLit, openAbove_onParent]
      exact ⟨h1, h2, ih h3 _⟩
    | parent w ns =>
      obtain ⟨h1, h2, h3⟩ := h
      rw [onParent, CtxLit, rebuild_open]
      exact ⟨rebuild_lit recs k w t h1, h2, h3⟩

theorem lit_rebuild {k : Context Window} (hk : CtxLit k)
    (ht : Lit (openAbove k) t) :
    Lit true (zip (onParent (fun k p cs => (window_rebuild_recs recs k p cs).1) k t) t) := by
  rw [lit_zip, openAbove_onParent]
  exact ⟨ht, ctxLit_onParent recs hk t⟩

theorem lit_map {f : Window → Window} (hf : ∀ w, (f w).is_open = w.is_open)
    (hv : ∀ w, w.vis_recs = [] → (f w).vis_recs = []) (h : Lit b t) :
    Lit b (t.map f) := by
  induction t generalizing b with
  | nil => trivial
  | node w cs ns ihc ihn =>
    obtain ⟨h1, h2, h3⟩ := h
    rw [Forest.map, Lit, hf]
    exact ⟨fun hb => hv w (h1 hb), ihc h2, ihn h3⟩

theorem move_one_lit (dx dy : Int) (h : Lit b t) :
    Lit b (t.map (window_move_one dx dy)) := by
  apply lit_map _ _ h
  · intro w
    unfold window_move_one
    split_ifs <;> rfl
  · intro w hw
    unfold window_move_one
    split_ifs <;> exact hw

theorem move_recs_lit (dx dy : Int) (h : Lit b t) :
    Lit b (t.map (window_move_recs dx dy)) := by
  apply lit_map _ _ h
  · intro w
    unfold window_move_recs
    split_ifs <;> rfl
  · intro w hw
    unfold window_move_recs
    split_ifs
    · rw [hw]
      rfl
    · exact hw

variable (D : Driver)

theorem window_open_lit (s : Server) (f : Focus) (x y : Int) (hf : f.zip = s.tree)
    (h : Lit true s.tree) : Lit true (window_open D s f x y).2.1.tree := by
  unfold window_open
  split_ifs with ho hk
  · exact h
  · exact h
  · simp only [Server.setFocus, Focus.zip]
    refine Lit.geom (scanTree_redraw_geom D _ _ _ _ _ _).symm ?_
    rw [visitTree_node]
    rw [← hf, Focus.zip, lit_zip] at h
    obtain ⟨⟨h1, h2, h3⟩, hk⟩ := h
    have ho : f.win.is_open = false := by simpa using ho
    rw [ho, Bool.and_false] at h1 h2
    have hsave : Lit true (zip (onParent (fun _ p _ => window_save_contents s.screen
        (openAt x y f.win).pos p) f.ctx (.node (openAt x y f.win) f.childs
          (f.next.map (window_save_contents s.screen (openAt x y f.win).pos))))
        (f.next.map (window_save_contents s.screen (openAt x y f.win).pos))) := by
      refine Lit.geom (t := zip f.ctx f.next) ?_ ((lit_zip _ _).mpr ⟨h3, hk⟩)
      rw [map_zip, map_zip, onParent_save_geom, map_save_geom]
    obtain ⟨hns, hctx⟩ := (lit_zip _ _).mp hsave
    apply lit_rebuild _ hctx
    apply lit_visit
    exact ⟨fun _ => h1 rfl, move_one_lit _ _ h2.of_false, hns⟩

theorem window_close_one_lit (screen : Pixmap) (top_win : Nat) (k : Context Window)
    (h : Lit (openAbove k) t) : Lit false (t.post (window_close_one screen top_win) k) := by
  have hone : ∀ (k : Context Window) (w : Window) (cs : Forest Window),
      ((openAbove k && w.is_open) = false → w.vis_recs = []) →
      (window_close_one screen top_win k w cs).vis_recs = [] := by
    intro k w cs hw
    unfold window_close_one
    dsimp only
    cases hr : really_open k w with
    | false =>
      apply hw
      rw [Bool.and_comm]
      exact hr
    | true =>
      simp only [Bool.not_true, Bool.false_eq_true, if_false]
      split_ifs <;> rfl
  induction t generalizing k with
  | nil => trivial
  | node w cs ns ihc ihn =>
    obtain ⟨h1, h2, h3⟩ := h
    have hcs := ihc (.parent w ns :: k)
    rw [openAbove_parent] at hcs
    refine ⟨fun _ => hone k w _ h1, ?_, ihn (.prev _ _ :: k) h3⟩
    exact hcs h2

theorem window_close_lit (s : Server) (f : Focus) (hf : f.zip = s.tree)
    (h : Lit true s.tree) : Lit true (window_close D s f).2.1.tree := by
  unfold window_close
  split_ifs with ho hk ha
  · exact h
  · exact h
  · exact h
  · simp only [Server.setFocus, Focus.zip]
    have hall := window_close_one_lit s.screen f.win.id f.ctx (t := .node f.win f.childs f.next)
    rw [← hf, Focus.zip, lit_zip] at h
    obtain ⟨h1, h2, -⟩ := hall h.1
    obtain ⟨⟨-, -, h3⟩, hk⟩ := h
    set cs := f.childs.post (window_close_one s.screen f.win.id) (.parent f.win f.next :: f.ctx)
    set w := window_close_one s.screen f.win.id f.ctx f.win cs
    have key : Lit true (zip (onParent (fun k p cs => (window_rebuild_recs [w.pos] k p cs).1) f.ctx
        (.node w cs (f.next.visit (window_rebuild_recs [w.pos]) (.prev w cs :: f.ctx))))
        (.node w cs (f.next.visit (window_rebuild_recs [w.pos]) (.prev w cs :: f.ctx)))) := by
      apply lit_rebuild _ hk
      exact ⟨fun _ => h1 rfl, Lit.of_false h2, lit_visit _ (.prev w cs :: f.ctx) h3⟩
    refine key.geom ?_
    rw [map_zip, map_zip, scanParent_redraw_geom]
    simp only [Forest.map, scan_redraw_geom]

theorem window_move_lit (s : Server) (f : Focus) (x y : Int) (hf : f.zip = s.tree)
    (h : Lit true s.tree) : Lit true (window_move D s f x y).2.1.tree := by
  unfold window_move
  split_ifs with ho hxy
  · exact h
  · exact h
  · simp only [Server.setFocus, Focus.zip]
    generalize x - f.win.pos.x0 = dx
    generalize y - f.win.pos.y0 = dy
    set saveNew := window_save_contents s.screen (f.win.pos.shift dx dy)
    set ns := f.next.map saveNew with hns
    set k := onParent (fun _ p _ => saveNew p) f.ctx (.node f.win f.childs ns) with hk
    set w := window_save_contents s.screen f.win.pos f.win with hw
    set cs := f.childs.map (window_save_contents s.screen f.win.pos) with hcs
    have hkey : Lit true (zip k (.node w cs ns)) := by
      rw [← hf] at h
      refine Lit.geom ?_ h
      rw [Focus.zip, map_zip, map_zip, hk, onParent_save_geom]
      simp only [Forest.map, hw, window_save_contents_geom, hns, hcs, saveNew, map_save_geom]
    obtain ⟨hwin, hctx⟩ := (lit_zip _ _).mp hkey
    have hone : Lit (openAbove k) (.node (window_move_one dx dy w) (cs.map (window_move_one dx dy)) ns) := by
      have hm := move_one_lit dx dy (t := .node w cs .nil) ⟨hwin.1, hwin.2.1, trivial⟩
      exact ⟨hm.1, hm.2.1, hwin.2.2⟩
    split_ifs with hh
    · refine Lit.geom ?_ (lit_rebuild [f.win.pos, (window_move_one dx dy w).pos] hctx
        (lit_visit [f.win.pos, (window_move_one dx dy w).pos] k hone))
      rw [← visitTree_node, map_zip, map_zip, scanParent_redraw_geom]
      simp only [scanTree, Forest.map, scan_redraw_geom, window_redraw_geom]
    · have hrecs := move_recs_lit dx dy
        (t := .node (window_move_one dx dy w) (cs.map (window_move_one dx dy)) .nil)
        ⟨hone.1, hone.2.1, trivial⟩
      refine Lit.geom ?_ (lit_rebuild [f.win.pos, (window_move_one dx dy w).pos] hctx
        (t := .node (window_move_recs dx dy (window_move_one dx dy w))
          ((cs.map (window_move_one dx dy)).map (window_move_recs dx dy))
          (ns.visit (window_rebuild_recs [f.win.pos, (window_move_one dx dy w).pos])
            (.prev (window_move_recs dx dy (window_move_one dx dy w))
              ((cs.map (window_move_one dx dy)).map (window_move_recs dx dy)) :: k)))
        ⟨hrecs.1, hrecs.2.1, lit_visit _ (.prev _ _ :: k) hone.2.2⟩)
      rw [map_zip, map_zip, scanParent_redraw_geom]
      simp only [Forest.map, scan_redraw_geom]

theorem openAbove_past (t : Forest Window) : openAbove (past k t) = openAbove k := by
  induction t generalizing k with
  | nil => rfl
  | node w cs ns _ ihn => rw [past, ihn, openAbove, ancestors, ← openAbove]

theorem window_to_top_lit (s : Server) (f : Focus) (hf : f.zip = s.tree)
    (h : Lit true s.tree) : Lit true (window_to_top D s f).2.1.tree := by
  obtain ⟨l, hl, hd⟩ := detach_past f.ctx .nil
  rw [append_nil] at hd
  have hs : Lit true (zip (detach f.ctx .nil).2 (l.append (.node f.win f.childs f.next))) := by
    rw [← zip_past, hl]
    rw [← hf] at h
    exact h
  rw [lit_zip, lit_append] at hs
  obtain ⟨⟨hll, hwin⟩, hctx⟩ := hs
  unfold window_to_top
  split_ifs with hk ho
  · exact h
  · split
    · simp only [Server.setFocus, Focus.zip, hd]
      exact (lit_zip _ _).mpr ⟨⟨hwin.1, hwin.2.1, lit_append.mpr ⟨hll, hwin.2.2⟩⟩, hctx⟩
    · exact h
  · split
    · simp only [Server.setFocus, Focus.zip, hd]
      refine Lit.geom (scanTree_redraw_geom D _ _ _ _ _ _).symm ?_
      set k := (detach f.ctx .nil).2
      set w := window_save_contents s.screen f.win.pos f.win with hw
      set cs := f.childs.map (window_save_contents s.screen f.win.pos) with hcs
      have hone : Lit (openAbove k) (.node w cs f.next) := by
        refine Lit.geom ?_ hwin
        simp only [Forest.map, hw, hcs, window_save_contents_geom, map_save_geom]
      have hmid : Lit (openAbove k) ((l.map (window_save_contents s.screen f.win.pos)).visit
          (window_rebuild_recs [f.win.pos]) (.prev w cs :: k)) := by
        apply lit_visit _ (.prev w cs :: k)
        exact Lit.geom (map_save_geom _ _ _).symm hll
      have hall := lit_visit [f.win.pos] k (t := .node w cs
        (((l.map (window_save_contents s.screen f.win.pos)).visit
          (window_rebuild_recs [f.win.pos]) (.prev w cs :: k)).append f.next))
        ⟨hone.1, hone.2.1, lit_append.mpr ⟨hmid, hone.2.2⟩⟩
      rw [← visitTree_node] at hall
      exact (lit_zip _ _).mpr ⟨⟨hall.1, hall.2.1, lit_append.mpr ⟨hmid, hone.2.2⟩⟩, hctx⟩
    · exact h

theorem window_to_bottom_lit (s : Server) (f : Focus) (hf : f.zip = s.tree)
    (h : Lit true s.tree) : Lit true (window_to_bottom D s f).2.1.tree := by
  have hs := h
  rw [← hf, Focus.zip, lit_zip] at hs
  obtain ⟨hwin, hctx⟩ := hs
  unfold window_to_bottom
  split
  · exact h
  · split_ifs with hk ho
    · exact h
    · simp only [Server.setFocus, Focus.zip, zip_past]
      exact (lit_zip _ _).mpr ⟨lit_append.mpr ⟨hwin.2.2, hwin.1, hwin.2.1, trivial⟩, hctx⟩
    · simp only [Server.setFocus, Focus.zip]
      set w := window_save_contents s.screen f.win.pos f.win with hw
      set cs := f.childs.map (window_save_contents s.screen f.win.pos) with hcs
      set ms := f.next.visit (window_rebuild_recs [f.win.pos]) f.ctx
      have hms : Lit (openAbove f.ctx) ms := lit_visit _ _ hwin.2.2
      have hone : Lit (openAbove f.ctx) (.node w cs .nil) := by
        have hl : Lit (openAbove f.ctx) (.node f.win f.childs .nil) := ⟨hwin.1, hwin.2.1, trivial⟩
        refine Lit.geom ?_ hl
        simp only [Forest.map, hw, hcs, window_save_contents_geom, map_save_geom]
      have hlast := lit_visit [f.win.pos] (past f.ctx ms) (t := .node w cs .nil)
        (by rw [openAbove_past]; exact hone)
      rw [← visitTree_node, openAbove_past] at hlast
      have hall : Lit true (zip (past f.ctx ms) (.node
          (visitTree (window_rebuild_recs [f.win.pos]) (past f.ctx ms) w cs .nil).1
          (visitTree (window_rebuild_recs [f.win.pos]) (past f.ctx ms) w cs .nil).2 .nil)) := by
        rw [zip_past]
        exact (lit_zip _ _).mpr ⟨lit_append.mpr ⟨hms, hlast.1, hlast.2.1, trivial⟩, hctx⟩
      refine Lit.geom ?_ hall
      rw [zip_past, zip_past, map_zip, map_zip, map_append, map_append, scan_redraw_geom]

theorem lid_of_fixed {t u : Forest Window} (h : t.map Window.fixed = u.map Window.fixed) :
    t.map Window.lid = u.map Window.lid := by
  have := congrArg (Forest.map Prod.fst) h
  rw [map_map, map_map] at this
  exact lid_of_geom this

theorem Reordered.lit {t u : Forest Window} (h : Reordered t u) (ht : Lit true t) : Lit true u := by
  rcases h with rfl | ⟨f, l, rfl, hl, rfl⟩
  · exact ht
  · rw [Focus.zip, lit_zip] at ht ⊢
    obtain ⟨⟨h1, h2, h3⟩, hk⟩ := ht
    refine ⟨⟨fun hb => ?_, h2, h3⟩, hk⟩
    rw [h1 hb] at hl
    exact hl.nil_eq.symm

theorem Redrawn.lit {t u : Forest Window} (h : Redrawn t u) (ht : Lit true t) : Lit true u := by
  obtain ⟨v, hv, hu⟩ := h
  exact (hv.lit ht).congr (lid_of_fixed hu).symm

theorem window_delete_lit (s : Server) (f : Focus) (hf : f.zip = s.tree)
    (h : Lit true s.tree) : Lit true (window_delete D s f).2.tree := by
  have hcut : ∀ g : Focus, Lit true g.zip → Lit true (zip g.ctx g.next) := by
    intro g hg
    rw [Focus.zip, lit_zip] at hg
    exact (lit_zip _ _).mpr ⟨hg.1.2.2, hg.2⟩
  unfold window_delete
  split_ifs
  · exact h
  · apply hcut
    rw [window_close_zip D s f hf]
    exact window_close_lit D s f hf h
  · apply hcut
    rwa [hf]

theorem resizeWindow_lit (s : Server) (handle : Nat) (width height : Int)
    (h : Lit true s.tree) : Lit true (resizeWindow D s handle width height).tree := by
  unfold resizeWindow
  split
  · exact h
  next f hf =>
    rw [← (Server.windowLookup_zip hf).1] at h
    refine h.congr ?_
    have hlid : (resizeBitmap D f.win width height).lid = f.win.lid := by
      unfold resizeBitmap
      dsimp only
      split_ifs <;> rfl
    simp only [Server.setFocus, Focus.zip, map_zip, Forest.map, hlid]

theorem act_lit {D : Driver} (s t : Server) (h : Lit true s.tree) (ha : Act D s t) : Lit true t.tree := by
  cases ha with
  | draw f win hf hw =>
    rw [← hf] at h
    refine h.congr ?_
    have hlid : win.lid = f.win.lid := congrArg (fun q => (q.1.1.1, q.1.2.2)) hw
    simp only [Server.setFocus, Focus.zip, map_zip, Forest.map, hlid]
  | active dashed f hf => exact h.congr (lid_of_fixed (drawActive_fixed D dashed s f hf)).symm
  | place => exact h
  | pointer mx my => exact (w_changeActiveWindow_redrawn D s mx my).lit h
  | «open» f x y hf ho => exact window_open_lit D s f x y hf h
  | close f hf => exact window_close_lit D s f hf h
  | move f x y hf => exact window_move_lit D s f x y hf h
  | to_top f hf => exact window_to_top_lit D s f hf h
  | to_bottom f hf => exact window_to_bottom_lit D s f hf h
  | resize handle width height => exact resizeWindow_lit D s handle width height h
  | delete f hf => exact window_delete_lit D s f hf h
  | create cptr wwidth wheight flags parent _ _ hp _ hc =>
    rcases createWindow_cases hc with ⟨-, rfl⟩ | ⟨id, tab, -, -, hnew⟩
    · exact h
    · rw [hnew.tree]
      have hp : zip (.parent parent.win parent.next :: parent.ctx) parent.childs = s.tree := hp
      rw [← hp, lit_zip] at h
      exact (lit_zip _ _).mpr ⟨⟨fun _ => rfl, trivial, h.1⟩, h.2⟩

theorem window_init_lit (d : Display) (screen : Pixmap) (colors : Colors) :
    Lit true (window_init d screen colors).tree := by
  simp [window_init, Lit, glob_rootwindow, glob_backgroundwindow]

theorem Lit.really_open (h : Lit true t) {f : Focus} (hf : f.zip = t)
    (hv : f.win.vis_recs ≠ []) : really_open f.ctx f.win = true := by
  rw [← hf, Focus.zip, lit_zip] at h
  by_contra hc
  apply hv
  apply h.1.1
  rw [Bool.and_comm]
  exact Bool.eq_false_iff.mpr hc

end WWindowSystem
