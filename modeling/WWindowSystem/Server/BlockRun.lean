import WWindowSystem.Library.Run
import WWindowSystem.Server.Blocks

namespace WWindowSystem

open Forest Option

def Block.Targets (s : Server) (b : Block) : Prop :=
  ∃ handle, b.bwin = some handle ∧
    ∃ f, s.windowLookup handle = some f ∧ f.win.flags.has W_CONTAINER = false

structure Block.Sound (s : Server) (b : Block) : Prop where
  target : b.btype = .put → b.Targets s
  data : b.btype ≠ .none → b.bbm.data.isSome = true
  ends : b.btype ≠ .none → b.bptr + b.bsize = b.bbm.size
  bounds : b.btype ≠ .none → 0 ≤ b.bsize ∧ b.bsize ≤ b.bbm.size

structure Session.Sound (t : Session) : Prop where
  counted : t.server.Counted
  blocks : ∀ c ∈ t.server.connected, (t.block c).Sound t.server

variable {width height : Int}

theorem createbm_size {mem : Bool} (h : (createbm width height mem).2 = true) :
    (createbm width height mem).1.data.isSome = true ∧ 0 ≤ (createbm width height mem).1.size := by
  unfold createbm at h ⊢
  dsimp only at h ⊢
  split_ifs at h ⊢ with hc
  rw [Bool.and_eq_true, decide_eq_true_eq] at hc
  exact ⟨rfl, hc.2⟩

variable {s : Server} {b : Block}

theorem Block.sound_none (h : b.btype = .none) : b.Sound s := by
  constructor <;> intro hb <;> rw [h] at hb
  · cases hb
  all_goals exact absurd rfl hb

theorem putblockreq_cases (s : Server) (b : Block) (width height : Int) (handle : Nat) (x0 y0 : Int)
    (mem : Bool) :
    (b.btype ≠ .none ∧ (client_putblockreq s b width height handle x0 y0 mem).2 =
        { b with bwin := (s.windowLookup handle).map fun f => f.win.id }) ∨
      (b.btype = .none ∧ (client_putblockreq s b width height handle x0 y0 mem).2.Sound s) := by
  unfold client_putblockreq
  cases hf : s.windowLookup handle with
  | none =>
    by_cases hb : b.btype = .none
    · exact .inr ⟨hb, Block.sound_none hb⟩
    · exact .inl ⟨hb, rfl⟩
  | some f =>
    dsimp only [map_some]
    by_cases hc : f.win.flags.has W_CONTAINER = true
    · rw [if_pos hc]
      by_cases hb : b.btype = .none
      · exact .inr ⟨hb, Block.sound_none hb⟩
      · exact .inl ⟨hb, rfl⟩
    rw [if_neg hc]
    by_cases hb : b.btype = .none
    · refine .inr ⟨hb, ?_⟩
      split_ifs with h1 h2
      · exact Block.sound_none hb
      · exact Block.sound_none rfl
      · rw [Bool.not_eq_true, Bool.not_eq_false'] at h2
        obtain ⟨hd, hs⟩ := createbm_size h2
        obtain ⟨-, hid⟩ := Server.windowLookup_zip hf
        constructor
        · exact fun _ => ⟨_, rfl, f, by rw [hid]; exact hf, by simpa using hc⟩
        · exact fun _ => hd
        · exact fun _ => Int.zero_add _
        · exact fun _ => ⟨hs, Int.le_refl _⟩
    · rw [if_pos (.inl hb)]
      exact .inl ⟨hb, rfl⟩

theorem getblockreq_cases (s : Server) (b : Block) (handle : Nat) (x0 y0 width height : Int) (mem : Bool) :
    (b.btype ≠ .none ∧ (client_getblockreq s b handle x0 y0 width height mem).2 = b) ∨
      (b.btype = .none ∧ (client_getblockreq s b handle x0 y0 width height mem).2.Sound s) := by
  unfold client_getblockreq
  by_cases hb : b.btype = .none
  · refine .inr ⟨hb, ?_⟩
    split_ifs
    · exact Block.sound_none hb
    · split
      · exact Block.sound_none hb
      · dsimp only
        split_ifs with h1 h2 h3
        · exact Block.sound_none hb
        · exact Block.sound_none hb
        · exact Block.sound_none hb
        · rw [Bool.not_eq_true, Bool.not_eq_false'] at h3
          obtain ⟨hd, hs⟩ := createbm_size h3
          constructor
          · intro h
            cases h
          · intro _
            simp only [getblock, isSome_map]
            exact hd
          · exact fun _ => Int.zero_add _
          · exact fun _ => ⟨hs, Int.le_refl _⟩
  · rw [if_pos (.inl hb)]
    exact .inl ⟨hb, rfl⟩

def Block.CopiesInside (b : Block) (space : Int) : Prop :=
  0 ≤ b.bptr ∧ 0 ≤ b.count space ∧ b.bptr + b.count space ≤ b.bbm.size

variable {space : Int}

theorem Block.Sound.copies (h : b.Sound s) (hb : b.btype ≠ .none)
    (hs : 0 ≤ space) : b.CopiesInside space := by
  obtain ⟨h0, h1⟩ := h.bounds hb
  have := h.ends hb
  unfold Block.CopiesInside Block.count
  split_ifs <;> omega

theorem Block.Sound.count_le (h : b.Sound s) (hb : b.btype ≠ .none)
    (space : Int) : b.bsize - b.count space ≥ 0 := by
  have := h.bounds hb
  unfold Block.count
  split_ifs <;> omega

theorem getblockdata_sound (h : b.Sound s) (hs : 0 ≤ space) :
    (client_getblockdata b space).2.Sound s := by
  unfold client_getblockdata
  by_cases hb : b.btype = .get
  · have hne : b.btype ≠ .none := by
      rw [hb]
      exact BlockType.noConfusion
    have hc := h.copies hne hs
    have hle := h.count_le hne space
    have he := h.ends hne
    rw [if_neg (by simp [hb])]
    dsimp only
    split_ifs
    · exact Block.sound_none rfl
    · constructor
      · intro hp
        rw [Block.advance, hb] at hp
        cases hp
      · exact fun _ => h.data hne
      · intro _
        change b.bptr + b.count space + (b.bsize - b.count space) = b.bbm.size
        omega
      · intro _
        change 0 ≤ b.bsize - b.count space ∧ b.bsize - b.count space ≤ b.bbm.size
        have := h.bounds hne
        have := hc.2.1
        omega
  · rw [if_pos hb]
    exact h

theorem putblockdata_sound (h : b.Sound s) (rawdata : Nat → Nat)
    (hs : b.btype = .put → 0 ≤ space) : (client_putblockdata s b rawdata space).2.Sound s := by
  unfold client_putblockdata
  by_cases hb : b.btype = .put
  · have hne : b.btype ≠ .none := by
      rw [hb]
      exact BlockType.noConfusion
    have hc := h.copies hne (hs hb)
    have hle := h.count_le hne space
    have he := h.ends hne
    rw [if_neg (by simp [hb])]
    dsimp only
    split_ifs
    · exact Block.sound_none rfl
    · constructor
      · exact fun _ => h.target hb
      · intro _
        have := h.data hne
        change (b.bbm.data.map _).isSome = true
        rw [isSome_map]
        exact this
      · intro _
        change b.bptr + b.count space + (b.bsize - b.count space) = b.bbm.size
        omega
      · intro _
        change 0 ≤ b.bsize - b.count space ∧ b.bsize - b.count space ≤ b.bbm.size
        have := h.bounds hne
        have := hc.2.1
        omega
  · rw [if_pos hb]
    exact h

theorem putblock_marks (s : Server) (b : Block) : (putblock s b).tree.map Window.mark = s.tree.map Window.mark := by
  unfold putblock
  split
  · rfl
  next f hf =>
    cases hw : b.bwin with
    | none =>
      rw [hw] at hf
      cases hf
    | some handle =>
      rw [hw] at hf
      have hz := (Server.windowLookup_zip (show s.windowLookup handle = some f from hf)).1
      dsimp only
      split_ifs <;> simp only [Server.setFocus, Focus.zip, map_zip, Forest.map] <;>
        exact (focus_mark hz).symm

theorem putblock_frame (s : Server) (b : Block) :
    ∃ (tree : Forest Window) (screen : Pixmap), putblock s b = { s with tree, screen } := by
  unfold putblock
  split
  · exact ⟨_, _, rfl⟩
  · dsimp only
    split_ifs <;> exact ⟨_, _, rfl⟩

theorem putblock_counted (h : s.Counted) (b : Block) : (putblock s b).Counted := by
  obtain ⟨tree, screen, he⟩ := putblock_frame s b
  apply h.congr (putblock_marks s b) <;> rw [he]

theorem targets_iff (h : s.Tidy) (b : Block) :
    b.Targets s ↔ ∃ p ∈ ownerPaths s.tree, b.bwin = some p.1.id ∧ p.1.flags.has W_CONTAINER = false := by
  constructor
  · rintro ⟨handle, hb, f, hf, hc⟩
    obtain ⟨hz, hid⟩ := Server.windowLookup_zip hf
    exact ⟨_, focus_owner hz, hb.trans (congrArg some hid.symm), hc⟩
  · rintro ⟨p, hp, hb, hc⟩
    obtain ⟨f, hf, he⟩ := lookup_of_owner h hp List.mem_cons_self
    refine ⟨p.1.id, hb, f, hf, ?_⟩
    rw [← he] at hc
    exact hc

theorem Block.Sound.congr {s s' : Server} (h : b.Sound s)
    (ht : b.btype = .put → b.Targets s') : b.Sound s' :=
  ⟨ht, h.data, h.ends, h.bounds⟩

theorem Block.Sound.marks {s s' : Server} (h : b.Sound s) (hs : s.Tidy) (hs' : s'.Tidy)
    (ht : s'.tree.map Window.mark = s.tree.map Window.mark) : b.Sound s' := by
  apply h.congr
  intro hb
  have := (targets_iff hs b).mp (h.target hb)
  rw [targets_iff hs', ownerPaths, owner_of_mark ht]
  exact this

def Request.Leaves (c : Nat) : Request → Prop
  | .disconnect cid => cid = c
  | _ => False

/-- A request to put during a transfer names the window of the transfer, a packet for a transfer
has no length below its head, and no request removes the window of a running transfer. -/
def BlockEvent.Safe (t : Session) : BlockEvent → Prop
  | .request r => ∀ c ∈ t.server.connected, ¬ r.Leaves c → (t.block c).btype = .put →
      ∀ p ∈ ownerPaths t.server.tree, (t.block c).bwin = some p.1.id → ¬ r.Removes p
  | .putblkreq cid _ _ handle _ _ _ =>
    cid ∈ t.server.connected → (t.block cid).btype = .put → (t.block cid).bwin = some handle
  | .rawdata cid len _ =>
    cid ∈ t.server.connected → (t.block cid).btype = .put → 0 ≤ short (len - PAKET_HEAD)
  | _ => True

variable (D : Driver)

theorem request_connected (mouse : Point) (t : Session) (r : Request) {c : Nat}
    (hc : c ∈ (t.request D mouse r).2.server.connected) :
    (c ∈ t.server.connected ∧ ¬ r.Leaves c) ∨ c ∉ t.server.connected := by
  have hs : (t.request D mouse r).2.server.connected = _ := serve_connected D t.server (r, mouse)
  rw [hs] at hc
  cases r with
  | connect cid raddr uid =>
    by_cases h : c ∈ t.server.connected
    · exact .inl ⟨h, id⟩
    · exact .inr h
  | disconnect cid =>
    rw [List.mem_filter, decide_eq_true_eq] at hc
    exact .inl ⟨hc.1, fun h => hc.2 h.symm⟩
  | create | create2 | «open» | close | move | topDown | resize | delete => exact .inl ⟨hc, id⟩

variable {t : Session}

theorem request_sound (mouse : Point) (h : t.Sound) {r : Request}
    (hr : (BlockEvent.request r).Safe t) : (t.request D mouse r).2.Sound := by
  have hcount : (t.request D mouse r).2.server.Counted := serve_counted D h.counted (r, mouse)
  refine ⟨hcount, fun c hc => ?_⟩
  rcases request_connected D mouse t r hc with ⟨hold, hstay⟩ | hnew
  · have hb : (t.request D mouse r).2.block c = t.block c := if_pos hold
    rw [hb]
    apply (h.blocks c hold).congr
    intro hput
    obtain ⟨p, hp, hw, hf⟩ := (targets_iff h.counted.toTidy _).mp ((h.blocks c hold).target hput)
    rw [targets_iff hcount.toTidy]
    exact ⟨p, serve_keeps D h.counted (r, mouse) hp (hr c hold hstay hput p hp hw), hw, hf⟩
  · have hb : (t.request D mouse r).2.block c = {} := if_neg hnew
    rw [hb]
    exact Block.sound_none rfl

theorem Session.Sound.setBlock (h : t.Sound) {cid : Nat}
    (hb : cid ∈ t.server.connected → b.Sound t.server) : (t.setBlock cid b).Sound := by
  refine ⟨h.counted, fun c hc => ?_⟩
  have hc : c ∈ t.server.connected := hc
  change (Function.update t.block cid b c).Sound t.server
  by_cases he : c = cid
  · rw [he, Function.update_self]
    exact hb (he ▸ hc)
  · rw [Function.update_of_ne he]
    exact h.blocks c hc

def Block.transfer (b : Block) : Block :=
  { b with bwin := if b.btype = .put then b.bwin else none }

structure BlockEvent.Good (D : Driver) (mouse : Point) (t : Session) (e : BlockEvent) : Prop where
  before : t.Sound
  after : (e.run D mouse t).2.Sound
  put : ∀ cid len data, e = .rawdata cid len data → cid ∈ t.server.connected →
    (t.block cid).btype = .put → (t.block cid).CopiesInside (short (len - PAKET_HEAD))
  get : ∀ cid, e = .getblkdata cid → cid ∈ t.server.connected → (t.block cid).btype = .get →
    (t.block cid).CopiesInside PAKET_DATA
  refused : ∀ c ∈ t.server.connected, (t.block c).btype ≠ .none → (e.run D mouse t).1 < 0 →
    (∀ r, e ≠ .request r) → ((e.run D mouse t).2.block c).transfer = (t.block c).transfer

theorem Block.transfer_bwin {handle : Option Nat} (h : b.btype = .put → handle = b.bwin) :
    ({ b with bwin := handle } : Block).transfer = b.transfer := by
  unfold Block.transfer
  by_cases hb : b.btype = .put
  · rw [h hb]
  · simp only [if_neg hb]

theorem putblkreq_window (h : t.Sound) {cid : Nat} {handle : Nat}
    {x0 y0 : Int} {mem : Bool} (hc : cid ∈ t.server.connected)
    (hs : (BlockEvent.putblkreq cid width height handle x0 y0 mem).Safe t) (hb : (t.block cid).btype = .put) :
    ((t.server.windowLookup handle).map fun f => f.win.id) = (t.block cid).bwin := by
  obtain ⟨handle', hw, f, hf, -⟩ := (h.blocks cid hc).target hb
  obtain rfl : handle' = handle := Option.some.inj (hw.symm.trans (hs hc hb))
  rw [hf, hw, map_some, (Server.windowLookup_zip hf).2]

theorem putblockdata_server (s : Server) (b : Block) (rawdata : Nat → Nat) (space : Int) :
    (client_putblockdata s b rawdata space).1 = s ∨
      ∃ b', (client_putblockdata s b rawdata space).1 = putblock s b' := by
  unfold client_putblockdata
  dsimp only
  split_ifs
  · exact .inl rfl
  · exact .inr ⟨_, rfl⟩
  · exact .inl rfl

variable {e : BlockEvent}

theorem process_sound (h : t.Sound) (hs : e.Safe t)
    (he : ∀ cid, e.sender = some cid → cid ∈ t.server.connected) : (e.process t).2.Sound := by
  cases e with
  | request r => exact h
  | putblkreq cid width height handle x0 y0 mem =>
    have hc := he cid rfl
    apply h.setBlock
    intro _
    rcases putblockreq_cases t.server (t.block cid) width height handle x0 y0 mem with
      ⟨hb, heq⟩ | ⟨-, hsound⟩
    · rw [heq]
      have hbs := h.blocks cid hc
      refine ⟨fun hput => ?_, hbs.data, hbs.ends, hbs.bounds⟩
      rw [putblkreq_window h hc hs hput]
      exact hbs.target hput
    · exact hsound
  | getblkreq cid handle x0 y0 width height mem =>
    apply h.setBlock
    intro hc
    rcases getblockreq_cases t.server (t.block cid) handle x0 y0 width height mem with
      ⟨-, heq⟩ | ⟨-, hsound⟩
    · rw [heq]
      exact h.blocks cid hc
    · exact hsound
  | rawdata cid len data =>
    have hc := he cid rfl
    have hnew := putblockdata_sound (h.blocks cid hc) data (hs hc)
    have ht : (t.setBlock cid (client_putblockdata t.server (t.block cid) data
        (short (len - PAKET_HEAD))).2).Sound := h.setBlock fun _ => hnew
    rcases putblockdata_server t.server (t.block cid) data (short (len - PAKET_HEAD)) with
      hsv | ⟨b, hsv⟩
    · change Session.Sound { t.setBlock cid _ with server := (client_putblockdata _ _ _ _).1 }
      rw [hsv]
      exact ht
    · change Session.Sound { t.setBlock cid _ with server := (client_putblockdata _ _ _ _).1 }
      rw [hsv]
      have hcount := putblock_counted h.counted b
      have hcon : (putblock t.server b).connected = t.server.connected := by
        obtain ⟨tree, screen, heq⟩ := putblock_frame t.server b
        rw [heq]
        rfl
      refine ⟨hcount, fun c hcc => ?_⟩
      apply (ht.blocks c (hcon ▸ hcc)).marks h.counted.toTidy hcount.toTidy
      exact putblock_marks t.server b
  | getblkdata cid =>
    apply h.setBlock
    intro hc
    exact getblockdata_sound (h.blocks cid hc) (by decide)

theorem setBlock_other {cid c : Nat} (b : Block) (h : c ≠ cid) : (t.setBlock cid b).block c = t.block c :=
  Function.update_of_ne h _ _

theorem setBlock_self (t : Session) (cid : Nat) (b : Block) : (t.setBlock cid b).block cid = b :=
  Function.update_self _ _ _

theorem process_refused (h : t.Sound) (hs : e.Safe t)
    (he : ∀ cid, e.sender = some cid → cid ∈ t.server.connected) {c : Nat}
    (hb : (t.block c).btype ≠ .none) (hr : (e.process t).1 < 0) :
    ((e.process t).2.block c).transfer = (t.block c).transfer := by
  cases e with
  | request r => rfl
  | putblkreq cid width height handle x0 y0 mem =>
    by_cases hcc : c = cid
    · subst hcc
      rcases putblockreq_cases t.server (t.block c) width height handle x0 y0 mem with
        ⟨-, heq⟩ | ⟨hnone, -⟩
      · have hblock : ((BlockEvent.putblkreq c width height handle x0 y0 mem).process t).2.block c =
            { t.block c with bwin := (t.server.windowLookup handle).map fun f => f.win.id } :=
          (setBlock_self t c _).trans heq
        rw [hblock]
        exact Block.transfer_bwin fun hput => putblkreq_window h (he c rfl) hs hput
      · exact absurd hnone hb
    · exact congrArg Block.transfer (setBlock_other _ hcc)
  | getblkreq cid handle x0 y0 width height mem =>
    by_cases hcc : c = cid
    · subst hcc
      rcases getblockreq_cases t.server (t.block c) handle x0 y0 width height mem with
        ⟨-, heq⟩ | ⟨hnone, -⟩
      · exact congrArg Block.transfer ((setBlock_self t c _).trans heq)
      · exact absurd hnone hb
    · exact congrArg Block.transfer (setBlock_other _ hcc)
  | rawdata cid len data => exact absurd hr (Int.lt_irrefl 0)
  | getblkdata cid =>
    exfalso
    have hbs := h.blocks cid (he cid rfl)
    change (client_getblockdata (t.block cid) PAKET_DATA).1 < 0 at hr
    unfold client_getblockdata at hr
    split_ifs at hr with hget
    · exact absurd hr (Int.lt_irrefl 0)
    · have hne : (t.block cid).btype ≠ .none := by
        intro hn
        exact hget (by rw [hn]; exact BlockType.noConfusion)
      have := (hbs.copies hne (show 0 ≤ PAKET_DATA by decide)).2.1
      dsimp only at hr
      omega

theorem block_step (e : BlockEvent × Point) (h : t.Sound)
    (hs : e.1.Safe t) : (t.serve D e).Sound ∧ e.1.Good D e.2 t := by
  obtain ⟨e, mouse⟩ := e
  have hafter : (e.run D mouse t).2.Sound := by
    cases e with
    | request r => exact request_sound D mouse h hs
    | putblkreq | getblkreq | rawdata | getblkdata =>
      unfold BlockEvent.run
      dsimp only
      split_ifs with hc
      · refine process_sound h hs fun cid hcid => ?_
        rw [all_eq_true] at hc
        simpa using hc cid hcid
      · exact h
  refine ⟨hafter, h, hafter, ?_, ?_, ?_⟩
  · rintro cid len data rfl hc hb
    exact (h.blocks cid hc).copies (by rw [hb]; exact BlockType.noConfusion) (hs hc hb)
  · rintro cid rfl hc hb
    exact (h.blocks cid hc).copies (by rw [hb]; exact BlockType.noConfusion) (by decide)
  · intro c hc hb hr hne
    cases e with
    | request r => exact absurd rfl (hne r)
    | putblkreq | getblkreq | rawdata | getblkdata =>
      unfold BlockEvent.run at hr ⊢
      dsimp only at hr ⊢
      split_ifs at hr ⊢ with hcon
      · refine process_refused h hs (fun cid hcid => ?_) hb hr
        rw [all_eq_true] at hcon
        simpa using hcon cid hcid
      · rfl

theorem session_init_sound (d : Display) (screen : Pixmap) (colors : Colors) : (session_init d screen colors).Sound :=
  ⟨window_init_counted d screen colors, fun _ hc => absurd hc List.not_mem_nil⟩

theorem block_transfers_sound (D : Driver) (d : Display) (screen : Pixmap) (colors : Colors)
    {l : List (BlockEvent × Point)}
    (hl : AllSafe (Session.serve D) (fun t e => e.1.Safe t) (session_init d screen colors) l) :
    AllSafe (Session.serve D) (fun t e => e.1.Good D e.2 t) (session_init d screen colors) l :=
  hl.imp Session.Sound (fun _ e h hs => block_step D e h hs) (session_init_sound d screen colors)

instance (p : Owner × List Owner) (r : Request) : Decidable (r.Removes p) :=
  match r with
  | .delete handle => inferInstanceAs (Decidable (2 ≤ handle ∧ ∃ a ∈ p.1 :: p.2, a.id = handle))
  | .disconnect cid => inferInstanceAs (Decidable (∃ a ∈ p.1 :: p.2, a.cptr = some cid))
  | .connect .. | .create .. | .create2 .. | .open .. | .close .. | .move .. | .topDown .. | .resize .. =>
    inferInstanceAs (Decidable False)

instance (c : Nat) (r : Request) : Decidable (r.Leaves c) := by
  cases r <;> dsimp only [Request.Leaves] <;> infer_instance

instance (t : Session) (e : BlockEvent) : Decidable (e.Safe t) := by
  cases e <;> dsimp only [BlockEvent.Safe] <;> infer_instance

def putInTwo : List (BlockEvent × Point) :=
  [(.request (.connect 1 0 0), (0, 0)), (.request (.create 1 4 1 0), (0, 0)),
    (.putblkreq 1 4 1 2 0 0 true, (0, 0)), (.putblkreq 1 4 1 2 0 0 true, (0, 0)),
    (.rawdata 1 6 fun _ => 7, (0, 0)), (.rawdata 1 8 fun _ => 7, (0, 0)),
    (.request (.delete 2), (0, 0))]

theorem block_transfers_put_in_two : AllSafe (Session.serve plain) (fun t e => e.1.Good plain e.2 t)
      (session_init vga (fun _ => 0) twoColors) putInTwo :=
  block_transfers_sound plain vga (fun _ => 0) twoColors (by decide +kernel)

def putAstray : List (BlockEvent × Point) :=
  [(.request (.connect 1 0 0), (0, 0)), (.request (.create 1 4 1 0), (0, 0)),
    (.putblkreq 1 4 1 2 0 0 true, (0, 0)), (.putblkreq 1 4 1 9 0 0 true, (0, 0))]

theorem block_transfer_astray : ¬ AllSafe (Session.serve plain) (fun t e => e.1.Good plain e.2 t)
      (session_init vga (fun _ => 0) twoColors) putAstray := by
  rintro ⟨-, -, -, hg, -⟩
  have hput : (((putAstray.foldl (Session.serve plain) (session_init vga (fun _ => 0) twoColors)).block
      1).btype = .put ∧ ((putAstray.foldl (Session.serve plain)
        (session_init vga (fun _ => 0) twoColors)).block 1).bwin = none ∧
      1 ∈ (putAstray.foldl (Session.serve plain)
        (session_init vga (fun _ => 0) twoColors)).server.connected) := by
    decide +kernel
  obtain ⟨hb, hw, hc⟩ := hput
  obtain ⟨handle, hh, -⟩ := (hg.after.blocks 1 hc).target hb
  cases hw.symm.trans hh

end WWindowSystem
