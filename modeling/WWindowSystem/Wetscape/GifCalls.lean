import WWindowSystem.Wetscape.GifRun

namespace WWindowSystem.Gif

variable {E : GifEnv} {s : gif_screen} {d d' : Reading} {gif gif' t : gif_info_t} {cp cp' q : List Byte} {img : gif_image}
  {cmap : List Byte}

theorem Within.reads (h : Within gif img cmap) (input : List Byte) : Readable (gif.screen img cmap) (gif.reading input) :=
  ⟨h.readable.screen, h.readable.drawn, h.readable.block, h.readable.table⟩

theorem Within.kept (h : Within gif img cmap) (hread : Readable (gif.screen img cmap) d) : Within (gif.keep d) img cmap :=
  ⟨h.state, h.has_img, h.has_cmap, ⟨hread.screen, hread.drawn, hread.block, hread.table⟩⟩

theorem step_within (h : Within gif img cmap) (cp : List Byte) : gifStep E gif cp =
    match codeTurn E (gif.screen img cmap) (gif.reading cp) with
    | .inl d => some (gif.keep d, d.input)
    | .inr (some (i, d)) => if i = 1 then some ({ gif.keep d with state := .Skip }, d.input) else none
    | .inr none => none :=
  step_image h.state h.has_img h.has_cmap

theorem Feeds.snoc {gif' gif₁ : gif_info_t} {cp₁ : List Byte} (h : Feeds (gifStep E) gif cp gif' cp')
    (hstep : gifStep E gif' cp' = some (gif₁, cp₁)) : Feeds (gifStep E) gif cp gif₁ cp₁ :=
  h.trans (.head hstep (.refl _ _))

inductive Decoded (E : GifEnv) (gif : gif_info_t) (cp : List Byte) (img : gif_image) (cmap : List Byte) : Option (Int × Reading) → Prop
  | waits (d : Reading) (hfeeds : Feeds (gifStep E) gif cp (gif.keep d) d.input) (hwithin : Within (gif.keep d) img cmap)
      (hend : gifStep E (gif.keep d) d.input = none) : Decoded E gif cp img cmap (some (0, d))
  | ends (d : Reading) (hfeeds : Feeds (gifStep E) gif cp { gif.keep d with state := .Skip } d.input) :
      Decoded E gif cp img cmap (some (1, d))

theorem decoder_decoded (h : Within gif img cmap) (ho : Orderly E gif cp) :
    Decoded E gif cp img cmap (decoder E (gif.screen img cmap) (gif.reading cp)) := by
  have hnavail := h.readable.block.navail
  have hrun : ∃ r, runLoop (codeTurn E (gif.screen img cmap))
      (8 * (cp.length + gif.block.navail_bytes.toNat) + gif.block.nbits_left + 1) (gif.reading cp) = some r ∧
        Decoded E gif cp img cmap r := by
    apply runLoop_spec (fun d => Within (gif.keep d) img cmap ∧ Feeds (gifStep E) gif cp (gif.keep d) d.input) left
    · rintro d d' ⟨hwithin, hfeeds⟩ hturn
      have hfits := ho _ _ hfeeds hwithin.state
      rcases codeTurn_safe (E := E) (hwithin.reads d.input) hfits with ⟨heof, _⟩ | ⟨d₁, hone⟩ | ⟨d₁, hnext, hread, hless⟩
      · exact absurd (hturn.symm.trans heof) (by simp)
      · exact absurd (hturn.symm.trans hone) (by simp)
      · cases hturn.symm.trans hnext
        have hstep := step_within (E := E) hwithin d.input
        have hsame : codeTurn E ((gif.keep d).screen img cmap) ((gif.keep d).reading d.input) = .inl d' := hnext
        rw [hsame] at hstep
        refine ⟨⟨hwithin.kept hread, Feeds.snoc hfeeds hstep⟩, ?_⟩
        have hleft : left ((gif.keep d).reading d.input) = left d := rfl
        omega
    · rintro d r ⟨hwithin, hfeeds⟩ hturn
      have hfits := ho _ _ hfeeds hwithin.state
      have hstep := step_within (E := E) hwithin d.input
      rcases codeTurn_safe (E := E) (hwithin.reads d.input) hfits with ⟨heof, _⟩ | ⟨d₁, hone⟩ | ⟨d₁, hnext, hread, hless⟩
      · cases hturn.symm.trans heof
        rw [heof] at hstep
        exact .waits d hfeeds hwithin hstep
      · cases hturn.symm.trans hone
        rw [hone] at hstep
        exact .ends d₁ (Feeds.snoc hfeeds hstep)
      · exact absurd (hturn.symm.trans hnext) (by simp)
    · exact ⟨h, .refl _ _⟩
    · unfold left waiting gif_info_t.reading
      dsimp only
      omega
  obtain ⟨r, hr, hdecoded⟩ := hrun
  unfold decoder
  have hjoin : (runLoop (codeTurn E (gif.screen img cmap))
      (8 * (cp.length + gif.block.navail_bytes.toNat) + gif.block.nbits_left + 1) (gif.reading cp)).join = r := by
    rw [hr]
    rfl
  exact hjoin ▸ hdecoded

/-- The decoder has `gif'` where the run has `t`: the same, or what a description that is waited for has left. -/
def Resumes (E : GifEnv) (t gif' : gif_info_t) (q : List Byte) : Prop :=
  gif' = t ∨ Before t ∧ ∀ x, gifTurn E gif' (q ++ x) = gifTurn E t (q ++ x)

inductive Called (E : GifEnv) (gif : gif_info_t) (cp : List Byte) : Option (gif_info_t × List Byte × Int) → Prop
  | waits (t gif' : gif_info_t) (q : List Byte) (hfeeds : Feeds (gifStep E) gif cp t q) (hgood : Good t)
      (hend : gifStep E t q = none) (hresumes : Resumes E t gif' q) : Called E gif cp (some (gif', q, 1))
  | skips (t : gif_info_t) (q : List Byte) (hfeeds : Feeds (gifStep E) gif cp t q) (ht : t.state = .Skip) (later : List Byte) :
      Called E gif cp (some (t, later, 1))
  | fails (t gif' : gif_info_t) (q later : List Byte) (hfeeds : Feeds (gifStep E) gif cp t q) (hbefore : Before t)
      (hturn : gifTurn E t q = .stop gif' later (-1)) : Called E gif cp (some (gif', later, -1))

theorem image_turn_within (h : Within gif img cmap) (input : List Byte) : image_turn E gif input =
    match decoder E (gif.screen img cmap) (gif.reading input) with
    | none => .bad
    | some (i, d) => if i ≠ 0 then .stop { gif.keep d with state := .Skip } d.input i else .stop (gif.keep d) d.input 1 := by
  obtain ⟨img', state, cmap', cmapsz, maxval, interlaced, block, table, out⟩ := gif
  cases h.has_img
  cases h.has_cmap
  rfl

theorem image_turn_called {g : gif_info_t} {r : List Byte} (h : Within g img cmap) (ho : Orderly E g r) (hfeeds : Feeds (gifStep E) gif cp g r) :
    ∃ result, gifLoop E (g, r) = .inr result ∧ Called E gif cp result := by
  have hdecoded := decoder_decoded h ho
  have hturn : gifTurn E g r = image_turn E g r := by
    rw [gifTurn, h.state]
  unfold gifLoop
  dsimp only
  rw [hturn, image_turn_within h]
  generalize decoder E (g.screen img cmap) (g.reading r) = result at hdecoded ⊢
  cases hdecoded with
  | waits d hmore hwithin hend =>
    refine ⟨_, rfl, ?_⟩
    exact .waits (g.keep d) _ _ (hfeeds.trans hmore) (.image img cmap hwithin) hend (.inl rfl)
  | ends d hmore =>
    refine ⟨_, rfl, ?_⟩
    exact .skips { g.keep d with state := .Skip } d.input (hfeeds.trans hmore) rfl _

theorem gifLoop_called (h : Good gif) (ho : Orderly E gif cp) :
    Called E gif cp (runLoop (gifLoop E) (cp.length + 1) (gif, cp)).join := by
  have hrun : ∃ r, runLoop (gifLoop E) (cp.length + 1) (gif, cp) = some r ∧ Called E gif cp r := by
    apply runLoop_spec (fun p => Good p.1 ∧ Feeds (gifStep E) gif cp p.1 p.2) (fun p => p.2.length)
    · rintro ⟨g, r⟩ ⟨g', r'⟩ ⟨hgood, hfeeds⟩ hturn
      dsimp only at hgood hfeeds ⊢
      cases hgood with
      | before hbefore =>
        have hends := gifTurn_ends (E := E) hbefore r
        have hstep := step_early (E := E) hbefore.early.1 r
        unfold gifLoop at hturn
        dsimp only at hturn
        generalize gifTurn E g r = turn at hends hstep hturn
        cases hends with
        | waits g₁ => cases hturn
        | fails g₁ r₁ => cases hturn
        | next g₁ r₁ hgood hless =>
          cases hturn
          exact ⟨⟨hgood, Feeds.snoc hfeeds hstep⟩, hless⟩
      | image img cmap hwithin =>
        obtain ⟨result, hresult, _⟩ := image_turn_called hwithin (ho.later hfeeds) hfeeds
        rw [hresult] at hturn
        cases hturn
      | done hskip =>
        unfold gifLoop gifTurn at hturn
        rw [hskip] at hturn
        cases hturn
    · rintro ⟨g, r⟩ result ⟨hgood, hfeeds⟩ hturn
      dsimp only at hgood hfeeds
      cases hgood with
      | before hbefore =>
        have hends := gifTurn_ends (E := E) hbefore r
        have hstep := step_early (E := E) hbefore.early.1 r
        unfold gifLoop at hturn
        dsimp only at hturn
        cases hcase : gifTurn E g r with
        | next g₁ r₁ =>
          rw [hcase] at hturn
          cases hturn
        | stop g₁ r₁ i =>
          rw [hcase] at hturn hends hstep
          cases hturn
          cases hends with
          | waits =>
            refine .waits g g₁ r hfeeds (.before hbefore) hstep (.inr ⟨hbefore, ?_⟩)
            rcases gifTurn_extend (E := E) hbefore.early r with ⟨g₂, hstop, _, hagain⟩ | ⟨hsettled, _⟩
            · cases hcase.symm.trans hstop
              exact hagain
            · rw [hcase] at hsettled
              exact absurd rfl hsettled
          | fails => exact .fails g g₁ r r₁ hfeeds hbefore hcase
        | bad =>
          rw [hcase] at hends
          cases hends
      | image img cmap hwithin =>
        obtain ⟨result', hresult, hcalled⟩ := image_turn_called hwithin (ho.later hfeeds) hfeeds
        cases hturn.symm.trans hresult
        exact hcalled
      | done hskip =>
        unfold gifLoop gifTurn at hturn
        rw [hskip] at hturn
        cases hturn
        exact .skips g r hfeeds hskip _
    · exact ⟨h, .refl _ _⟩
    · exact Nat.lt_succ_self _
  obtain ⟨r, hr, hcalled⟩ := hrun
  rw [hr]
  exact hcalled

end WWindowSystem.Gif

namespace WWindowSystem.Gif

variable {E : GifEnv} {gif gif' t : gif_info_t} {cp cp' q : List Byte} {iop : gif_io} {file x : List Byte}

inductive Place (E : GifEnv) (file : List Byte) (iop : gif_io) : Prop
  | reads (t : gif_info_t) (hfeeds : Feeds (gifStep E) gif_info_alloc file t iop.ibuf) (hgood : Good t)
      (hend : gifStep E t iop.ibuf = none) (hresumes : Resumes E t iop.ihook iop.ibuf)
  | skips (q : List Byte) (hfeeds : Feeds (gifStep E) gif_info_alloc file iop.ihook q) (hskip : iop.ihook.state = .Skip)

def Fails (E : GifEnv) (file : List Byte) : Prop :=
  ∃ t q, Feeds (gifStep E) gif_info_alloc file t q ∧ Before t ∧ gifStep E t q = none ∧ ∀ x, gifStep E t (q ++ x) = none

theorem before_alloc : Before gif_info_alloc :=
  ⟨⟨nofun, nofun, nofun⟩, List.length_replicate, Nat.zero_le _, fun _ => rfl, nofun, nofun⟩

theorem place_start : Place E [] gif_start :=
  .reads gif_info_alloc (.refl _ _) (.before before_alloc) rfl (.inl rfl)

theorem eat_suffix (h : q <:+ iop.ibuf) : (io_eat_input iop (iop.ibuf.length - q.length)).ibuf = q := by
  obtain ⟨front, hfront⟩ := h
  have hlen := congrArg List.length hfront
  rw [List.length_append] at hlen
  have hsize : ¬ (iop.ibufused : Int) < iop.ibuf.length - q.length := by
    unfold io_t.ibufused
    omega
  unfold io_eat_input
  dsimp only
  rw [if_neg hsize]
  split_ifs with hpos
  · rw [← hfront, show ((front ++ q).length - q.length : Int).toNat = front.length by rw [List.length_append]; omega]
    exact List.drop_left
  · have hnil : front = [] := by
      rw [← List.length_eq_zero_iff]
      omega
    rw [← hfront, hnil]
    rfl

theorem runLoop_first {σ ρ : Type} {body : σ → σ ⊕ ρ} {s s' : σ} (h : body s = body s') (n : Nat) :
    runLoop body (n + 1) s = runLoop body (n + 1) s' := by
  unfold runLoop
  rw [h]

theorem decode_more (h : Place E file iop) (ho : Orderly E gif_info_alloc (file ++ x)) :
    ∃ r iop', gif_decoder_decode E (iop.read x false) = some (r, iop') ∧ (r = 0 ∧ Place E (file ++ x) iop' ∨ r < 0 ∧ Fails E (file ++ x)) := by
  cases h with
  | reads t hfeeds hgood hend hresumes =>
    have hmore := hfeeds.extend (gifStep_stable E) x
    have hcalled := gifLoop_called hgood (ho.later hmore)
    have hsame : runLoop (gifLoop E) ((iop.ibuf ++ x).length + 1) (iop.ihook, iop.ibuf ++ x) =
        runLoop (gifLoop E) ((iop.ibuf ++ x).length + 1) (t, iop.ibuf ++ x) := by
      rcases hresumes with hresumes | ⟨_, hagain⟩
      · rw [hresumes]
      · apply runLoop_first
        unfold gifLoop
        dsimp only
        rw [hagain]
    have hrun : gif_decoder_decode E (iop.read x false) =
        (runLoop (gifLoop E) ((iop.ibuf ++ x).length + 1) (t, iop.ibuf ++ x)).join.map fun p =>
          (if p.2.2 > 0 then 0 else -1,
            { io_eat_input (iop.read x false) ((iop.ibuf ++ x).length - p.2.1.length) with iptr := 0, ihook := p.1 }) := by
      rw [← hsame]
      rfl
    rw [hrun]
    generalize (runLoop (gifLoop E) ((iop.ibuf ++ x).length + 1) (t, iop.ibuf ++ x)).join = result at hcalled ⊢
    cases hcalled with
    | waits t' gif' q hfeeds' hgood' hend' hresumes' =>
      refine ⟨_, _, rfl, .inl ⟨rfl, ?_⟩⟩
      have hibuf : (io_eat_input (iop.read x false) ((iop.ibuf ++ x).length - q.length)).ibuf = q :=
        eat_suffix (feeds_suffix hfeeds')
      refine .reads t' ?_ hgood' ?_ ?_
      · dsimp only
        rw [hibuf]
        exact hmore.trans hfeeds'
      · dsimp only
        rw [hibuf]
        exact hend'
      · dsimp only
        rw [hibuf]
        exact hresumes'
    | skips t' q hfeeds' hskip later => exact ⟨_, _, rfl, .inl ⟨rfl, .skips q (hmore.trans hfeeds') hskip⟩⟩
    | fails t' gif' q later hfeeds' hbefore hturn =>
      refine ⟨_, _, rfl, .inr ⟨by simp, t', q, hmore.trans hfeeds', hbefore, ?_, ?_⟩⟩
      · rw [step_early hbefore.early.1, hturn]
      · intro y
        rw [step_early hbefore.early.1]
        rcases gifTurn_extend (E := E) hbefore.early q with ⟨gif₁, hstop, _⟩ | ⟨_, hextend⟩
        · cases hturn.symm.trans hstop
        · rw [hextend, hturn]
          rfl
  | skips q hfeeds hskip =>
    have hloop : runLoop (gifLoop E) ((iop.ibuf ++ x).length + 1) (iop.ihook, iop.ibuf ++ x) = some (some (iop.ihook, [], 1)) := by
      unfold runLoop gifLoop gifTurn
      dsimp only
      rw [hskip]
    have hrun : gif_decoder_decode E (iop.read x false) =
        (runLoop (gifLoop E) ((iop.ibuf ++ x).length + 1) (iop.ihook, iop.ibuf ++ x)).join.map fun p =>
          (if p.2.2 > 0 then 0 else -1,
            { io_eat_input (iop.read x false) ((iop.ibuf ++ x).length - p.2.1.length) with iptr := 0, ihook := p.1 }) := rfl
    rw [hrun, hloop]
    exact ⟨_, _, rfl, .inl ⟨rfl, .skips (q ++ x) (hfeeds.extend (gifStep_stable E) x) hskip⟩⟩

theorem deliver_place {reads : List (List Byte)} (h : Place E file iop) (ho : Orderly E gif_info_alloc (file ++ reads.flatten)) :
    ∃ iop', gif_deliver E iop reads = some iop' ∧ (Place E (file ++ reads.flatten) iop' ∨ Fails E (file ++ reads.flatten)) := by
  induction reads generalizing file iop with
  | nil =>
    refine ⟨iop, rfl, .inl ?_⟩
    rw [List.flatten_nil, List.append_nil]
    exact h
  | cons x reads ih =>
    rw [List.flatten_cons, ← List.append_assoc] at ho
    rw [List.flatten_cons, ← List.append_assoc]
    obtain ⟨r, iop', hcall, hplace | ⟨hneg, t, q, hfeeds, hbefore, hend, hmore⟩⟩ := decode_more h (ho.first)
    · obtain ⟨hzero, hplace⟩ := hplace
      obtain ⟨last, hlast, hend⟩ := ih hplace ho
      refine ⟨last, ?_, hend⟩
      rw [gif_deliver, hcall, Option.bind_some, if_neg (by dsimp only; omega)]
      exact hlast
    · refine ⟨iop', ?_, .inr ⟨t, q ++ reads.flatten, hfeeds.extend (gifStep_stable E) _, hbefore, hmore _, ?_⟩⟩
      · rw [gif_deliver, hcall, Option.bind_some, if_pos hneg]
      · intro y
        rw [List.append_assoc]
        exact hmore _

theorem deliver_end (h : Orderly E gif_info_alloc file) (hfeeds : Feeds (gifStep E) gif_info_alloc file t q) (ht : t.state = .Skip)
    {reads : List (List Byte)} (hreads : reads.flatten = file) : ∃ iop, gif_deliver E gif_start reads = some iop ∧ iop.ihook = t := by
  obtain ⟨iop, hiop, hplace⟩ := deliver_place place_start (by rw [hreads]; exact h)
  rw [List.nil_append, hreads] at hplace
  have hend : gifStep E t q = none := step_skip ht
  refine ⟨iop, hiop, ?_⟩
  rcases hplace with hplace | ⟨t', q', hfeeds', hbefore, hend', _⟩
  · cases hplace with
    | reads t' hfeeds' hgood hend' hresumes =>
      obtain ⟨rfl, _⟩ := hfeeds.unique hend hfeeds' hend'
      rcases hresumes with hsame | ⟨hbefore, _⟩
      · exact hsame
      · exact absurd ht hbefore.early.2.1
    | skips q' hfeeds' hskip =>
      obtain ⟨hsame, _⟩ := hfeeds.unique hend hfeeds' (step_skip hskip)
      exact hsame.symm
  · obtain ⟨rfl, _⟩ := hfeeds.unique hend hfeeds' hend'
    exact absurd ht hbefore.early.2.1

end WWindowSystem.Gif
