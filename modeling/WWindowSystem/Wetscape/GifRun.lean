import WWindowSystem.Wetscape.GifTurns

namespace WWindowSystem.Gif

variable {E : GifEnv} {gif gif' : gif_info_t} {cp cp' : List Byte}

structure Before (gif : gif_info_t) : Prop where
  early : gif.state ≠ .InImage ∧ gif.state ≠ .Skip ∧ gif.state ≠ .InError
  size : gif.block.byte_buff.length = 257
  inside : gif.block.pbytes ≤ 256
  fresh : gif.state = .InHeader → gif.cmap = none
  sized : gif.state = .InCmap → 0 < gif.cmapsz
  colors : ∀ cmap, gif.cmap = some cmap → (cmap.length : Int) = gif.cmapsz

def gif_info_t.reading (gif : gif_info_t) (input : List Byte) : Reading := ⟨gif.block, gif.table, gif.out, input⟩

def gif_info_t.keep (gif : gif_info_t) (d : Reading) : gif_info_t :=
  { gif with block := d.block, table := d.table, out := d.out }

structure Within (gif : gif_info_t) (img : gif_image) (cmap : List Byte) : Prop where
  state : gif.state = .InImage
  has_img : gif.img = some img
  has_cmap : gif.cmap = some cmap
  readable : Readable (gif.screen img cmap) (gif.reading [])

inductive Good (gif : gif_info_t) : Prop
  | before (h : Before gif)
  | image (img : gif_image) (cmap : List Byte) (h : Within gif img cmap)
  | done (h : gif.state = .Skip)

inductive Ends (cp : List Byte) : Turn → Prop
  | waits (gif : gif_info_t) : Ends cp (.stop gif cp 1)
  | fails (gif : gif_info_t) (cp' : List Byte) : Ends cp (.stop gif cp' (-1))
  | next (gif : gif_info_t) (cp' : List Byte) (h : Good gif) (hless : cp'.length < cp.length) : Ends cp (.next gif cp')

theorem colors_pos (flags : Byte) : 0 < colors flags := by
  unfold colors
  positivity

variable {cmap : List Byte}

theorem getcmap_colors (h : 0 < gif.cmapsz) (cp : List Byte) (hcmap : (getcmap cp gif).cmap = some cmap) :
    (cmap.length : Int) = (getcmap cp gif).cmapsz := by
  unfold getcmap at hcmap ⊢
  cases hcmap
  rw [greys_length]
  dsimp only
  omega

theorem header_turn_ends (h : Before gif) (hstate : gif.state = .InHeader) (cp : List Byte) : Ends cp (header_turn gif cp) := by
  have hnone := h.fresh hstate
  have hcolors : ∀ cmap, gif.cmap = some cmap → False := by
    intro cmap hcmap
    rw [hnone] at hcmap
    cases hcmap
  unfold header_turn
  split_ifs with hlen hmagic
  · exact .waits gif
  · exact .fails _ cp
  · dsimp only
    have hless : (cp.drop 13).length < cp.length := by
      rw [List.length_drop]
      omega
    split_ifs
    · refine .next _ _ (.before ⟨⟨nofun, nofun, nofun⟩, h.size, h.inside, nofun, fun _ => colors_pos _, ?_⟩) hless
      intro cmap hcmap
      exact (hcolors cmap hcmap).elim
    · refine .next _ _ (.before ⟨⟨nofun, nofun, nofun⟩, h.size, h.inside, nofun, nofun, ?_⟩) hless
      intro cmap hcmap
      exact (hcolors cmap hcmap).elim

theorem cmap_turn_ends (h : Before gif) (hstate : gif.state = .InCmap) (cp : List Byte) : Ends cp (cmap_turn gif cp) := by
  have hsized := h.sized hstate
  unfold cmap_turn
  split_ifs with hlen
  · exact .waits gif
  · refine .next _ _ (.before ⟨⟨nofun, nofun, nofun⟩, h.size, h.inside, nofun, nofun, ?_⟩) ?_
    · intro cmap hcmap
      exact getcmap_colors hsized cp hcmap
    · rw [List.length_drop]
      omega

theorem select_turn_ends (h : Before gif) (cp : List Byte) : Ends cp (select_turn gif cp) := by
  cases cp with
  | nil => exact .waits gif
  | cons c later =>
    unfold select_turn
    dsimp only
    split_ifs
    · exact .fails _ _
    · cases later with
      | nil => exact .waits gif
      | cons d later =>
        apply Ends.next
        · exact .before ⟨⟨nofun, nofun, nofun⟩, h.size, h.inside, nofun, nofun, h.colors⟩
        · rw [List.length_cons, List.length_cons]
          omega
    · apply Ends.next
      · exact .before ⟨⟨nofun, nofun, nofun⟩, h.size, h.inside, nofun, nofun, h.colors⟩
      · rw [List.length_cons]
        omega
    · exact .fails _ _

theorem ext_turn_ends (h : Before gif) (cp : List Byte) : Ends cp (ext_turn gif cp) := by
  cases cp with
  | nil => exact .waits gif
  | cons i later =>
    unfold ext_turn
    dsimp only
    split_ifs
    · apply Ends.next
      · exact .before ⟨⟨nofun, nofun, nofun⟩, h.size, h.inside, nofun, nofun, h.colors⟩
      · rw [List.length_cons]
        omega
    · exact .waits gif
    · refine .next _ _ (.before h) ?_
      rw [List.length_drop, List.length_cons]
      omega

def first_table (E : GifEnv) (size : Nat) (clearing : Bool) : gif_table where
  curr_size := size + 1
  top_slot := 2 ^ (size + 1)
  clear := 2 ^ size
  ending := 2 ^ size + 1
  newcodes := 2 ^ size + 1 + 1
  slot := 2 ^ size + 1 + 1
  suffix := E.suffix
  prefixes := E.prefixes
  dec_fc := 0
  dec_oc := 0
  dec_size := size
  dec_clearing := clearing

theorem first_table_good {size : Nat} (hsize : 2 ≤ size ∧ size ≤ 9) (clearing : Bool) : Table (first_table E size clearing) := by
  have hpow : (2 : Int) ^ (size + 1) = 2 ^ size * 2 := pow_succ _ _
  have hfour : (2 : Int) ^ 2 ≤ 2 ^ size := pow_le_pow_right₀ (by decide) hsize.1
  have hroom : (2 : Int) ^ size + 1 + 1 < 2 ^ (size + 1) := by
    rw [hpow]
    omega
  refine ⟨⟨hsize, rfl, rfl, ?_, le_refl _, ⟨le_refl _, ?_⟩, rfl, le_of_lt hroom, ?_, fun _ => ⟨le_refl _, ?_⟩⟩, .inl hroom⟩
  · unfold first_table
    dsimp only
    omega
  · unfold first_table
    dsimp only
    omega
  · intro k hk hk'
    unfold first_table at hk hk'
    dsimp only at hk hk'
    omega
  · unfold first_table
    dsimp only
    omega

def begun (E : GifEnv) (img : gif_image) (buf : List (Int × Int)) (size : Nat) (gif : gif_info_t) : gif_info_t :=
  { gif with
    img := some img
    state := .InImage
    block := { gif.block with navail_bytes := 0, nbits_left := 0 }
    table := first_table E size gif.table.dec_clearing
    out := { gif.out with errbuf := buf, pixels := 0, mask := 0x80, dec_x := 0 } }

variable {buf : List (Int × Int)}

theorem begun_within {img : gif_image} {size : Nat} (hwd : 0 < img.wd ∧ img.wd ≤ 65535)
    (hsize : 2 ≤ size ∧ size ≤ 9) (hbytes : gif.block.byte_buff.length = 257) (hinside : gif.block.pbytes ≤ 256)
    (hcmap : gif.cmap = some cmap) (hcolors : (cmap.length : Int) = gif.cmapsz)
    (hbuf : gif.interlaced = false → (buf.length : Int) = img.wd + 4) : Within (begun E img buf size gif) img cmap := by
  refine ⟨rfl, rfl, hcmap, ⟨hcolors, hwd⟩, ⟨le_refl _, ?_, hbuf⟩, ⟨hbytes, ?_, ?_, Nat.zero_le _⟩, first_table_good hsize _⟩
  · unfold gif_info_t.reading begun
    dsimp only
    omega
  · unfold gif_info_t.reading begun
    dsimp only
    omega
  · unfold gif_info_t.reading begun
    dsimp only
    omega

theorem getimage_cases (wd ht : Int) (gif : gif_info_t) : getimage E wd ht gif = none ∨ 0 < wd ∧ ∃ buf,
    getimage E wd ht gif = some { gif with img := some ⟨wd, ht⟩, out := { gif.out with errbuf := buf } } ∧
      (gif.interlaced = false → (buf.length : Int) = wd + 4) := by
  by_cases hpos : wd ≤ 0 ∨ ht ≤ 0
  · exact .inl (if_pos hpos)
  · by_cases hwin : E.getwin wd ht gif.interlaced = true
    · right
      refine ⟨by omega, if gif.interlaced then gif.out.errbuf else List.replicate (wd + 4).toNat (0, 0), ?_, ?_⟩
      · rw [getimage, if_neg hpos, if_pos hwin]
      · intro hilace
        rw [hilace, if_neg (by decide), List.length_replicate]
        omega
    · left
      rw [getimage, if_neg hpos, if_neg hwin]

theorem start_image_begun {wd ht : Int} {size : Byte} (hcmap : gif.cmap = some cmap)
    (himage : getimage E wd ht gif = some { gif with img := some ⟨wd, ht⟩, out := { gif.out with errbuf := buf } })
    (hsize : ¬ (size.toNat < 2 ∨ 9 < size.toNat)) (later : List Byte) :
    start_image E wd ht gif (size :: later) = .next (begun E ⟨wd, ht⟩ buf size.toNat gif) later := by
  unfold start_image decoder_init
  rw [hcmap, himage]
  dsimp only
  rw [if_neg hsize]
  unfold begun first_table
  rw [hcmap]

theorem start_image_ends {wd ht : Int} {input : List Byte} (hwd : wd ≤ 65535) (hinput : input ≠ [])
    (hlen : input.length < cp.length) (hbytes : gif.block.byte_buff.length = 257) (hinside : gif.block.pbytes ≤ 256)
    (hcolors : ∀ cmap, gif.cmap = some cmap → (cmap.length : Int) = gif.cmapsz) :
    Ends cp (start_image E wd ht gif input) := by
  cases input with
  | nil => exact absurd rfl hinput
  | cons size later =>
    rw [List.length_cons] at hlen
    cases hcmap : gif.cmap with
    | none =>
      unfold start_image
      rw [hcmap]
      exact .fails _ _
    | some cmap =>
      rcases getimage_cases (E := E) wd ht gif with hnone | ⟨hpos, buf, hsome, hbuf⟩
      · unfold start_image
        rw [hcmap, hnone]
        exact .fails _ _
      · by_cases hsize : size.toNat < 2 ∨ 9 < size.toNat
        · unfold start_image decoder_init
          rw [hcmap, hsome]
          dsimp only
          rw [if_pos hsize]
          exact .fails _ _
        · rw [start_image_begun hcmap hsome hsize]
          refine .next _ _ (.image ⟨wd, ht⟩ cmap ?_) (by omega)
          exact begun_within ⟨hpos, hwd⟩ (by omega) hbytes hinside hcmap (hcolors cmap hcmap) hbuf

theorem desc_turn_ends (h : Before gif) (cp : List Byte) : Ends cp (desc_turn E gif cp) := by
  unfold desc_turn
  split_ifs with hlen
  · exact .waits gif
  · have hlow : (cp.getD 4 0).toNat < 256 := (cp.getD 4 0).isLt
    have hhigh : (cp.getD 5 0).toNat < 256 := (cp.getD 5 0).isLt
    have hpos := colors_pos (cp.getD 8 0)
    generalize cp.getD 8 0 = flags at hpos ⊢
    dsimp only at hlow hhigh ⊢
    split_ifs with hflags hall
    · exact .waits _
    · apply start_image_ends
      · omega
      · rw [← List.length_pos_iff_ne_nil, List.length_drop]
        omega
      · rw [List.length_drop]
        omega
      · exact h.size
      · exact h.inside
      · intro cmap hcmap
        exact getcmap_colors hpos _ hcmap
    · apply start_image_ends
      · omega
      · rw [← List.length_pos_iff_ne_nil, List.length_drop]
        omega
      · rw [List.length_drop]
        omega
      · exact h.size
      · exact h.inside
      · exact h.colors

theorem gifTurn_ends (h : Before gif) (cp : List Byte) : Ends cp (gifTurn E gif cp) := by
  obtain ⟨himage, hskip, herror⟩ := h.early
  unfold gifTurn
  cases hstate : gif.state with
  | InHeader => exact header_turn_ends h hstate cp
  | InCmap => exact cmap_turn_ends h hstate cp
  | InSelect => exact select_turn_ends h cp
  | InExt => exact ext_turn_ends h cp
  | InImageDesc => exact desc_turn_ends h cp
  | InImage => exact absurd hstate himage
  | Skip => exact absurd hstate hskip
  | InError => exact absurd hstate herror

theorem early_turn (h : gif.state ≠ .InImage ∧ gif.state ≠ .Skip ∧ gif.state ≠ .InError) (cp : List Byte) : ∃ turn : gif_info_t → List Byte → Turn,
    (∀ gif' cp, gif'.state = gif.state → gifTurn E gif' cp = turn gif' cp) ∧
      (Waits turn gif cp ∨ Fixed turn gif cp) := by
  obtain ⟨himage, hskip, herror⟩ := h
  unfold gifTurn
  cases hstate : gif.state with
  | InHeader => exact ⟨header_turn, fun gif' cp hsame => by rw [hsame], header_turn_extend gif cp⟩
  | InCmap => exact ⟨cmap_turn, fun gif' cp hsame => by rw [hsame], cmap_turn_extend gif cp⟩
  | InSelect => exact ⟨select_turn, fun gif' cp hsame => by rw [hsame], select_turn_extend gif cp⟩
  | InExt => exact ⟨ext_turn, fun gif' cp hsame => by rw [hsame], ext_turn_extend gif cp⟩
  | InImageDesc => exact ⟨desc_turn E, fun gif' cp hsame => by rw [hsame], desc_turn_extend gif cp⟩
  | InImage => exact absurd hstate himage
  | Skip => exact absurd hstate hskip
  | InError => exact absurd hstate herror

theorem gifTurn_extend (h : gif.state ≠ .InImage ∧ gif.state ≠ .Skip ∧ gif.state ≠ .InError) (cp : List Byte) :
    Waits (gifTurn E) gif cp ∨ Fixed (gifTurn E) gif cp := by
  obtain ⟨turn, hturn, hextend⟩ := early_turn (E := E) h cp
  rcases hextend with ⟨gif', hstop, hsame, hagain⟩ | ⟨hsettled, hextend⟩
  · left
    refine ⟨gif', (hturn gif cp rfl).trans hstop, hsame, fun x => ?_⟩
    rw [hturn gif' _ hsame, hturn gif _ rfl, hagain]
  · right
    constructor
    · rw [hturn gif _ rfl]
      exact hsettled
    · intro x
      rw [hturn gif _ rfl, hturn gif _ rfl, hextend]

end WWindowSystem.Gif

namespace WWindowSystem.Gif

variable {E : GifEnv} {s : gif_screen} {d d' : Reading} {gif gif' : gif_info_t} {cp cp' : List Byte}

def gifStep (E : GifEnv) (gif : gif_info_t) (cp : List Byte) : Option (gif_info_t × List Byte) :=
  match gif.state with
  | .InImage =>
    match gif.img, gif.cmap with
    | some img, some cmap =>
      match codeTurn E (gif.screen img cmap) (gif.reading cp) with
      | .inl d => some (gif.keep d, d.input)
      | .inr (some (i, d)) => if i = 1 then some ({ gif.keep d with state := .Skip }, d.input) else none
      | .inr none => none
    | _, _ => none
  | _ =>
    match gifTurn E gif cp with
    | .next gif cp => some (gif, cp)
    | _ => none

theorem step_early (h : gif.state ≠ .InImage) (cp : List Byte) : gifStep E gif cp =
    match gifTurn E gif cp with
    | .next gif cp => some (gif, cp)
    | _ => none := by
  unfold gifStep
  cases hstate : gif.state with
  | InImage => exact absurd hstate h
  | InHeader => rfl
  | InCmap => rfl
  | InSelect => rfl
  | InExt => rfl
  | InImageDesc => rfl
  | Skip => rfl
  | InError => rfl

theorem step_skip (h : gif.state = .Skip) : gifStep E gif cp = none := by
  rw [step_early (by rw [h]; decide) cp, gifTurn, h]

theorem step_image {img : gif_image} {cmap : List Byte} (hstate : gif.state = .InImage) (himg : gif.img = some img)
    (hcmap : gif.cmap = some cmap) : gifStep E gif cp =
      match codeTurn E (gif.screen img cmap) (gif.reading cp) with
      | .inl d => some (gif.keep d, d.input)
      | .inr (some (i, d)) => if i = 1 then some ({ gif.keep d with state := .Skip }, d.input) else none
      | .inr none => none := by
  unfold gifStep
  rw [hstate, himg, hcmap]

theorem gifStep_stable (E : GifEnv) : Stable (gifStep E) := by
  intro gif cp gif' cp' x h
  by_cases himage : gif.state = .InImage
  · cases himg : gif.img with
    | none =>
      unfold gifStep at h
      rw [himage, himg] at h
      cases h
    | some img =>
      cases hcmap : gif.cmap with
      | none =>
        unfold gifStep at h
        rw [himage, himg, hcmap] at h
        cases h
      | some cmap =>
        rw [step_image himage himg hcmap] at h ⊢
        cases hturn : codeTurn E (gif.screen img cmap) (gif.reading cp) with
        | inl d =>
          have hmore := codeTurn_extend hturn x
          rw [hturn] at h
          cases h
          unfold gif_info_t.reading at hmore ⊢
          rw [hmore]
          rfl
        | inr r =>
          cases r with
          | none =>
            rw [hturn] at h
            cases h
          | some p =>
            obtain ⟨i, d⟩ := p
            rw [hturn] at h
            dsimp only at h
            split_ifs at h with hi
            subst hi
            have hmore := codeTurn_ends hturn x
            cases h
            unfold gif_info_t.reading at hmore ⊢
            rw [hmore]
            rfl
  · rw [step_early himage] at h ⊢
    by_cases hearly : gif.state = .Skip ∨ gif.state = .InError
    · unfold gifTurn at h
      rcases hearly with hstate | hstate
      · rw [hstate] at h
        cases h
      · rw [hstate] at h
        cases h
    · rw [not_or] at hearly
      rcases gifTurn_extend (E := E) ⟨himage, hearly⟩ cp with ⟨gif₁, hstop, _⟩ | ⟨_, hextend⟩
      · rw [hstop] at h
        cases h
      · rw [hextend]
        cases hturn : gifTurn E gif cp with
        | next gif₁ cp₁ =>
          rw [hturn] at h
          cases h
          rfl
        | stop gif₁ cp₁ i =>
          rw [hturn] at h
          cases h
        | bad =>
          rw [hturn] at h
          cases h

def Orderly (E : GifEnv) (gif : gif_info_t) (cp : List Byte) : Prop :=
  ∀ t q, Feeds (gifStep E) gif cp t q → t.state = .InImage → CodeFits (t.reading q)

theorem Orderly.later (h : Orderly E gif cp) (hfeeds : Feeds (gifStep E) gif cp gif' cp') : Orderly E gif' cp' :=
  fun t q hrest => h t q (hfeeds.trans hrest)

theorem codeFits_of_more (d : Reading) (x : List Byte) (h : CodeFits { d with input := d.input ++ x }) : CodeFits d :=
  fun hclearing c block input hcode => h hclearing c block (input ++ x) (get_next_code_extend hcode x)

theorem Orderly.first {x : List Byte} (h : Orderly E gif (cp ++ x)) : Orderly E gif cp :=
  fun t q hfeeds hstate => codeFits_of_more (t.reading q) x (h t (q ++ x) (hfeeds.extend (gifStep_stable E) x) hstate)

theorem Orderly.head (hfits : gif.state = .InImage → CodeFits (gif.reading cp)) (hstep : gifStep E gif cp = some (gif', cp'))
    (h : Orderly E gif' cp') : Orderly E gif cp := by
  intro t q hfeeds hstate
  cases hfeeds with
  | refl => exact hfits hstate
  | head hstep' hrest =>
    rw [hstep] at hstep'
    cases hstep'
    exact h t q hrest hstate

theorem codeTurn_suffix (h : codeTurn E s d = .inl d' ∨ ∃ i, codeTurn E s d = .inr (some (i, d'))) : d'.input <:+ d.input := by
  cases hcode : get_next_code d.table.curr_size d.block d.input with
  | bad =>
    rw [codeTurn, hcode] at h
    rcases h with h | ⟨i, h⟩
    · cases h
    · cases h
  | eof =>
    rw [codeTurn, hcode] at h
    rcases h with h | ⟨i, h⟩
    · cases h
    · cases h
      exact List.suffix_refl _
  | code c block input =>
    have hsuffix := get_next_code_suffix hcode
    rw [codeTurn_code hcode] at h
    rcases h with h | ⟨i, h⟩
    · rw [(take_code_input h []).1]
      exact hsuffix
    · obtain ⟨_, _, hd⟩ := take_code_ends h
      rw [hd]
      exact hsuffix

theorem start_image_suffix {wd ht : Int} {input : List Byte} (h : start_image E wd ht gif input = .next gif' cp') : cp' <:+ input := by
  cases input with
  | nil =>
    unfold start_image at h
    cases hcmap : gif.cmap with
    | none =>
      rw [hcmap] at h
      cases h
    | some cmap =>
      rw [hcmap] at h
      dsimp only at h
      cases himg : getimage E wd ht gif with
      | none =>
        rw [himg] at h
        cases h
      | some gif =>
        rw [himg] at h
        cases h
  | cons size later =>
    unfold start_image at h
    cases hcmap : gif.cmap with
    | none =>
      rw [hcmap] at h
      cases h
    | some cmap =>
      rw [hcmap] at h
      dsimp only at h
      cases himg : getimage E wd ht gif with
      | none =>
        rw [himg] at h
        cases h
      | some gif₁ =>
        rw [himg] at h
        dsimp only at h
        cases hinit : decoder_init E size gif₁ with
        | none =>
          rw [hinit] at h
          cases h
        | some gif₂ =>
          rw [hinit] at h
          cases h
          exact List.suffix_cons _ _

theorem gifTurn_suffix (h : gifTurn E gif cp = .next gif' cp') : cp' <:+ cp := by
  unfold gifTurn at h
  cases hstate : gif.state with
  | InHeader =>
    rw [hstate] at h
    dsimp only at h
    unfold header_turn failed at h
    dsimp only at h
    split_ifs at h
    · cases h
      exact List.drop_suffix _ _
    · cases h
      exact List.drop_suffix _ _
  | InCmap =>
    rw [hstate] at h
    dsimp only at h
    unfold cmap_turn at h
    split_ifs at h
    cases h
    exact List.drop_suffix _ _
  | InSelect =>
    rw [hstate] at h
    dsimp only at h
    unfold select_turn failed at h
    cases cp with
    | nil => cases h
    | cons c later =>
      dsimp only at h
      split_ifs at h
      · cases later with
        | nil => cases h
        | cons e later =>
          cases h
          exact (List.suffix_cons _ _).trans (List.suffix_cons _ _)
      · cases h
        exact List.suffix_cons _ _
  | InExt =>
    rw [hstate] at h
    dsimp only at h
    unfold ext_turn at h
    cases cp with
    | nil => cases h
    | cons i later =>
      dsimp only at h
      split_ifs at h
      · cases h
        exact List.suffix_cons _ _
      · cases h
        exact List.drop_suffix _ _
  | InImageDesc =>
    rw [hstate] at h
    dsimp only at h
    unfold desc_turn at h
    dsimp only at h
    split_ifs at h
    · exact (start_image_suffix h).trans (List.drop_suffix _ _)
    · exact (start_image_suffix h).trans (List.drop_suffix _ _)
  | InImage =>
    rw [hstate] at h
    dsimp only at h
    unfold image_turn at h
    split at h
    · split at h
      · cases h
      · dsimp only at h
        split_ifs at h
    · cases h
  | Skip =>
    rw [hstate] at h
    cases h
  | InError =>
    rw [hstate] at h
    cases h

theorem gifStep_suffix (h : gifStep E gif cp = some (gif', cp')) : cp' <:+ cp := by
  by_cases himage : gif.state = .InImage
  · unfold gifStep at h
    rw [himage] at h
    dsimp only at h
    split at h
    · split at h
      · rename_i hturn
        cases h
        exact codeTurn_suffix (.inl hturn)
      · rename_i hturn
        split_ifs at h
        cases h
        exact codeTurn_suffix (.inr ⟨_, hturn⟩)
      · cases h
    · cases h
  · rw [step_early himage] at h
    cases hturn : gifTurn E gif cp with
    | next gif₁ cp₁ =>
      rw [hturn] at h
      cases h
      exact gifTurn_suffix hturn
    | stop gif₁ cp₁ i =>
      rw [hturn] at h
      cases h
    | bad =>
      rw [hturn] at h
      cases h

theorem feeds_suffix (h : Feeds (gifStep E) gif cp gif' cp') : cp' <:+ cp := by
  induction h with
  | refl => exact List.suffix_refl _
  | head hstep _ ih => exact ih.trans (gifStep_suffix hstep)

end WWindowSystem.Gif
