import Mathlib.Data.List.Basic
import Mathlib.Data.List.Nodup
import Mathlib.Data.List.Perm.Basic
import Mathlib.Logic.Function.Basic
import Mathlib.Logic.Function.Iterate
import Mathlib.Tactic.Ring
import WWindowSystem.Library.Words

namespace WWindowSystem.Image

open List Function

abbrev char := BitVec 8

structure interlace_t where
  start : Int
  offs : Int
  deriving DecidableEq

/-- What goes to the windows: a block put at a row of the image window, or a part of it copied to the page. -/
inductive Shown where
  | put (wd ypos : Int) (rows : List (List char))
  | blit (x0 y0 wd ht x1 y1 : Int)
  deriving DecidableEq

structure image_t where
  x : Int
  y : Int
  wd : Int
  ht : Int
  cur_ht : Int
  win : Bool
  ilace : List interlace_t
  bpl : Int
  pad : Int
  nlines : Int
  npasses : Int
  newlines : Int
  cur_pass : Int
  cur_y : Int
  cur_bytes : Int
  cur_lines : Int
  buf : Int → char
  cp : Int
  locked : Bool
  shown : List Shown

def def_ilace : List interlace_t := [⟨0, 1⟩]

def gif_ilace : List interlace_t := [⟨0, 8⟩, ⟨4, 8⟩, ⟨2, 4⟩, ⟨1, 2⟩]

def image_t.pass (img : image_t) : interlace_t := img.ilace.getD img.cur_pass.toNat ⟨0, 0⟩

/-- `malloc` and `create` say whether there is memory for the buffer and whether `w_create` gives a window. -/
def image_getwin (malloc create : Bool) (wd ht : Int) (ilace : List interlace_t) (npasses : Int) (img : image_t) :
    Option image_t :=
  let bpl := short (Int.shiftRight (wd + 7) 3)
  let pad := short ((4 - bpl % 4) % 4)
  let lines := if npasses = 0 then max (min (1024 / (bpl + pad)) ht) 1 else 1
  let table := if npasses = 0 then def_ilace else ilace
  let img' :=
    if img.win then some img
    else if malloc then
      some { img with
        bpl := bpl, pad := pad, nlines := short lines, ilace := table, npasses := short (if npasses = 0 then 1 else npasses),
        newlines := 0, cur_y := (table.getD 0 ⟨0, 0⟩).start, cur_pass := 0, cur_lines := 0, cur_bytes := 0, cp := 0 }
    else none
  img'.bind fun img => if create then some { img with win := true, wd := wd, ht := ht } else none

def image_t.data (img : image_t) (lines : Int) : List (List char) :=
  (List.range lines.toNat).map fun i : Nat =>
    (List.range img.bpl.toNat).map fun j : Nat => img.buf (i * ((img.wd + 31) / 32 * 4) + j)

def image_update (ypos : Int) (img : image_t) : image_t :=
  if img.locked then img
  else if img.npasses ≤ 1 then
    { img with shown := img.shown ++ [.blit 0 ypos img.wd img.cur_lines img.x (img.y + ypos)] }
  else
    let img := { img with newlines := short (img.newlines + img.pass.offs) }
    if img.newlines > Int.shiftRight img.ht 3 then
      { img with shown := img.shown ++ [.blit 0 0 img.wd img.cur_ht img.x img.y], newlines := 0 }
    else img

def image_next (img : image_t) : image_t :=
  let img := { img with cur_y := short (img.cur_y + img.pass.offs) }
  if img.cur_y ≥ img.ht then
    let img := { img with cur_pass := short (img.cur_pass + 1) }
    let img := if img.cur_pass ≥ img.npasses then { img with cur_pass := 0 } else img
    { img with cur_y := img.pass.start }
  else img

def image_put (img : image_t) : image_t :=
  let ypos := img.cur_y - img.cur_lines + 1
  let img := { img with shown := img.shown ++ [.put img.wd ypos (img.data img.cur_lines)] }
  let img := if img.cur_y + 1 > img.cur_ht then { img with cur_ht := img.cur_y + 1 } else img
  { image_next (image_update ypos img) with cur_lines := 0, cur_bytes := 0, cp := 0 }

def image_flush (img : image_t) : image_t :=
  let img :=
    if img.cur_y ≥ img.ht then
      { img with cur_lines := short (img.cur_lines - (img.cur_y - img.ht + 1)), cur_y := short (img.ht - 1) }
    else img
  if img.cur_lines ≤ 0 then
    -- this way out leaves `cp` behind the line that has been written
    if img.cur_lines < 0 ∨ img.cur_bytes = 0 then img else image_put { img with cur_lines := 1 }
  else image_put img

def image_addpixels (img : image_t) (eight_pixels : char) : Option image_t :=
  if 0 ≤ img.cp ∧ img.cp < img.nlines * (img.bpl + img.pad) then
    let img := { img with buf := Function.update img.buf img.cp eight_pixels, cp := img.cp + 1 }
    let img := { img with cur_bytes := short (img.cur_bytes + 1) }
    if img.cur_bytes ≥ img.bpl then
      let img := { img with cur_bytes := 0, cp := img.cp + img.pad, cur_lines := short (img.cur_lines + 1) }
      if img.cur_lines < img.nlines ∧ img.cur_y < img.ht - 1 then some { img with cur_y := short (img.cur_y + 1) }
      else some (image_flush img)
    else some img
  else none

structure Frame where
  wd : Int
  ht : Int
  bpl : Int
  pad : Int
  nlines : Int
  npasses : Int
  ilace : List interlace_t

def image_t.frame (img : image_t) : Frame := ⟨img.wd, img.ht, img.bpl, img.pad, img.nlines, img.npasses, img.ilace⟩

def Frame.next (f : Frame) (p : Int × Int) : Int × Int :=
  let y := short (p.2 + (f.ilace.getD p.1.toNat ⟨0, 0⟩).offs)
  if y ≥ f.ht then
    let pass := if short (p.1 + 1) ≥ f.npasses then 0 else short (p.1 + 1)
    (pass, (f.ilace.getD pass.toNat ⟨0, 0⟩).start)
  else (p.1, y)

def Frame.pos (f : Frame) (k : Nat) : Int × Int := f.next^[k] (0, (f.ilace.getD 0 ⟨0, 0⟩).start)

theorem Frame.pos_succ (f : Frame) (k : Nat) : f.pos (k + 1) = f.next (f.pos k) := iterate_succ_apply' _ _ _

def Shown.rows : Shown → List (Int × List char)
  | .put _ ypos rows => rows.zipIdx.map fun r => (ypos + r.2, r.1)
  | .blit .. => []

def Shown.Inside (wd ht : Int) : Shown → Prop
  | .put w ypos rows => w = wd ∧ 0 ≤ ypos ∧ ypos + rows.length ≤ ht
  | .blit .. => True

variable (ypos : Int)

theorem update_frame (img : image_t) : (image_update ypos img).frame = img.frame := by
  unfold image_update
  dsimp only
  split_ifs <;> rfl

theorem update_pos (img : image_t) :
    (image_update ypos img).cur_pass = img.cur_pass ∧ (image_update ypos img).cur_y = img.cur_y ∧
      (image_update ypos img).buf = img.buf := by
  unfold image_update
  dsimp only
  split_ifs <;> exact ⟨rfl, rfl, rfl⟩

theorem update_shown (img : image_t) : ∃ l, (image_update ypos img).shown = img.shown ++ l ∧
    l.flatMap Shown.rows = [] ∧ ∀ wd ht, ∀ b ∈ l, b.Inside wd ht := by
  unfold image_update
  dsimp only
  split_ifs
  · exact ⟨[], by simp, rfl, by simp⟩
  · exact ⟨_, rfl, rfl, by simp [Shown.Inside]⟩
  · exact ⟨_, rfl, rfl, by simp [Shown.Inside]⟩
  · exact ⟨[], by simp, rfl, by simp⟩

theorem next_frame (img : image_t) : (image_next img).frame = img.frame := by
  unfold image_next
  dsimp only
  split_ifs <;> rfl

theorem next_pos (img : image_t) : ((image_next img).cur_pass, (image_next img).cur_y) =
    img.frame.next (img.cur_pass, img.cur_y) := by
  unfold image_next Frame.next image_t.frame image_t.pass
  dsimp only
  split_ifs <;> rfl

theorem next_shown (img : image_t) : (image_next img).shown = img.shown ∧ (image_next img).buf = img.buf := by
  unfold image_next
  dsimp only
  split_ifs <;> exact ⟨rfl, rfl⟩

structure Flushed (img img' : image_t) (ypos : Int) (lines : List (List char)) : Prop where
  frame : img'.frame = img.frame
  pos : (img'.cur_pass, img'.cur_y) = img.frame.next (img.cur_pass, img.cur_y)
  reset : img'.cur_lines = 0 ∧ img'.cur_bytes = 0 ∧ img'.cp = 0
  shown : ∃ l, img'.shown = img.shown ++ .put img.wd ypos lines :: l ∧ l.flatMap Shown.rows = [] ∧
    ∀ wd ht, ∀ b ∈ l, b.Inside wd ht

theorem put_flushed (img : image_t) :
    Flushed img (image_put img) (img.cur_y - img.cur_lines + 1) (img.data img.cur_lines) := by
  obtain ⟨img₁, h₁, hf, hp, hy, hs⟩ : ∃ img₁, image_put img = { image_next (image_update (img.cur_y - img.cur_lines + 1) img₁) with
      cur_lines := 0, cur_bytes := 0, cp := 0 } ∧ img₁.frame = img.frame ∧ img₁.cur_pass = img.cur_pass ∧
      img₁.cur_y = img.cur_y ∧
      img₁.shown = img.shown ++ [.put img.wd (img.cur_y - img.cur_lines + 1) (img.data img.cur_lines)] := by
    refine ⟨_, rfl, ?_⟩
    split_ifs <;> exact ⟨rfl, rfl, rfl, rfl⟩
  obtain ⟨hup, huy, -⟩ := update_pos (img.cur_y - img.cur_lines + 1) img₁
  obtain ⟨l, hl, hrows, hin⟩ := update_shown (img.cur_y - img.cur_lines + 1) img₁
  have hframe := (update_frame (img.cur_y - img.cur_lines + 1) img₁).trans hf
  rw [h₁]
  refine ⟨(next_frame _).trans hframe, (next_pos _).trans ?_, ⟨rfl, rfl, rfl⟩, l, ?_, hrows, hin⟩
  · rw [hframe, hup, huy, hp, hy]
  · exact (next_shown _).1.trans (by rw [hl, hs, append_assoc]; rfl)

variable {img : image_t}

theorem flush_put (hy : img.cur_y < img.ht) (hl : 0 < img.cur_lines ∨ img.cur_lines = 0 ∧ img.cur_bytes ≠ 0) :
    Flushed img (image_flush img) (img.cur_y - max img.cur_lines 1 + 1) (img.data (max img.cur_lines 1)) := by
  rw [image_flush, if_neg (not_le.2 hy)]
  rcases hl with hl | ⟨hl, hb⟩
  · rw [if_neg (not_le.2 hl), max_eq_left (by omega)]
    exact put_flushed img
  · rw [if_pos (by omega), if_neg (by omega), hl, show max (0 : Int) 1 = 1 from rfl]
    have h := put_flushed { img with cur_lines := 1 }
    exact ⟨h.frame, h.pos, h.reset, h.shown⟩

theorem flush_idle (hy : img.cur_y < img.ht) (hl : img.cur_lines ≤ 0)
    (hb : img.cur_lines < 0 ∨ img.cur_bytes = 0) : image_flush img = img := by
  rw [image_flush, if_neg (not_le.2 hy), if_pos hl, if_pos hb]

theorem flush_lost {n : Int} (hy : img.ht ≤ img.cur_y)
    (hn : short (img.cur_lines - (img.cur_y - img.ht + 1)) = n) (hl : n ≤ 0) (hb : n < 0 ∨ img.cur_bytes = 0) :
    image_flush img = { img with cur_lines := n, cur_y := short (img.ht - 1) } := by
  rw [image_flush, if_pos hy, hn]
  dsimp only
  rw [if_pos hl, if_pos hb]

theorem flush_shown (img : image_t) : img.shown ⊆ (image_flush img).shown := by
  have put : ∀ img₁ : image_t, img₁.shown = img.shown → img.shown ⊆ (image_put img₁).shown := by
    intro img₁ h
    obtain ⟨l, hl, -⟩ := (put_flushed img₁).shown
    rw [hl, h]
    exact subset_append_left _ _
  obtain ⟨img₁, h₁, hs⟩ : ∃ img₁, image_flush img = (if img₁.cur_lines ≤ 0 then
      if img₁.cur_lines < 0 ∨ img₁.cur_bytes = 0 then img₁ else image_put { img₁ with cur_lines := 1 }
      else image_put img₁) ∧ img₁.shown = img.shown := by
    refine ⟨_, rfl, ?_⟩
    split_ifs <;> rfl
  rw [h₁]
  split_ifs
  · rw [hs]
    exact fun b hb => hb
  · exact put _ hs
  · exact put _ hs

theorem addpixels_shown {img img' : image_t} {c : char} (h : image_addpixels img c = some img') : img.shown ⊆ img'.shown := by
  rw [image_addpixels] at h
  dsimp only at h
  split_ifs at h <;> cases h
  · exact fun b hb => hb
  · exact fun b hb => flush_shown _ hb
  · exact fun b hb => hb

variable {ps : List char}

theorem foldl_shown {img img' : image_t} (h : ps.foldlM image_addpixels img = some img') :
    img.shown ⊆ img'.shown := by
  induction ps generalizing img with
  | nil =>
    cases h
    exact fun b hb => hb
  | cons c ps ih =>
    rw [foldlM_cons, Option.bind_eq_bind, Option.bind_eq_some_iff] at h
    obtain ⟨img₁, h₁, h₂⟩ := h
    exact fun b hb => ih h₂ (addpixels_shown h₁ hb)

def fillAt (buf : Int → char) (cp : Int) : List char → Int → char
  | [] => buf
  | c :: l => fillAt (Function.update buf cp c) (cp + 1) l

variable (buf : Int → char)

theorem fillAt_off (cp : Int) (l : List char) (z : Int) (hz : z < cp ∨ cp + l.length ≤ z) :
    fillAt buf cp l z = buf z := by
  induction l generalizing buf cp with
  | nil => rfl
  | cons c l ih =>
    rw [length_cons] at hz
    rw [fillAt, ih _ _ (by omega), update_of_ne (by omega)]

theorem fillAt_on (cp : Int) (l : List char) :
    (List.range l.length).map (fun j : Nat => fillAt buf cp l (cp + j)) = l := by
  induction l generalizing buf cp with
  | nil => rfl
  | cons c l ih =>
    rw [length_cons, range_succ_eq_map, map_cons, map_map]
    have hc : fillAt buf cp (c :: l) (cp + (0 : Nat)) = c := by
      rw [fillAt, fillAt_off _ _ _ _ (by omega)]
      simp
    rw [hc]
    congr 1
    refine (map_congr_left fun j _ => ?_).trans (ih (Function.update buf cp c) (cp + 1))
    rw [comp_apply, fillAt]
    congr 1
    push_cast
    omega

def image_t.wrote (img : image_t) (l : List char) : image_t :=
  { img with buf := fillAt img.buf img.cp l, cp := img.cp + l.length, cur_bytes := img.cur_bytes + l.length }

theorem fillAt_append (cp : Int) (a b : List char) :
    fillAt buf cp (a ++ b) = fillAt (fillAt buf cp a) (cp + a.length) b := by
  induction a generalizing buf cp with
  | nil => simp [fillAt]
  | cons c a ih =>
    rw [cons_append, fillAt, fillAt, ih, length_cons]
    congr 1
    push_cast
    omega

theorem wrote_append (img : image_t) (a b : List char) : (img.wrote a).wrote b = img.wrote (a ++ b) := by
  simp only [image_t.wrote, fillAt_append, length_append, Nat.cast_add, add_assoc]

theorem addpixels_part (img : image_t) (part : List char) (hcp : 0 ≤ img.cp)
    (hsize : img.cp + part.length ≤ img.nlines * (img.bpl + img.pad)) (hb : 0 ≤ img.cur_bytes)
    (hbpl : img.cur_bytes + part.length < img.bpl) (hmax : img.bpl ≤ 4096) :
    part.foldlM image_addpixels img = some (img.wrote part) := by
  induction part generalizing img with
  | nil => simp [image_t.wrote, fillAt]
  | cons c part ih =>
    rw [length_cons] at hsize hbpl
    have hshort : short (img.cur_bytes + 1) = img.cur_bytes + 1 := short_of_range (by omega) (by omega)
    have hone : image_addpixels img c = some (img.wrote [c]) := by
      rw [image_addpixels, if_pos (by omega)]
      dsimp only
      rw [hshort, if_neg (by omega)]
      rfl
    have hw : (img.wrote [c]).cp = img.cp + 1 ∧ (img.wrote [c]).cur_bytes = img.cur_bytes + 1 ∧
        (img.wrote [c]).bpl = img.bpl ∧ (img.wrote [c]).pad = img.pad ∧ (img.wrote [c]).nlines = img.nlines :=
      ⟨rfl, rfl, rfl, rfl, rfl⟩
    obtain ⟨h1, h2, h3, h4, h5⟩ := hw
    rw [foldlM_cons, hone, Option.bind_eq_bind, Option.bind_some]
    refine (ih _ (by omega) ?_ (by omega) (by omega) (by omega)).trans (by rw [wrote_append]; rfl)
    rw [h1, h3, h4, h5]
    omega

def endLine (img : image_t) : image_t :=
  let img := { img with cur_bytes := 0, cp := img.cp + img.pad, cur_lines := short (img.cur_lines + 1) }
  if img.cur_lines < img.nlines ∧ img.cur_y < img.ht - 1 then { img with cur_y := short (img.cur_y + 1) } else image_flush img

theorem addpixels_line (img : image_t) (line : List char) (hcp : 0 ≤ img.cp)
    (hsize : img.cp + img.bpl ≤ img.nlines * (img.bpl + img.pad)) (hb : img.cur_bytes = 0) (hpos : 0 < img.bpl)
    (hline : line.length = img.bpl) (hmax : img.bpl ≤ 4096) :
    line.foldlM image_addpixels img = some (endLine (img.wrote line)) := by
  obtain rfl | ⟨part, c, rfl⟩ := line.eq_nil_or_concat
  · simp only [length_nil, Nat.cast_zero] at hline
    omega
  · simp only [concat_eq_append, length_append, length_cons, length_nil] at hline ⊢
    rw [foldlM_append, addpixels_part img part hcp (by omega) (by omega) (by omega) hmax, Option.bind_eq_bind,
      Option.bind_some, foldlM_cons]
    have hw : (img.wrote part).cp = img.cp + part.length ∧ (img.wrote part).cur_bytes = part.length ∧
        (img.wrote part).bpl = img.bpl ∧ (img.wrote part).pad = img.pad ∧ (img.wrote part).nlines = img.nlines :=
      ⟨rfl, by rw [image_t.wrote, hb, zero_add], rfl, rfl, rfl⟩
    obtain ⟨h1, h2, h3, h4, h5⟩ := hw
    have hshort : short ((img.wrote part).cur_bytes + 1) = (img.wrote part).cur_bytes + 1 :=
      short_of_range (by omega) (by omega)
    have hlast : image_addpixels (img.wrote part) c = some (endLine ((img.wrote part).wrote [c])) := by
      rw [image_addpixels, if_pos (by rw [h1, h3, h4, h5]; omega)]
      dsimp only
      rw [hshort, if_pos (by omega), endLine]
      dsimp only
      split_ifs <;> first | rfl | contradiction
    rw [hlast, Option.bind_eq_bind, Option.bind_some, wrote_append]
    rfl

structure Frame.Sized (f : Frame) : Prop where
  ht : 1 ≤ f.ht ∧ f.ht ≤ 32767
  bpl : 1 ≤ f.bpl ∧ f.bpl ≤ 4096
  pad : 0 ≤ f.pad ∧ f.bpl + f.pad = (f.wd + 31) / 32 * 4
  nlines : 1 ≤ f.nlines ∧ f.nlines ≤ 256
  plain : f.nlines = 1 ∨ f.ilace = def_ilace ∧ f.npasses = 1

variable {f : Frame}

theorem pos_def (hf : f.Sized) (hd : f.ilace = def_ilace) (hp : f.npasses = 1) (k : Nat) :
    f.pos k = (0, k % f.ht) := by
  obtain ⟨h1, h2⟩ := hf.ht
  have hpos : ∀ k : Nat, 0 ≤ (k : Int) % f.ht ∧ (k : Int) % f.ht < f.ht := fun k =>
    ⟨Int.emod_nonneg _ (by omega), Int.emod_lt_of_pos _ (by omega)⟩
  induction k with
  | zero => simp [Frame.pos, hd, def_ilace]
  | succ k ih =>
    have hk := hpos k
    have hmod : ((k + 1 : Nat) : Int) % f.ht = (k % f.ht + 1) % f.ht := by
      rw [Int.emod_add_emod]
      push_cast
      rfl
    have hoffs : (f.ilace.getD (0 : Int).toNat ⟨0, 0⟩).offs = 1 := by rw [hd]; rfl
    have hstart : (f.ilace.getD (0 : Int).toNat ⟨0, 0⟩).start = 0 := by rw [hd]; rfl
    rw [f.pos_succ, ih, Frame.next]
    dsimp only
    rw [hoffs, short_of_range (by omega) (by omega), hmod, hp, if_pos (show short (0 + 1) ≥ 1 by decide), hstart]
    split_ifs with h
    · rw [show (k : Int) % f.ht + 1 = f.ht by omega, Int.emod_self]
    · exact Prod.ext rfl (Int.emod_eq_of_lt (by omega) (by omega)).symm

structure Inv (f : Frame) (line : Nat → List char) (a m : Nat) (img : image_t) : Prop where
  frame : img.frame = f
  pos : (img.cur_pass, img.cur_y) = f.pos (a + m)
  bytes : img.cur_bytes = 0
  lines : img.cur_lines = m ∧ (m : Int) < f.nlines
  cp : img.cp = m * (f.bpl + f.pad)
  below : m = 0 ∨ (m : Int) ≤ img.cur_y
  rows : ∀ i, i < m → (f.pos (a + i)).2 = img.cur_y - m + i
  buffered : ∀ i : Nat, i < m → (List.range f.bpl.toNat).map (fun j : Nat => img.buf (i * (f.bpl + f.pad) + j)) = line (a + i)
  inside : ∀ b ∈ img.shown, b.Inside f.wd f.ht
  put : img.shown.flatMap Shown.rows = (List.range a).map fun i => ((f.pos i).2, line i)

theorem rows_put (wd y : Int) (n : Nat) (g : Nat → List char) :
    (Shown.put wd y ((List.range n).map g)).rows = (List.range n).map fun i : Nat => (y + i, g i) := by
  refine ext_getElem (by simp [Shown.rows]) fun i h1 h2 => ?_
  simp [Shown.rows]

variable {g : Nat → List char}

theorem Flushed.inside {img img' : image_t} {ypos : Int} {n : Nat}
    (h : Flushed img img' ypos ((List.range n).map g)) (hf : img.frame = f) (hold : ∀ b ∈ img.shown, b.Inside f.wd f.ht)
    (hy : 0 ≤ ypos ∧ ypos + n ≤ f.ht) : ∀ b ∈ img'.shown, b.Inside f.wd f.ht := by
  obtain ⟨l, hl, -, hin⟩ := h.shown
  intro b hb
  rw [hl, mem_append, mem_cons] at hb
  rcases hb with hb | rfl | hb
  · exact hold b hb
  · exact ⟨congrArg Frame.wd hf, hy.1, by simpa using hy.2⟩
  · exact hin _ _ b hb

theorem Flushed.put {img img' : image_t} {ypos : Int} {n : Nat}
    (h : Flushed img img' ypos ((List.range n).map g)) :
    img'.shown.flatMap Shown.rows = img.shown.flatMap Shown.rows ++ (List.range n).map fun i : Nat => (ypos + i, g i) := by
  obtain ⟨l, hl, hrows, -⟩ := h.shown
  rw [hl, flatMap_append, flatMap_cons, hrows, append_nil, rows_put]

variable {a m : Nat} {line : Nat → List char}

theorem Inv.fields (h : Inv f line a m img) :
    img.wd = f.wd ∧ img.ht = f.ht ∧ img.bpl = f.bpl ∧ img.pad = f.pad ∧ img.nlines = f.nlines :=
  ⟨congrArg Frame.wd h.frame, congrArg Frame.ht h.frame, congrArg Frame.bpl h.frame, congrArg Frame.pad h.frame,
    congrArg Frame.nlines h.frame⟩

theorem Inv.data (hf : f.Sized) (h : Inv f line a m img)
    (hline : (line (a + m)).length = f.bpl) (i : Nat) (hi : i < m + 1) :
    (List.range f.bpl.toNat).map (fun j : Nat => (img.wrote (line (a + m))).buf (i * (f.bpl + f.pad) + j)) = line (a + i) := by
  obtain ⟨hb1, hb2⟩ := hf.bpl
  obtain ⟨hp1, hp2⟩ := hf.pad
  have hlen : f.bpl.toNat = (line (a + m)).length := by omega
  rcases Nat.lt_succ_iff_lt_or_eq.1 hi with hi | rfl
  · rw [← h.buffered i hi]
    refine map_congr_left fun j hj => fillAt_off _ _ _ _ (.inl ?_)
    have hj' := mem_range.1 hj
    rw [h.cp]
    have hmul : ((i + 1 : Nat) : Int) * (f.bpl + f.pad) ≤ m * (f.bpl + f.pad) :=
      Int.mul_le_mul_of_nonneg_right (by omega) (by omega)
    push_cast at hmul
    rw [Int.add_mul, Int.one_mul] at hmul
    omega
  · rw [hlen, ← h.cp]
    exact fillAt_on _ _ _

theorem Inv.fits (hf : f.Sized) (h : Inv f line a m img) :
    0 ≤ img.cp ∧ img.cp + img.bpl ≤ img.nlines * (img.bpl + img.pad) := by
  obtain ⟨-, -, h3, h4, h5⟩ := h.fields
  obtain ⟨hb1, hb2⟩ := hf.bpl
  obtain ⟨hp1, hp2⟩ := hf.pad
  have hlow : 0 ≤ (m : Int) * (f.bpl + f.pad) := Int.mul_nonneg (by omega) (by omega)
  have hmul : ((m : Int) + 1) * (f.bpl + f.pad) ≤ f.nlines * (f.bpl + f.pad) :=
    Int.mul_le_mul_of_nonneg_right (by have := h.lines.2; omega) (by omega)
  rw [Int.add_mul, Int.one_mul] at hmul
  rw [h.cp, h3, h4, h5]
  omega

theorem Inv.step (hf : f.Sized) (h : Inv f line a m img)
    (hy : 0 ≤ img.cur_y ∧ img.cur_y < f.ht) (hline : (line (a + m)).length = f.bpl) :
    ∃ a' m' img', a' + m' = a + m + 1 ∧ (line (a + m)).foldlM image_addpixels img = some img' ∧ Inv f line a' m' img' := by
  obtain ⟨h1, h2, h3, h4, h5⟩ := h.fields
  obtain ⟨hb1, hb2⟩ := hf.bpl
  obtain ⟨hp1, hp2⟩ := hf.pad
  obtain ⟨hn1, hn2⟩ := hf.nlines
  obtain ⟨hh1, hh2⟩ := hf.ht
  obtain ⟨hl1, hl2⟩ := h.lines
  obtain ⟨hcp, hsize⟩ := h.fits hf
  have hfold := addpixels_line img (line (a + m)) hcp hsize h.bytes (by omega) (by omega) (by omega)
  let w : image_t := { img.wrote (line (a + m)) with
    cur_bytes := 0, cp := (img.wrote (line (a + m))).cp + img.pad, cur_lines := (m + 1 : Nat) }
  have hend : endLine (img.wrote (line (a + m))) =
      if w.cur_lines < w.nlines ∧ w.cur_y < w.ht - 1 then { w with cur_y := w.cur_y + 1 } else image_flush w := by
    have hs : short ((img.wrote (line (a + m))).cur_lines + 1) = ((m + 1 : Nat) : Int) := by
      change short (img.cur_lines + 1) = _
      rw [hl1, short_of_range (by omega) (by omega)]
      rfl
    have hs' : short ((img.wrote (line (a + m))).cur_y + 1) = img.cur_y + 1 := by
      change short (img.cur_y + 1) = _
      exact short_of_range (by omega) (by omega)
    rw [endLine]
    dsimp only
    rw [hs, hs']
    rfl
  have hw : w.cur_y = img.cur_y ∧ w.frame = f ∧ w.shown = img.shown := ⟨rfl, h.frame, rfl⟩
  obtain ⟨hwy, hwf, hws⟩ := hw
  have hrows : ∀ i, i < m + 1 → (f.pos (a + i)).2 = img.cur_y - m + i := by
    intro i hi
    rcases Nat.lt_succ_iff_lt_or_eq.1 hi with hi | rfl
    · exact h.rows i hi
    · rw [← h.pos]
      omega
  have hstart : 0 ≤ img.cur_y - m := by
    have := h.below
    omega
  rw [hfold, hend]
  split_ifs with hroom
  -- the line waits for the rest of its group
  · have hroom' : (m : Int) + 1 < f.nlines ∧ img.cur_y < f.ht - 1 := ⟨by rw [← h5]; exact hroom.1, by rw [← h2]; exact hroom.2⟩
    obtain ⟨hdef, hnp⟩ := hf.plain.resolve_left (by omega)
    have hp := h.pos
    refine ⟨a, m + 1, _, rfl, rfl, h.frame, ?_, rfl, ⟨rfl, hroom'.1⟩, ?_, .inr ?_, fun i hi => ?_, fun i hi => ?_, h.inside, h.put⟩
    · rw [show a + (m + 1) = a + m + 1 from rfl, f.pos_succ, ← h.pos]
      rw [pos_def hf hdef hnp, Prod.mk.injEq] at hp
      have hoffs : (f.ilace.getD img.cur_pass.toNat ⟨0, 0⟩).offs = 1 := by rw [hdef, hp.1]; rfl
      rw [Frame.next]
      dsimp only
      rw [hoffs, short_of_range (by omega) (by omega), if_neg (by omega)]
      rfl
    · change img.cp + (line (a + m)).length + img.pad = _
      rw [h.cp, hline, h4]
      push_cast
      ring
    · change ((m + 1 : Nat) : Int) ≤ img.cur_y + 1
      push_cast
      omega
    · rw [hrows i hi]
      change _ = img.cur_y + 1 - ((m + 1 : Nat) : Int) + i
      push_cast
      omega
    · exact h.data hf hline i hi
  -- the group is put
  · have hfl := @flush_put w (by rw [hwy]; change _ < img.ht; omega) (.inl (by change (0 : Int) < (m + 1 : Nat); omega))
    have hmax : max w.cur_lines 1 = ((m + 1 : Nat) : Int) := max_eq_left (by change (1 : Int) ≤ (m + 1 : Nat); omega)
    have hdata : w.data (max w.cur_lines 1) = (List.range (m + 1)).map fun i => line (a + i) := by
      rw [image_t.data, hmax, Int.toNat_natCast]
      refine map_congr_left fun i hi => ?_
      have hd := h.data hf hline i (mem_range.1 hi)
      have hunit : (w.wd + 31) / 32 * 4 = f.bpl + f.pad := by
        rw [hp2, ← h1]
        rfl
      have hbpl : w.bpl = f.bpl := h3
      rw [hunit, hbpl]
      exact hd
    rw [hdata, hmax, hwy] at hfl
    refine ⟨a + (m + 1), 0, _, rfl, rfl, hfl.frame.trans hwf, ?_, hfl.reset.2.1, ⟨hfl.reset.1, by omega⟩, ?_, .inl rfl,
      fun i hi => absurd hi (Nat.not_lt_zero i), fun i hi => absurd hi (Nat.not_lt_zero i), ?_, ?_⟩
    · rw [hfl.pos, hwf, show a + (m + 1) + 0 = a + m + 1 from rfl, f.pos_succ, ← h.pos]
      rfl
    · rw [hfl.reset.2.2]
      simp
    · exact hfl.inside hwf (hws ▸ h.inside) (by push_cast; omega)
    · have hsplit : List.range (a + (m + 1)) = List.range a ++ (List.range (m + 1)).map (a + ·) := range_add
      rw [hfl.put, hws, h.put, hsplit, map_append, map_map]
      congr 1
      refine map_congr_left fun i hi => ?_
      rw [comp_apply, hrows i (mem_range.1 hi)]
      push_cast
      congr 1
      omega

def lineOf (bpl : Nat) (ps : List char) (k : Nat) : List char := (ps.drop (k * bpl)).take bpl

theorem lineOf_length {bpl k : Nat} (h : (k + 1) * bpl ≤ ps.length) : (lineOf bpl ps k).length = bpl := by
  rw [Nat.add_mul, Nat.one_mul] at h
  rw [lineOf, length_take, length_drop]
  omega

theorem run_inv (hf : f.Sized) (h₀ : Inv f (lineOf f.bpl.toNat ps) 0 0 img) (K : Nat)
    (hK : K * f.bpl.toNat ≤ ps.length) (hrow : ∀ i, i < K → 0 ≤ (f.pos i).2 ∧ (f.pos i).2 < f.ht) :
    ∃ a m img', a + m = K ∧ (ps.take (K * f.bpl.toNat)).foldlM image_addpixels img = some img' ∧
      Inv f (lineOf f.bpl.toNat ps) a m img' := by
  induction K with
  | zero => exact ⟨0, 0, img, rfl, by simp, h₀⟩
  | succ K ih =>
    have hK' := hK
    rw [Nat.add_mul, Nat.one_mul] at hK'
    obtain ⟨a, m, img', ham, hfold, hinv⟩ := ih (by omega) fun i hi => hrow i (by omega)
    have hlen := lineOf_length hK
    have hbpl := hf.bpl
    have hy := hrow K (by omega)
    rw [← ham, ← hinv.pos] at hy
    obtain ⟨a', m', img'', ham', hfold', hinv'⟩ := hinv.step hf hy (by rw [ham, hlen]; omega)
    refine ⟨a', m', img'', by omega, ?_, hinv'⟩
    rw [ham] at hfold'
    rw [Nat.add_mul, Nat.one_mul, take_add, foldlM_append, hfold, Option.bind_eq_bind, Option.bind_some]
    exact hfold'

theorem Inv.idle {a : Nat} (h : Inv f line a 0 img)
    (hy : img.cur_y < f.ht) : image_flush (img.wrote []) = img := by
  obtain ⟨-, h2, -⟩ := h.fields
  have hsame : img.wrote [] = img := by
    rw [image_t.wrote]
    simp [fillAt]
  rw [hsame]
  exact flush_idle (by omega) (le_of_eq h.lines.1) (.inr h.bytes)

theorem Inv.rest (h : Inv f line a m img)
    (hy : img.cur_y < f.ht) {r : List char} (hne : ¬ (m = 0 ∧ r = [])) :
    ∃ g, Flushed (img.wrote r) (image_flush (img.wrote r)) (img.cur_y - (max m 1 : Nat) + 1) ((List.range (max m 1)).map g) := by
  obtain ⟨-, h2, -⟩ := h.fields
  have hlines : (img.wrote r).cur_lines = m := h.lines.1
  have hbytes : (img.wrote r).cur_bytes = r.length := by
    rw [image_t.wrote, h.bytes, zero_add]
  have hput : 0 < (img.wrote r).cur_lines ∨ (img.wrote r).cur_lines = 0 ∧ (img.wrote r).cur_bytes ≠ 0 := by
    rw [hlines, hbytes]
    by_cases hm : m = 0
    · exact .inr ⟨by omega, fun e => hne ⟨hm, length_eq_zero_iff.1 (by omega)⟩⟩
    · exact .inl (by omega)
  have hfl := @flush_put (img.wrote r) (by change img.cur_y < img.ht; omega) hput
  have hmax : max (img.wrote r).cur_lines 1 = ((max m 1 : Nat) : Int) := by
    rw [hlines]
    omega
  rw [image_t.data, hmax, Int.toNat_natCast] at hfl
  exact ⟨_, hfl⟩

theorem Inv.final (h : Inv f line a m img)
    (hy : 0 ≤ img.cur_y ∧ img.cur_y < f.ht) (rest : List char) :
    ∀ b ∈ (image_flush (img.wrote rest)).shown, b.Inside f.wd f.ht := by
  by_cases hempty : m = 0 ∧ rest = []
  · obtain ⟨rfl, rfl⟩ := hempty
    rw [h.idle hy.2]
    exact h.inside
  · obtain ⟨g, hfl⟩ := h.rest hy.2 hempty
    refine hfl.inside h.frame h.inside ?_
    have := h.below
    omega

def decode (img : image_t) (ps : List char) : Option image_t := (ps.foldlM image_addpixels img).map image_flush

def order (ilace : List interlace_t) (ht : Int) : List Int :=
  ilace.flatMap fun p => (List.range ((ht - p.start + p.offs - 1) / p.offs).toNat).map fun i : Nat => p.start + i * p.offs

/-- No byte goes outside of the buffer and no block outside of the window, and the lines of a whole picture are put at
the rows in interlace order. -/
def Displays (img : image_t) (ps : List char) : Prop :=
  ∃ img', decode img ps = some img' ∧ (∀ b ∈ img'.shown, b.Inside img.wd img.ht) ∧
    (ps.length = img.ht * img.bpl → img'.shown.flatMap Shown.rows =
      (order img.ilace img.ht).zip ((List.range img.ht.toNat).map (lineOf img.bpl.toNat ps)))

theorem decode_split (hf : f.Sized) {v : List char}
    (h₀ : Inv f (lineOf f.bpl.toNat v) 0 0 img) (K : Nat) (hK : K * f.bpl.toNat ≤ v.length)
    (hrow : ∀ i, i < K → 0 ≤ (f.pos i).2 ∧ (f.pos i).2 < f.ht) :
    ∃ a m img', a + m = K ∧ Inv f (lineOf f.bpl.toNat v) a m img' ∧
      (v.length - K * f.bpl.toNat < f.bpl → decode img v = some (image_flush (img'.wrote (v.drop (K * f.bpl.toNat))))) ∧
      decode img v = decode img' (v.drop (K * f.bpl.toNat)) := by
  obtain ⟨a, m, img', ham, hfold, hinv⟩ := run_inv hf h₀ K hK hrow
  have hdec : decode img v = decode img' (v.drop (K * f.bpl.toNat)) := by
    have hps := take_append_drop (K * f.bpl.toNat) v
    rw [decode]
    nth_rewrite 1 [← hps]
    rw [foldlM_append, hfold]
    rfl
  refine ⟨a, m, img', ham, hinv, fun hlen => ?_, hdec⟩
  obtain ⟨hcp, hsize⟩ := hinv.fits hf
  obtain ⟨-, -, v3, -⟩ := hinv.fields
  have hb := hf.bpl
  have hbytes := hinv.bytes
  have hpart := addpixels_part img' (v.drop (K * f.bpl.toNat)) hcp (by rw [length_drop]; omega) (by omega)
    (by rw [length_drop]; omega) (by omega)
  rw [hdec, decode, hpart]
  rfl

theorem displays_of_rows (hf : f.Sized)
    (h₀ : Inv f (lineOf f.bpl.toNat ps) 0 0 img) (hrow : ∀ i, 0 ≤ (f.pos i).2 ∧ (f.pos i).2 < f.ht)
    (horder : order f.ilace f.ht = (List.range f.ht.toNat).map fun i => (f.pos i).2) : Displays img ps := by
  obtain ⟨hb1, hb2⟩ := hf.bpl
  obtain ⟨hh1, hh2⟩ := hf.ht
  obtain ⟨w1, w2, w3, w4, w5⟩ := h₀.fields
  have wi : img.ilace = f.ilace := congrArg Frame.ilace h₀.frame
  obtain ⟨B, hB⟩ : ∃ B, f.bpl.toNat = B := ⟨_, rfl⟩
  rw [hB] at h₀
  have hpos : 0 < B := by omega
  obtain ⟨K, hKdef⟩ : ∃ K, K = ps.length / B := ⟨_, rfl⟩
  have hK : K * B ≤ ps.length := hKdef ▸ Nat.div_mul_le_self _ _
  have hlt : ps.length < K * B + B := hKdef ▸ Nat.lt_div_mul_add hpos
  obtain ⟨a, m, img', ham, hinv, hdec, -⟩ := decode_split hf (hB ▸ h₀) K (hB ▸ hK) fun i _ => hrow i
  have hy := hrow (a + m)
  rw [← hinv.pos] at hy
  have hin := hinv.final hy (ps.drop (K * f.bpl.toNat))
  refine ⟨_, hdec (by rw [hB]; omega), by rwa [w1, w2], fun hn => ?_⟩
  -- a whole picture leaves nothing in the buffer
  have hlen : ps.length = f.ht.toNat * B := by
    rw [w2, w3] at hn
    have h1 : ((f.ht.toNat * B : Nat) : Int) = f.ht * f.bpl := by
      rw [Nat.cast_mul]
      congr 1 <;> omega
    omega
  have hKht : K = f.ht.toNat := by rw [hKdef, hlen, Nat.mul_div_cancel _ hpos]
  have hm : m = 0 := by
    have hl := hinv.lines.2
    rcases hf.plain with h1 | ⟨hdef, hnp⟩
    · omega
    · have hp := hinv.pos
      rw [pos_def hf hdef hnp, ham, hKht, Int.toNat_of_nonneg (by omega), Int.emod_self, Prod.mk.injEq] at hp
      have := hinv.below
      omega
  subst hm
  rw [drop_eq_nil_of_le (by rw [hB, hlen, hKht]), hinv.idle hy.2, hinv.put, w2, wi, w3, horder, hB,
    zip_map', show a = f.ht.toNat by omega]

theorem order_def (ht : Int) : order def_ilace ht = (List.range ht.toNat).map fun i : Nat => (i : Int) := by
  simp [order, def_ilace]

variable {p s o y : Int}

theorem next_row (hpass : f.ilace.getD p.toNat ⟨0, 0⟩ = ⟨s, o⟩) (ho : 0 < o) (hy : 0 ≤ y)
    (hlt : y + o < f.ht) (hht : f.ht ≤ 32767) : f.next (p, y) = (p, y + o) := by
  rw [Frame.next]
  dsimp only
  rw [hpass]
  dsimp only
  rw [short_of_range (by omega) (by omega), if_neg (by omega)]

theorem next_pass (hpass : f.ilace.getD p.toNat ⟨0, 0⟩ = ⟨s, o⟩) (hy : 0 ≤ y)
    (hlt : y < f.ht) (hge : f.ht ≤ y + o) (hht : y + o ≤ 32767) (hp : 0 ≤ p ∧ p < 32767) {p' : Int}
    (hp' : p' = if p + 1 ≥ f.npasses then 0 else p + 1) : f.next (p, y) = (p', (f.ilace.getD p'.toNat ⟨0, 0⟩).start) := by
  rw [Frame.next]
  dsimp only
  rw [hpass]
  dsimp only
  rw [short_of_range (by omega) (by omega), short_of_range (by omega) (by omega), if_pos (by omega), hp']

theorem pass_run {a : Nat} {p s o : Int} (hpass : f.ilace.getD p.toNat ⟨0, 0⟩ = ⟨s, o⟩) (ha : f.pos a = (p, s))
    (ho : 0 < o) (hs : 0 ≤ s) (hht : f.ht ≤ 32767) (i : Nat) (hi : s + i * o < f.ht) : f.pos (a + i) = (p, s + i * o) := by
  induction i with
  | zero => rw [Nat.add_zero, ha]; simp
  | succ i ih =>
    have hmul : 0 ≤ (i : Int) * o := Int.mul_nonneg (by omega) (by omega)
    have hsucc : s + ((i + 1 : Nat) : Int) * o = s + i * o + o := by push_cast; ring
    rw [hsucc] at hi ⊢
    rw [← Nat.add_assoc, f.pos_succ, ih (by omega), next_row hpass ho (by omega) hi hht]

theorem pass_end {a : Nat} {p s o : Int} (hpass : f.ilace.getD p.toNat ⟨0, 0⟩ = ⟨s, o⟩) (ha : f.pos a = (p, s))
    (ho : 0 < o) (hs : 0 ≤ s) (hht : f.ht + o ≤ 32768) (hp : 0 ≤ p ∧ p < 32767) (i : Nat) (hi : s + i * o < f.ht)
    (hend : f.ht ≤ s + i * o + o) {p' : Int} (hp' : p' = if p + 1 ≥ f.npasses then 0 else p + 1) :
    f.pos (a + (i + 1)) = (p', (f.ilace.getD p'.toNat ⟨0, 0⟩).start) := by
  have hmul : 0 ≤ (i : Int) * o := Int.mul_nonneg (by omega) (by omega)
  rw [← Nat.add_assoc, f.pos_succ, pass_run hpass ha ho hs (by omega) i hi]
  exact next_pass hpass (by omega) hi hend (by omega) hp hp'

theorem order_gif (ht : Int) : order gif_ilace ht =
    (List.range ((ht + 7) / 8).toNat).map (fun i : Nat => (0 : Int) + i * 8) ++
      ((List.range ((ht + 3) / 8).toNat).map (fun i : Nat => (4 : Int) + i * 8) ++
        ((List.range ((ht + 1) / 4).toNat).map (fun i : Nat => (2 : Int) + i * 4) ++
          (List.range (ht / 2).toNat).map fun i : Nat => (1 : Int) + i * 2)) := by
  have h0 : ht - 0 + 8 - 1 = ht + 7 := by omega
  have h1 : ht - 4 + 8 - 1 = ht + 3 := by omega
  have h2 : ht - 2 + 4 - 1 = ht + 1 := by omega
  have h3 : ht - 1 + 2 - 1 = ht := by omega
  simp only [order, gif_ilace, flatMap_cons, flatMap_nil, append_nil, h0, h1, h2, h3]

theorem gif_rows (hd : f.ilace = gif_ilace) (hn : f.npasses = 4) (hht : 5 ≤ f.ht ∧ f.ht ≤ 32760) :
    order f.ilace f.ht = (List.range f.ht.toNat).map fun i => (f.pos i).2 := by
  obtain ⟨hlow, hhigh⟩ := hht
  obtain ⟨c0, e0⟩ : ∃ c0 : Nat, ((f.ht + 7) / 8).toNat = c0 + 1 := ⟨((f.ht + 7) / 8 - 1).toNat, by omega⟩
  obtain ⟨c1, e1⟩ : ∃ c1 : Nat, ((f.ht + 3) / 8).toNat = c1 + 1 := ⟨((f.ht + 3) / 8 - 1).toNat, by omega⟩
  obtain ⟨c2, e2⟩ : ∃ c2 : Nat, ((f.ht + 1) / 4).toNat = c2 + 1 := ⟨((f.ht + 1) / 4 - 1).toNat, by omega⟩
  obtain ⟨c3, e3⟩ : ∃ c3 : Nat, (f.ht / 2).toNat = c3 + 1 := ⟨(f.ht / 2 - 1).toNat, by omega⟩
  have p0 : f.ilace.getD (0 : Int).toNat ⟨0, 0⟩ = ⟨0, 8⟩ := by rw [hd]; rfl
  have p1 : f.ilace.getD (1 : Int).toNat ⟨0, 0⟩ = ⟨4, 8⟩ := by rw [hd]; rfl
  have p2 : f.ilace.getD (2 : Int).toNat ⟨0, 0⟩ = ⟨2, 4⟩ := by rw [hd]; rfl
  have p3 : f.ilace.getD (3 : Int).toNat ⟨0, 0⟩ = ⟨1, 2⟩ := by rw [hd]; rfl
  have a0 : f.pos 0 = (0, 0) := by rw [Frame.pos, iterate_zero, id_eq, hd]; rfl
  have a1 := pass_end p0 a0 (by omega) (by omega) (by omega) (by omega) c0 (by omega) (by omega)
    (show (1 : Int) = if (0 : Int) + 1 ≥ f.npasses then 0 else (0 : Int) + 1 by rw [if_neg (by omega)]; rfl)
  rw [p1, Nat.zero_add] at a1
  have a2 := pass_end p1 a1 (by omega) (by omega) (by omega) (by omega) c1 (by omega) (by omega)
    (show (2 : Int) = if (1 : Int) + 1 ≥ f.npasses then 0 else (1 : Int) + 1 by rw [if_neg (by omega)]; rfl)
  rw [p2] at a2
  have a3 := pass_end p2 a2 (by omega) (by omega) (by omega) (by omega) c2 (by omega) (by omega)
    (show (3 : Int) = if (2 : Int) + 1 ≥ f.npasses then 0 else (2 : Int) + 1 by rw [if_neg (by omega)]; rfl)
  rw [p3] at a3
  have hsum : f.ht.toNat = (c0 + 1) + ((c1 + 1) + ((c2 + 1) + (c3 + 1))) := by omega
  have split : ∀ a b : Nat, List.range (a + b) = List.range a ++ (List.range b).map (a + ·) := fun a b => range_add
  rw [hd, order_gif, hsum, e0, e1, e2, e3, split (c0 + 1), split (c1 + 1), split (c2 + 1)]
  simp only [map_append, map_map]
  have row : ∀ {a : Nat} {p s o : Int} (c : Nat), f.ilace.getD p.toNat ⟨0, 0⟩ = ⟨s, o⟩ → f.pos a = (p, s) → 0 < o → 0 ≤ s →
      s + c * o < f.ht → ∀ i ∈ List.range (c + 1), s + (i : Int) * o = (f.pos (a + i)).2 := by
    intro a p s o c hpass ha ho hs hc i hi
    have hle : (i : Int) * o ≤ c * o := Int.mul_le_mul_of_nonneg_right (by have := mem_range.1 hi; omega) (by omega)
    rw [pass_run hpass ha ho hs (by omega) i (by omega)]
  refine congrArg₂ _ (map_congr_left fun i hi => ?_) (congrArg₂ _ (map_congr_left fun i hi => ?_)
    (congrArg₂ _ (map_congr_left fun i hi => ?_) (map_congr_left fun i hi => ?_)))
  · exact (row c0 p0 a0 (by omega) (by omega) (by omega) i hi).trans (by rw [Nat.zero_add])
  · exact row c1 p1 a1 (by omega) (by omega) (by omega) i hi
  · exact (row c2 p2 a2 (by omega) (by omega) (by omega) i hi).trans (by simp only [comp_apply, Nat.add_assoc])
  · exact (row c3 p3 a3 (by omega) (by omega) (by omega) i hi).trans (by simp only [comp_apply, Nat.add_assoc])

theorem gif_inside (hd : f.ilace = gif_ilace) (hn : f.npasses = 4) (hht : 5 ≤ f.ht ∧ f.ht ≤ 32760) (k : Nat) :
    (f.pos k).1 ∈ [0, 1, 2, 3] ∧ 0 ≤ (f.pos k).2 ∧ (f.pos k).2 < f.ht := by
  induction k with
  | zero =>
    rw [Frame.pos, iterate_zero, id_eq, hd]
    exact ⟨by decide, by decide, by change 0 < f.ht; omega⟩
  | succ k ih =>
    rw [f.pos_succ]
    revert ih
    generalize f.pos k = q
    obtain ⟨p, y⟩ := q
    rintro ⟨hp, hy1, hy2⟩
    dsimp only at hp hy1 hy2
    have pass : ∀ s o p' : Int, f.ilace.getD p.toNat ⟨0, 0⟩ = ⟨s, o⟩ → 0 < o → o ≤ 8 → p ∈ [(0 : Int), 1, 2, 3] →
        p' = (if p + 1 ≥ 4 then 0 else p + 1) → (gif_ilace.getD p'.toNat ⟨0, 0⟩).start ∈ [(0 : Int), 4, 2, 1] →
        (f.next (p, y)).1 ∈ [0, 1, 2, 3] ∧ 0 ≤ (f.next (p, y)).2 ∧ (f.next (p, y)).2 < f.ht := by
      intro s o p' hpass ho ho8 hp hp' hstart
      simp only [mem_cons, not_mem_nil, or_false] at hp hstart
      by_cases hrow : y + o < f.ht
      · rw [next_row hpass ho hy1 hrow (by omega)]
        exact ⟨by simpa using hp, by dsimp only; omega, hrow⟩
      · rw [next_pass hpass hy1 hy2 (by omega) (by omega) (by omega) (hn ▸ hp'), hd]
        refine ⟨?_, by omega, by omega⟩
        split_ifs at hp' <;> (simp only [mem_cons, not_mem_nil, or_false]; omega)
    simp only [mem_cons, not_mem_nil, or_false] at hp
    obtain rfl | rfl | rfl | rfl := hp
    · exact pass 0 8 1 (by rw [hd]; rfl) (by decide) (by decide) (by decide) (by decide) (by decide)
    · exact pass 4 8 2 (by rw [hd]; rfl) (by decide) (by decide) (by decide) (by decide) (by decide)
    · exact pass 2 4 3 (by rw [hd]; rfl) (by decide) (by decide) (by decide) (by decide) (by decide)
    · exact pass 1 2 0 (by rw [hd]; rfl) (by decide) (by decide) (by decide) (by decide) (by decide)

theorem decode_none {c : char} (h : image_addpixels img c = none) : decode img (c :: ps) = none := by
  rw [decode, foldlM_cons, h]
  rfl

theorem stuck (hf : f.Sized) (hn : f.nlines = 1) (hht : f.ht ≤ 4)
    (h : Inv f line 1 0 img) (hy : img.cur_y = 4) (rest : List char) :
    (rest.length ≤ f.bpl → ∃ img', decode img rest = some img' ∧ img'.shown = img.shown) ∧
      (f.bpl < rest.length → decode img rest = none) := by
  obtain ⟨w1, w2, w3, w4, w5⟩ := h.fields
  obtain ⟨hb1, hb2⟩ := hf.bpl
  obtain ⟨hh1, hh2⟩ := hf.ht
  obtain ⟨hcp, hsize⟩ := h.fits hf
  have hlines := h.lines.1
  have hbytes := h.bytes
  -- a part of the line
  have part : ∀ part : List char, part.length < f.bpl →
      decode img part = some { img.wrote part with cur_lines := f.ht - 5, cur_y := f.ht - 1 } := by
    intro part hp
    rw [decode, addpixels_part img part hcp (by omega) (by omega) (by omega) (by omega), Option.map_some]
    have hshort : short ((img.wrote part).cur_lines - ((img.wrote part).cur_y - (img.wrote part).ht + 1)) = f.ht - 5 := by
      change short (img.cur_lines - (img.cur_y - img.ht + 1)) = _
      rw [short_of_range (by omega) (by omega)]
      omega
    rw [flush_lost (by change img.ht ≤ img.cur_y; omega) hshort (by omega) (.inl (by omega))]
    have hlast : short ((img.wrote part).ht - 1) = f.ht - 1 := by
      change short (img.ht - 1) = _
      rw [short_of_range (by omega) (by omega), w2]
    rw [hlast]
  -- the whole line
  have whole : ∀ l : List char, l.length = f.bpl → ∃ img', l.foldlM image_addpixels img = some img' ∧
      img'.cp = f.bpl + f.pad ∧ img'.frame = f ∧ img'.shown = img.shown ∧ image_flush img' = img' := by
    intro l hl
    rw [addpixels_line img l hcp hsize hbytes (by omega) (by omega) (by omega), endLine]
    dsimp only
    have hone : short ((img.wrote l).cur_lines + 1) = 1 := by
      change short (img.cur_lines + 1) = 1
      rw [hlines]
      rfl
    rw [hone, if_neg (fun hc => by have : (1 : Int) < img.nlines := hc.1; omega)]
    have hshort : short (1 - ((img.wrote l).cur_y - (img.wrote l).ht + 1)) = f.ht - 4 := by
      change short (1 - (img.cur_y - img.ht + 1)) = _
      rw [short_of_range (by omega) (by omega)]
      omega
    have hlast : short ((img.wrote l).ht - 1) = f.ht - 1 := by
      change short (img.ht - 1) = _
      rw [short_of_range (by omega) (by omega), w2]
    rw [flush_lost (by change img.ht ≤ img.cur_y; omega) hshort (by omega) (.inr rfl)]
    dsimp only
    rw [hlast]
    refine ⟨_, rfl, ?_, h.frame, rfl, flush_idle ?_ ?_ (.inr rfl)⟩
    · change img.cp + l.length + img.pad = _
      rw [h.cp, hl, w4]
      simp
    · change f.ht - 1 < img.ht
      omega
    · change f.ht - 4 ≤ 0
      omega
  constructor
  · intro hr
    by_cases hlt : rest.length < f.bpl
    · exact ⟨_, part rest hlt, rfl⟩
    · obtain ⟨img', hfold, -, -, hs, hidle⟩ := whole rest (by omega)
      exact ⟨img', by rw [decode, hfold, Option.map_some, hidle], hs⟩
  · intro hr
    obtain ⟨l, c, tl, rfl, hl⟩ : ∃ l c tl, rest = l ++ c :: tl ∧ l.length = f.bpl := by
      have hlen : f.bpl.toNat < rest.length := by omega
      refine ⟨rest.take f.bpl.toNat, rest[f.bpl.toNat], rest.drop (f.bpl.toNat + 1), ?_, ?_⟩
      · rw [getElem_cons_drop, take_append_drop]
      · rw [length_take]
        omega
    obtain ⟨img', hfold, hcp', hframe, -⟩ := whole l hl
    have v3 : img'.bpl = f.bpl := congrArg Frame.bpl hframe
    have v4 : img'.pad = f.pad := congrArg Frame.pad hframe
    have v5 : img'.nlines = f.nlines := congrArg Frame.nlines hframe
    have hout : image_addpixels img' c = none := by
      rw [image_addpixels, if_neg (by rw [v3, v4, v5, hn]; omega)]
    rw [decode, foldlM_append, hfold]
    exact decode_none hout

theorem wrapped (hf : f.Sized) (hn : f.nlines = 1) {a : Nat}
    (h : Inv f line a 0 img) (hy : img.cur_y = -32768) {rest : List char} (hr : rest ≠ []) {img' : image_t}
    (hd : decode img rest = some img') : ∃ b ∈ img'.shown, ¬ b.Inside f.wd f.ht := by
  obtain ⟨w1, w2, w3, w4, w5⟩ := h.fields
  obtain ⟨hb1, hb2⟩ := hf.bpl
  obtain ⟨hh1, hh2⟩ := hf.ht
  obtain ⟨hcp, hsize⟩ := h.fits hf
  have hlines := h.lines.1
  have hbytes := h.bytes
  have bad : ∀ {img₁ img₂ : image_t} {ypos : Int} {rows : List (List char)}, Flushed img₁ img₂ ypos rows → ypos < 0 →
      ∃ b ∈ img₂.shown, ¬ b.Inside f.wd f.ht := by
    intro img₁ img₂ ypos rows hfl hneg
    obtain ⟨l, hl, -⟩ := hfl.shown
    refine ⟨.put img₁.wd ypos rows, by rw [hl]; simp, fun hin => ?_⟩
    have := hin.2.1
    omega
  rw [decode, Option.map_eq_some_iff] at hd
  obtain ⟨img₁, hfold, rfl⟩ := hd
  by_cases hlt : rest.length < f.bpl
  · rw [addpixels_part img rest hcp (by omega) (by omega) (by omega) (by omega), Option.some.injEq] at hfold
    obtain ⟨g, hfl⟩ := h.rest (by omega) (r := rest) fun e => hr e.2
    rw [hfold] at hfl
    exact bad hfl (by simp only [Nat.zero_max, Nat.cast_one]; omega)
  · rw [← take_append_drop f.bpl.toNat rest, foldlM_append, addpixels_line img _ hcp hsize hbytes (by omega)
      (by rw [length_take]; omega) (by omega), Option.bind_eq_bind, Option.bind_some] at hfold
    have hline : ∃ b ∈ (endLine (img.wrote (rest.take f.bpl.toNat))).shown, ¬ b.Inside f.wd f.ht := by
      rw [endLine]
      dsimp only
      have hone : short ((img.wrote (rest.take f.bpl.toNat)).cur_lines + 1) = 1 := by
        change short (img.cur_lines + 1) = 1
        rw [hlines]
        rfl
      rw [hone, if_neg (fun hc => by have : (1 : Int) < img.nlines := hc.1; omega)]
      refine bad (flush_put (by change img.cur_y < img.ht; omega) (.inl Int.one_pos)) ?_
      change img.cur_y - 1 + 1 < 0
      omega
    obtain ⟨b, hb, hout⟩ := hline
    exact ⟨b, flush_shown _ (foldl_shown hfold hb), hout⟩

theorem getwin_start (img₀ : image_t) (hwin : img₀.win = false) (hshown : img₀.shown = []) {wd ht : Int}
    (hwd : 1 ≤ wd ∧ wd ≤ 32767) (hht : 1 ≤ ht ∧ ht ≤ 32767) (interlaced : Bool) :
    ∃ img, image_getwin true true wd ht gif_ilace (if interlaced then 4 else 0) img₀ = some img ∧ img.wd = wd ∧ img.ht = ht ∧
      img.bpl = (wd + 7) / 8 ∧ img.ilace = (if interlaced then gif_ilace else def_ilace) ∧
      img.npasses = (if interlaced then 4 else 1) ∧ (interlaced = true → img.nlines = 1) ∧ img.frame.Sized ∧
      ∀ line, Inv img.frame line 0 0 img := by
  have hshift : Int.shiftRight (wd + 7) 3 = (wd + 7) / 8 := Int.shiftRight_eq_div_pow _ _
  have hbpl : short (Int.shiftRight (wd + 7) 3) = (wd + 7) / 8 := by
    rw [hshift, short_of_range (by omega) (by omega)]
  have hpad : short ((4 - (wd + 7) / 8 % 4) % 4) = (4 - (wd + 7) / 8 % 4) % 4 := short_of_range (by omega) (by omega)
  have hmod : 0 ≤ (4 - (wd + 7) / 8 % 4) % 4 ∧ (wd + 7) / 8 + (4 - (wd + 7) / 8 % 4) % 4 = (wd + 31) / 32 * 4 := by omega
  rw [image_getwin, hwin, hbpl, hpad]
  cases interlaced with
  | true =>
    refine ⟨_, rfl, rfl, rfl, rfl, rfl, rfl, fun _ => rfl, ⟨hht, ?_, hmod, ⟨le_refl (1 : Int), show (1 : Int) ≤ 256 by decide⟩, .inl rfl⟩, fun line => ?_⟩
    · change 1 ≤ (wd + 7) / 8 ∧ (wd + 7) / 8 ≤ 4096
      omega
    · refine ⟨rfl, rfl, rfl, ⟨rfl, Int.one_pos⟩, ?_, .inl rfl, fun i hi => absurd hi (Nat.not_lt_zero i),
        fun i hi => absurd hi (Nat.not_lt_zero i), ?_, ?_⟩
      · change (0 : Int) = ((0 : Nat) : Int) * _
        simp
      · change ∀ b ∈ img₀.shown, _
        simp [hshown]
      · change img₀.shown.flatMap _ = _
        simp [hshown]
  | false =>
    have hdiv : 0 ≤ 1024 / ((wd + 7) / 8 + (4 - (wd + 7) / 8 % 4) % 4) ∧
        1024 / ((wd + 7) / 8 + (4 - (wd + 7) / 8 % 4) % 4) ≤ 256 := by
      have h4 : 4 ≤ (wd + 7) / 8 + (4 - (wd + 7) / 8 % 4) % 4 := by omega
      refine ⟨Int.ediv_nonneg (by omega) (by omega), ?_⟩
      exact Int.ediv_le_of_le_mul (by omega) (by omega)
    have hlines : 1 ≤ max (min (1024 / ((wd + 7) / 8 + (4 - (wd + 7) / 8 % 4) % 4)) ht) 1 ∧
        max (min (1024 / ((wd + 7) / 8 + (4 - (wd + 7) / 8 % 4) % 4)) ht) 1 ≤ 256 := by omega
    refine ⟨_, rfl, rfl, rfl, rfl, rfl, rfl, by simp, ⟨hht, ?_, hmod, ?_, .inr ⟨rfl, rfl⟩⟩, fun line => ?_⟩
    · change 1 ≤ (wd + 7) / 8 ∧ (wd + 7) / 8 ≤ 4096
      omega
    · change 1 ≤ short (max (min _ ht) 1) ∧ short (max (min _ ht) 1) ≤ 256
      rw [short_of_range (by omega) (by omega)]
      exact hlines
    · refine ⟨rfl, rfl, rfl, ⟨rfl, ?_⟩, ?_, .inl rfl, fun i hi => absurd hi (Nat.not_lt_zero i),
        fun i hi => absurd hi (Nat.not_lt_zero i), ?_, ?_⟩
      · change ((0 : Nat) : Int) < short (max (min _ ht) 1)
        rw [short_of_range (by omega) (by omega)]
        exact lt_of_lt_of_le (by decide) hlines.1
      · change (0 : Int) = ((0 : Nat) : Int) * _
        simp
      · change ∀ b ∈ img₀.shown, _
        simp [hshown]
      · change img₀.shown.flatMap _ = _
        simp [hshown]

theorem order_perm (ht : Int) : (order gif_ilace ht).Perm ((List.range ht.toNat).map fun i : Nat => (i : Int)) := by
  have inj : ∀ s o : Int, 0 < o → Function.Injective fun i : Nat => s + (i : Int) * o := by
    intro s o ho i j hij
    have he : (i : Int) * o = j * o := by simpa using hij
    exact_mod_cast Int.eq_of_mul_eq_mul_right (by omega) he
  have rng : ∀ (s o : Int) (n : Nat), 0 < o → ((List.range n).map fun i : Nat => s + (i : Int) * o).Nodup :=
    fun s o n ho => nodup_range.map (inj s o ho)
  have hcast : Function.Injective fun i : Nat => (i : Int) := fun i j h => by simpa using h
  rw [order_gif]
  refine (perm_ext_iff_of_nodup ?_ (nodup_range.map hcast)).2 fun y => ?_
  · simp only [nodup_append, rng 0 8 _ (by decide), rng 4 8 _ (by decide), rng 2 4 _ (by decide),
      rng 1 2 _ (by decide), true_and, mem_append, mem_map, mem_range]
    refine ⟨⟨?_, ?_⟩, ?_⟩
    all_goals (intro u hu v hv; omega)
  · simp only [mem_append, mem_map, mem_range]
    constructor
    · rintro (⟨i, hi, rfl⟩ | ⟨i, hi, rfl⟩ | ⟨i, hi, rfl⟩ | ⟨i, hi, rfl⟩)
      · exact ⟨i * 8, by omega, by omega⟩
      · exact ⟨4 + i * 8, by omega, by omega⟩
      · exact ⟨2 + i * 4, by omega, by omega⟩
      · exact ⟨1 + i * 2, by omega, by omega⟩
    · rintro ⟨i, hi, rfl⟩
      have hcases : i % 8 = 0 ∨ i % 8 = 4 ∨ i % 4 = 2 ∨ i % 2 = 1 := by omega
      rcases hcases with h | h | h | h
      · exact .inl ⟨i / 8, by omega, by omega⟩
      · exact .inr (.inl ⟨i / 8, by omega, by omega⟩)
      · exact .inr (.inr (.inl ⟨i / 4, by omega, by omega⟩))
      · exact .inr (.inr (.inr ⟨i / 2, by omega, by omega⟩))

theorem displays_low (hf : f.Sized) (hd : f.ilace = gif_ilace) (hn : f.npasses = 4) (hone : f.nlines = 1)
    (hht : f.ht ≤ 4) (h₀ : ∀ line, Inv f line 0 0 img) :
    Displays img ps ↔ ps.length ≤ 2 * f.bpl ∧ ¬ (f.ht = 2 ∧ ps.length = 2 * f.bpl) := by
  obtain ⟨w1, w2, w3, w4, w5⟩ := (h₀ fun _ => []).fields
  have wi : img.ilace = f.ilace := congrArg Frame.ilace (h₀ fun _ => []).frame
  obtain ⟨hb1, hb2⟩ := hf.bpl
  obtain ⟨hh1, hh2⟩ := hf.ht
  have hp0 : f.pos 0 = (0, 0) := by rw [Frame.pos, iterate_zero, id_eq, hd]; rfl
  have hp1 : f.pos 1 = (1, 4) := by
    have h0 : f.ilace.getD (0 : Int).toNat ⟨0, 0⟩ = ⟨0, 8⟩ := by rw [hd]; rfl
    rw [f.pos_succ, hp0, next_pass h0 (le_refl 0) (by omega) (by omega) (by decide) (by decide)
      (show (1 : Int) = if (0 : Int) + 1 ≥ f.npasses then 0 else (0 : Int) + 1 by rw [hn]; rfl), hd]
    rfl
  -- no picture is as low as this
  have tall : ∀ n : Int, n * f.bpl = f.ht * f.bpl → n = f.ht := fun n hn => Int.eq_of_mul_eq_mul_right (by omega) hn
  by_cases hshort : ps.length < f.bpl
  · obtain ⟨a, m, img', ham, hinv, hdec, -⟩ := decode_split hf (h₀ _) 0 (by omega) (v := ps)
      fun i hi => absurd hi (Nat.not_lt_zero i)
    have hy : img'.cur_y = 0 := by
      have := hinv.pos
      rw [ham, hp0, Prod.mk.injEq] at this
      exact this.2
    have hin := hinv.final (by omega) (ps.drop (0 * f.bpl.toNat))
    refine iff_of_true ⟨_, hdec (by omega), by rwa [w1, w2], fun hn => ?_⟩ (by omega)
    rw [w2, w3] at hn
    have hmul : 1 * f.bpl ≤ f.ht * f.bpl := Int.mul_le_mul_of_nonneg_right hh1 (by omega)
    omega
  · obtain ⟨a, m, img', ham, hinv, -, hdec⟩ := decode_split hf (h₀ _) 1 (by omega) (v := ps) fun i hi => by
      rw [Nat.lt_one_iff.1 hi, hp0]
      exact ⟨le_refl 0, by dsimp only; omega⟩
    have hm := hinv.lines.2
    obtain rfl : m = 0 := by omega
    obtain rfl : a = 1 := by omega
    have hy : img'.cur_y = 4 := by
      have := hinv.pos
      rw [ham, hp1, Prod.mk.injEq] at this
      exact this.2
    obtain ⟨hkept, hlost⟩ := stuck hf hone hht hinv hy (ps.drop (1 * f.bpl.toNat))
    rw [length_drop] at hkept hlost
    by_cases hlong : ps.length ≤ 2 * f.bpl
    · obtain ⟨img'', hdec', hs⟩ := hkept (by omega)
      have hshown := hinv.put
      rw [← hs, range_one, map_singleton, hp0] at hshown
      have hinside : ∀ b ∈ img''.shown, b.Inside img.wd img.ht := by
        rw [hs, w1, w2]
        exact hinv.inside
      constructor
      · rintro ⟨img₂, h₂, -, hrows⟩
        refine ⟨hlong, fun he => ?_⟩
        obtain rfl : img'' = img₂ := by rw [hdec, hdec'] at h₂; exact Option.some.inj h₂
        -- the second of the two rows is missing
        have := hrows (by rw [w2, w3, he.1, he.2])
        rw [hshown, wi, hd, w2, he.1] at this
        have hlen := congrArg List.length this
        simp [order_gif] at hlen
      · rintro ⟨-, hne⟩
        refine ⟨img'', hdec.trans hdec', hinside, fun hwhole => ?_⟩
        rw [w2, w3] at hwhole
        have hht1 : f.ht = 1 := by
          have hle : f.ht * f.bpl ≤ 2 * f.bpl := by omega
          have hle2 : f.ht ≤ 2 := Int.le_of_mul_le_mul_right hle (by omega)
          rcases Int.le_iff_lt_or_eq.1 hle2 with h | h
          · omega
          · exact absurd ⟨h, by rw [hwhole, h]⟩ hne
        rw [hshown, wi, hd, w2, w3, hht1]
        rfl
    · refine iff_of_false (fun ⟨img₂, h₂, _⟩ => ?_) fun h => hlong h.1
      rw [hdec, hlost (by omega)] at h₂
      cases h₂

theorem displays_high (hf : f.Sized) (hd : f.ilace = gif_ilace) (hone : f.nlines = 1) (hht : 32760 < f.ht)
    (h₀ : ∀ line, Inv f line 0 0 img) :
    Displays img ps ↔ ps.length ≤ 4096 * f.bpl := by
  obtain ⟨w1, w2, w3, w4, w5⟩ := (h₀ fun _ => []).fields
  obtain ⟨hb1, hb2⟩ := hf.bpl
  obtain ⟨hh1, hh2⟩ := hf.ht
  have hp0 : f.pos 0 = (0, 0) := by rw [Frame.pos, iterate_zero, id_eq, hd]; rfl
  have h0 : f.ilace.getD (0 : Int).toNat ⟨0, 0⟩ = ⟨0, 8⟩ := by rw [hd]; rfl
  have hpos : ∀ i : Nat, i < 4096 → f.pos i = (0, 0 + (i : Int) * 8) := by
    intro i hi
    have := pass_run h0 hp0 (by decide) (le_refl 0) hh2 i (by omega)
    rwa [Nat.zero_add] at this
  have hrow : ∀ i : Nat, i < 4096 → 0 ≤ (f.pos i).2 ∧ (f.pos i).2 < f.ht := by
    intro i hi
    rw [hpos i hi]
    dsimp only
    omega
  have hwrap : f.pos 4096 = (0, -32768) := by
    rw [f.pos_succ 4095, hpos 4095 (by omega), Frame.next]
    dsimp only
    rw [h0]
    have hshort : short (0 + ((4095 : Nat) : Int) * 8 + 8) = -32768 := by decide
    dsimp only
    rw [hshort, if_neg (by omega)]
  have htall : 4096 * f.bpl < f.ht * f.bpl := Int.mul_lt_mul_of_pos_right (by omega) (by omega)
  by_cases hlong : ps.length ≤ 4096 * f.bpl
  · refine iff_of_true ?_ hlong
    obtain ⟨K, hK⟩ : ∃ K, K = ps.length / f.bpl.toNat := ⟨_, rfl⟩
    have hle : K * f.bpl.toNat ≤ ps.length := hK ▸ Nat.div_mul_le_self _ _
    have hlt : ps.length < K * f.bpl.toNat + f.bpl.toNat := hK ▸ Nat.lt_div_mul_add (by omega)
    have hK4096 : K ≤ 4096 := by
      rw [hK]
      exact Nat.div_le_of_le_mul (by rw [Nat.mul_comm]; omega)
    obtain ⟨a, m, img', ham, hinv, hdec, -⟩ := decode_split hf (h₀ _) K hle fun i hi => hrow i (by omega)
    have hm := hinv.lines.2
    obtain rfl : m = 0 := by omega
    refine ⟨_, hdec (by omega), ?_, fun hn => ?_⟩
    · rw [w1, w2]
      have hy := hinv.pos
      by_cases hlast : K < 4096
      · have := hrow K hlast
        rw [← ham, ← hy] at this
        exact hinv.final this _
      · have hK' : K = 4096 := by omega
        rw [ham, hK', hwrap, Prod.mk.injEq] at hy
        rw [drop_eq_nil_of_le (by rw [hK']; omega), hinv.idle (by omega)]
        exact hinv.inside
    · rw [w2, w3] at hn
      omega
  · refine iff_of_false (fun ⟨img₂, h₂, hin, _⟩ => ?_) hlong
    obtain ⟨a, m, img', ham, hinv, -, hdec⟩ := decode_split hf (h₀ _) 4096 (by omega) (v := ps) hrow
    have hm := hinv.lines.2
    obtain rfl : m = 0 := by omega
    have hy := hinv.pos
    rw [ham, hwrap, Prod.mk.injEq] at hy
    rw [hdec] at h₂
    have hrest : ps.drop (4096 * f.bpl.toNat) ≠ [] := by
      intro he
      have hlen := congrArg List.length he
      rw [length_drop, length_nil] at hlen
      omega
    obtain ⟨b, hb, hout⟩ := wrapped hf hone hinv hy.2 hrest h₂
    exact hout (w1 ▸ w2 ▸ hin b hb)

def Delivers (interlaced : Bool) (wd ht : Int) (n : Nat) : Prop :=
  interlaced = false ∨ 5 ≤ ht ∧ ht ≤ 32760 ∨
    ht ≤ 4 ∧ n ≤ 2 * ((wd + 7) / 8) ∧ ¬ (ht = 2 ∧ n = 2 * ((wd + 7) / 8)) ∨
    32760 < ht ∧ n ≤ 4096 * ((wd + 7) / 8)

/-- An interlaced picture of less than five rows has a pass without rows, and one of more than 32760 rows does not fit a
`short`; all other pictures are displayed as they should be. -/
theorem image_displays (img₀ : image_t) (hwin : img₀.win = false) (hshown : img₀.shown = []) {wd ht : Int}
    (hwd : 1 ≤ wd ∧ wd ≤ 32767) (hht : 1 ≤ ht ∧ ht ≤ 32767) (interlaced : Bool) (ps : List char) :
    ∃ img, image_getwin true true wd ht gif_ilace (if interlaced then 4 else 0) img₀ = some img ∧
      (order img.ilace ht).Perm ((List.range ht.toNat).map fun i : Nat => (i : Int)) ∧
      (Displays img ps ↔ Delivers interlaced wd ht ps.length) := by
  obtain ⟨img, hget, hw, hh, hb, hi, hn, hone, hsized, hinv⟩ := getwin_start img₀ hwin hshown hwd hht interlaced
  have hfh : img.frame.ht = ht := hh
  have hfb : img.frame.bpl = (wd + 7) / 8 := hb
  have hfi : img.frame.ilace = _ := hi
  have hfn : img.frame.npasses = _ := hn
  have hperm : (order img.ilace ht).Perm ((List.range ht.toNat).map fun i : Nat => (i : Int)) := by
    rw [hi]
    split_ifs
    · exact order_perm ht
    · rw [order_def]
  refine ⟨img, hget, hperm, ?_⟩
  rw [Delivers, ← hfh, ← hfb]
  cases interlaced with
  | false =>
    have hpos := pos_def hsized hfi hfn
    refine iff_of_true (displays_of_rows hsized (hinv _) (fun i => ?_) ?_) (.inl rfl)
    · rw [hpos]
      exact ⟨Int.emod_nonneg _ (by omega), Int.emod_lt_of_pos _ (by omega)⟩
    · rw [hfi]
      refine (order_def _).trans (List.map_congr_left fun i hi => ?_)
      have := List.mem_range.1 hi
      rw [hpos]
      exact (Int.emod_eq_of_lt (by omega) (by omega)).symm
  | true =>
    simp only [reduceCtorEq, false_or]
    by_cases hlow : img.frame.ht ≤ 4
    · rw [displays_low hsized hfi hfn (hone rfl) hlow hinv]
      constructor
      · exact fun h => .inr (.inl ⟨hlow, h⟩)
      · rintro (h | h | h)
        · omega
        · exact h.2
        · omega
    · by_cases hhigh : 32760 < img.frame.ht
      · rw [displays_high hsized hfi (hone rfl) hhigh hinv]
        constructor
        · exact fun h => .inr (.inr ⟨hhigh, h⟩)
        · rintro (h | h | h)
          · omega
          · omega
          · exact h.2
      · have hmid : 5 ≤ img.frame.ht ∧ img.frame.ht ≤ 32760 := by omega
        refine iff_of_true (displays_of_rows hsized (hinv _) (fun i => (gif_inside hfi hfn hmid i).2) ?_) (.inl hmid)
        exact gif_rows hfi hfn hmid

def image_alloc : image_t where
  x := 0
  y := 0
  wd := 0
  ht := 0
  cur_ht := 0
  win := false
  ilace := []
  bpl := 0
  pad := 0
  nlines := 0
  npasses := 0
  newlines := 0
  cur_pass := 0
  cur_y := 0
  cur_bytes := 0
  cur_lines := 0
  buf := fun _ => 0
  cp := 0
  locked := true
  shown := []

theorem image_displays_five : ∃ img, image_getwin true true 8 5 gif_ilace 4 image_alloc = some img ∧
    (order img.ilace 5).Perm ((List.range (5 : Int).toNat).map fun i : Nat => (i : Int)) ∧
    (Displays img [1, 2, 3, 4, 5] ↔ Delivers true 8 5 5) :=
  image_displays image_alloc rfl rfl (by decide) (by decide) true [1, 2, 3, 4, 5]

/-- The third byte of an interlaced picture of 8 by 3 pixels is written behind the buffer. -/
theorem image_overrun : ∃ img, image_getwin true true 8 3 gif_ilace 4 image_alloc = some img ∧
    (decode img [1, 2, 3]).isNone = true ∧ ¬ Displays img [1, 2, 3] := by
  refine ⟨_, rfl, by decide, fun ⟨img', h, _⟩ => ?_⟩
  have hsome := congrArg Option.isNone h
  revert hsome
  exact Bool.noConfusion

end WWindowSystem.Image
