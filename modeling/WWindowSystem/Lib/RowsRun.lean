import WWindowSystem.Lib.Rows

namespace WWindowSystem

open List

def Content (src dst : BITMAP) (line d : List Byte) : Prop :=
  match src.type, dst.type with
  | .packedmono, .direct8 => d = (List.range src.width).map fun x =>
      BitVec.ofNat 8 (if monoBit line x then FGCOL_INDEX else BGCOL_INDEX)
  | .packedmono, .direct24 => d = (List.range src.width).flatMap fun x =>
      if monoBit line x then [0xff, 0xff, 0xff] else [0x00, 0x00, 0x00]
  | .packedmono, .packedcolor => (d.length : Int) = dst.linesize ∧
      ∀ x < src.width, ∀ p < dst.planes,
        planeBit dst.planes d x p = (decide (p = 0) && monoBit line x)
  | .direct8, .direct24 => ∃ color, src.palette = some color ∧ d = (line.take src.width).flatMap fun v =>
      [(color v).red, (color v).green, (color v).blue]
  | .packedcolor, .packedmono => src.width ≤ 8 * d.length ∧
      ∀ x < src.width, monoBit d x = true ↔ ∃ p < src.planes, planeBit src.planes line x p = true
  | .packedmono, .packedmono | .packedcolor, .packedcolor | .direct8, .direct8
  | .direct24, .direct24 => d = line
  | _, _ => True

/-- The call for a row reads the source line and nothing behind it, stores in the destination line
only, and returns the start of the next source line. -/
structure RowDone (conv : Converter) (src dst : BITMAP) (line : List Byte)
    (out : List (Option Byte)) : Prop where
  reads : ∀ rest, conv src dst (line ++ rest) = some (out, src.linesize)
  writes : ∀ (i : Nat) (b : Byte), out[i]? = some (some b) → (i : Int) < dst.linesize
  content : ∃ d, d.map some <+: out ∧ Content src dst line d

structure RowsFit (src dst : BITMAP) : Prop where
  source : 0 ≤ src.upl
  destination : 0 ≤ dst.upl
  dithered : dst.type = .packedmono → src.type = .direct8 ∨ src.type = .direct24 →
    src.width % 32 ≠ 0
  joined : dst.type = .packedmono → src.type = .packedcolor → src.height ≤ 1 ∨ src.width = 0
  spread : src.type = .packedmono → dst.type = .direct8 ∨ dst.type = .direct24 → src.width ≠ 0

variable {d : List Byte}

theorem writes_all {dst : BITMAP} (h : (d.length : Int) ≤ dst.linesize) (i : Nat)
    (b : Byte) (hi : (d.map some)[i]? = some (some b)) : (i : Int) < dst.linesize := by
  obtain ⟨hlt, -⟩ := List.getElem?_eq_some_iff.mp hi
  rw [length_map] at hlt
  omega

theorem length_of_writes {dst : BITMAP}
    (h : ∀ (i : Nat) (b : Byte), (d.map some)[i]? = some (some b) → (i : Int) < dst.linesize) :
    d = [] ∨ (d.length : Int) ≤ dst.linesize := by
  cases hl : d.length with
  | zero => exact Or.inl (eq_nil_of_length_eq_zero hl)
  | succ n =>
    have hlt : n < d.length := by omega
    have hi : (d.map some)[n]? = some (some d[n]) := by
      rw [getElem?_map, getElem?_eq_getElem hlt, Option.map_some]
    have := h n _ hi
    right
    push_cast
    omega

variable {conv : Converter}

theorem rowDone_all {src dst : BITMAP} {line d : List Byte}
    (hr : ∀ rest, conv src dst (line ++ rest) = some (d.map some, src.linesize))
    (hl : (d.length : Int) ≤ dst.linesize) (hc : Content src dst line d) : RowDone conv src dst line (d.map some) :=
  ⟨hr, writes_all hl, d, prefix_refl _, hc⟩

variable {planes : Nat} {big : Bool} {D : Dither} {src dst : BITMAP}

variable {line : List Byte}

theorem row_copy (hn : src.linesize = dst.linesize)
    (hl : (line.length : Int) = src.linesize) (hc : Content src dst line line) :
    RowDone copy_bm src dst line (line.map some) := by
  apply rowDone_all _ (by omega) hc
  intro rest
  have hcount : src.unitsize * src.upl = line.length := hl.symm
  have hge : ¬ ((line.length : Int) < 0 ∨ ((line ++ rest).length : Int) < line.length) := by
    rw [length_append]
    push_cast
    omega
  rw [copy_bm, hcount, if_neg hge, ← hl, Int.toNat_natCast, take_left]

variable {gray : List Byte → Option (Byte × List Byte)}

theorem odither_reads (big : Bool) (D : Dither) (dst : BITMAP)
    {u : Nat} (hg : Reads u gray)
    (hl : u * src.width ≤ line.length) : ∃ d : List Byte, d.length = 2 * (src.width / 16 + 1) ∧
      ∀ rest, odither big D gray src dst (line ++ rest) = some (d.map some, src.linesize) := by
  obtain ⟨t, v, rfl, ht, -⟩ := split_at line (m := u * src.width)
    (n := line.length - u * src.width) (by omega)
  rw [← Nat.div_add_mod src.width 16] at ht
  obtain ⟨d, hdl, hd⟩ := ditherShorts_reads (D := D) big hg (src.width % 16) (src.width / 16) ht
  refine ⟨d, hdl, fun rest => ?_⟩
  rw [odither, append_assoc, hd, BITMAP.linesize, Int.mul_comm]
  rfl

theorem row_mono2packed (hp : 0 < dst.planes) (hw : src.width = dst.width)
    (hst : src.type = .packedmono) (hdt : dst.type = .packedcolor)
    (hd : dst.linesize = 2 * ((dst.width + 15) / 16 * dst.planes))
    (hl : (line.length : Int) = 4 * ((dst.width + 31) / 32)) : ∃ out, RowDone (mono2packed big) src dst line out := by
  obtain ⟨d, hdl, hbits, hr⟩ := mono2packed_reads big src hp (s := line) (by omega)
  have hdl' : (d.length : Int) = dst.linesize := by
    rw [hd, hdl]
    push_cast
    ring
  refine ⟨_, rowDone_all hr hdl'.le ?_⟩
  rw [Content, hst, hdt]
  rw [← hw] at hbits
  exact ⟨hdl', hbits⟩

theorem row_mono2 (pixel : Bool → List Byte) {n : Nat} (hn : ∀ b, (pixel b).length = n)
    (hw : src.width = dst.width) (h0 : src.width ≠ 0) (hd : n * dst.width ≤ dst.linesize)
    (hl : (line.length : Int) = 4 * ((src.width + 31) / 32))
    (hc : Content src dst line ((List.range dst.width).flatMap fun x => pixel (monoBit line x))) :
    ∃ out, RowDone (mono2 pixel) src dst line out := by
  refine ⟨_, rowDone_all (fun rest => mono2_reads pixel (by omega) (by omega) rest) ?_ hc⟩
  rw [length_flatMap, map_congr_left fun x _ => hn _, map_const', sum_replicate_nat,
    length_range, Nat.mul_comm]
  push_cast
  exact hd

theorem packed2monoLines_zero (big : Bool) (planes skip height : Nat) (s : List Byte) :
    packed2monoLines big planes 0 skip height s = some (List.replicate (height * (2 * skip)) none) := by
  induction height generalizing s with
  | zero => rw [packed2monoLines, Nat.zero_mul, replicate_zero]
  | succ height ih =>
    change (packed2monoLines big planes 0 skip height s).bind (fun rest =>
      some (List.map some [] ++ List.replicate (2 * skip) none ++ rest)) = _
    rw [ih, Option.bind_some, map_nil, nil_append, replicate_append_replicate]
    congr 2
    ring

theorem row_packed2mono (hp : 0 < src.planes) (hst : src.type = .packedcolor)
    (hdt : dst.type = .packedmono) (hu : src.upl = (src.width + 15) / 16 * src.planes)
    (hd : dst.linesize = 4 * ((src.width + 31) / 32)) (hh : src.height = 1 ∨ src.width = 0)
    (hl : line.length = 2 * ((src.width + 15) / 16 * src.planes)) :
    ∃ out, RowDone (packed2mono big) src dst line out := by
  obtain ⟨d, hdl, hbits, hr⟩ := packed2monoLine_reads big hp ((src.width + 15) / 16) (s := line)
    (by rw [hl]; ring)
  have hshorts : src.upl / src.planes = ((src.width + 15) / 16 : Nat) := by
    rw [hu, Int.mul_ediv_cancel _ (by omega)]
    push_cast
    rfl
  generalize hskip : (((src.width : Int) + (M_UNIT * 8 - 1)) / 16 - src.upl / src.planes).toNat = skip
  have hlines : ∃ n, ∀ rest, packed2monoLines big src.planes ((src.width + 15) / 16) skip src.height
      (line ++ rest) = some (d.map some ++ List.replicate n none) := by
    obtain hh | hh := hh
    · refine ⟨2 * skip, fun rest => ?_⟩
      rw [hh, packed2monoLines, hr]
      change some (d.map some ++ List.replicate (2 * skip) none ++ []) = _
      rw [append_nil]
    · refine ⟨src.height * (2 * skip), fun rest => ?_⟩
      rw [hh] at hdl
      obtain rfl := eq_nil_of_length_eq_zero hdl
      rw [hh]
      exact packed2monoLines_zero big src.planes skip src.height _
  obtain ⟨n, hn⟩ := hlines
  refine ⟨d.map some ++ List.replicate n none, fun rest => ?_, fun i b hi => ?_, d,
    prefix_append _ _, ?_⟩
  · change (packed2monoLines big src.planes (src.upl / src.planes).toNat
      (((src.width : Int) + (M_UNIT * 8 - 1)) / 16 - src.upl / src.planes).toNat src.height
      (line ++ rest)).bind _ = _
    rw [hskip, hshorts, Int.toNat_natCast, hn]
    rfl
  · by_cases hlt : i < d.length
    · rw [hd]
      omega
    · rw [getElem?_append_right (by rw [length_map]; omega)] at hi
      have hmem := mem_of_getElem? hi
      cases eq_of_mem_replicate hmem
  · rw [Content, hst, hdt]
    exact ⟨by omega, fun x hx => hbits x (by omega)⟩

variable (masks : List (Byte × Byte))

theorem row_directpacked (hm : 2 * masks.length = dst.planes)
    (hw : src.width = dst.width) (hst : src.type = .direct8) (hdt : dst.type = .packedcolor)
    (hd : dst.linesize = 2 * ((src.width + 15) / 16 * dst.planes))
    (hl : src.width ≤ line.length) : ∃ out, RowDone (directpacked big masks) src dst line out := by
  obtain ⟨t, v, rfl, ht, -⟩ := split_at line (m := src.width) (n := line.length - src.width) (by omega)
  have hm' : masks.length = masks.length := rfl
  obtain ⟨out, hout, hol, -⟩ := direct_round big hm' t
  refine ⟨_, rowDone_all (d := out) (fun rest => ?_) ?_ ?_⟩
  · rw [directpacked, ← hw, ← ht, append_assoc, hout]
    rfl
  · rw [hol, ht, hd, ← hm]
    push_cast
    apply le_of_eq
    ring
  · rw [Content, hst, hdt]
    trivial

theorem row_packeddirect (hm : 2 * masks.length = src.planes)
    (hw : src.width = dst.width) (hst : src.type = .packedcolor) (hdt : dst.type = .direct8)
    (hd : src.width ≤ dst.linesize) (hl : line.length = 2 * ((src.width + 15) / 16 * src.planes)) :
    ∃ out, RowDone (packeddirect big masks) src dst line out := by
  obtain ⟨d, hdl, hr⟩ := packeddirectLoop_reads big masks dst.width (s := line)
    (by rw [hl, ← hm, hw]; ring)
  refine ⟨_, rowDone_all (d := d) (fun rest => ?_) (by omega) ?_⟩
  · rw [packeddirect, hr]
    rfl
  · rw [Content, hst, hdt]
    trivial

theorem row_direct2truecolor {color : Byte → Rgb} (hc : src.palette = some color)
    (hw : src.width = dst.width) (hst : src.type = .direct8) (hdt : dst.type = .direct24)
    (hd : dst.linesize = 3 * src.width) (hl : src.width ≤ line.length) :
    ∃ out, RowDone direct2truecolor src dst line out := by
  refine ⟨_, rowDone_all (d := (line.take src.width).flatMap fun v =>
    [(color v).red, (color v).green, (color v).blue]) (fun rest => ?_) ?_ ?_⟩
  · rw [direct2truecolor, hc, Option.bind_eq_bind, Option.bind_some, ← hw,
      direct2truecolorLoop_reads color src.width hl]
    rfl
  · have h3 (v : Byte) : [(color v).red, (color v).green, (color v).blue].length = 3 := rfl
    simp only [length_flatMap, h3]
    rw [map_const', sum_replicate_nat, length_take, Nat.min_eq_left hl, hd]
    push_cast
    omega
  · rw [Content, hst, hdt]
    exact ⟨color, hc, rfl⟩

theorem directpacked_of (hst : src.type = .direct8) (hdt : dst.type = .packedcolor)
    (hc : w_convertFunction big D src dst = some conv) :
    ∃ masks, 2 * masks.length = dst.planes ∧ conv = directpacked big masks ∧ dst.planes ≤ 8 := by
  simp only [w_convertFunction, hst, hdt] at hc
  split_ifs at hc with h2 h4 h8 <;> cases hc
  · exact ⟨_, by rw [h2]; rfl, rfl, by omega⟩
  · exact ⟨_, by rw [h4]; rfl, rfl, by omega⟩
  · exact ⟨_, by rw [h8]; rfl, rfl, by omega⟩

theorem packeddirect_of (hst : src.type = .packedcolor) (hdt : dst.type = .direct8)
    (hc : w_convertFunction big D src dst = some conv) :
    ∃ masks, 2 * masks.length = src.planes ∧ conv = packeddirect big masks := by
  simp only [w_convertFunction, hst, hdt] at hc
  split_ifs at hc with h2 h4 h8 <;> cases hc
  · exact ⟨_, by rw [h2]; rfl, rfl⟩
  · exact ⟨_, by rw [h4]; rfl, rfl⟩
  · exact ⟨_, by rw [h8]; rfl, rfl⟩

theorem row_done (hs : Headed planes src) (hd : Headed planes dst)
    (hw : src.width = dst.width) (hb : src.width < 32768) (hp : 0 < planes) (hp' : planes < 32)
    (hpal : src.type = .direct8 → dst.type = .direct24 → src.palette.isSome)
    (hc : w_convertFunction big D src dst = some conv) (hh : 0 < src.height) (hf : RowsFit src dst)
    (hl : (line.length : Int) = src.linesize) : ∃ out, RowDone conv src dst line out := by
  have hsl := linesize_eq hs hb hp' hf.source
  have hdl := linesize_eq hd (hw ▸ hb) hp' hf.destination
  have hline : line.length = lineBytes planes src.width src.type := by
    rw [hsl] at hl
    exact_mod_cast hl
  have hcopy (ht : src.type = dst.type) (h : conv = copy_bm) (hx : Content src dst line line) :
      ∃ out, RowDone conv src dst line out := by
    subst h
    exact ⟨_, row_copy (by rw [hsl, hdl, ht, hw]) hl hx⟩
  have hdither {gray : List Byte → Option (Byte × List Byte)} {u : Nat} (hg : Reads u gray)
      (hst : src.type = .direct8 ∨ src.type = .direct24) (hdt : dst.type = .packedmono)
      (hu : u * src.width ≤ line.length) : ∃ out, RowDone (odither big D gray) src dst line out := by
    obtain ⟨d, hdd, hr⟩ := odither_reads big D dst hg hu
    have hne := hf.dithered hdt hst
    refine ⟨_, rowDone_all hr ?_ ?_⟩
    · rw [hdd, hdl, hdt, lineBytes, ← hw]
      omega
    · rw [Content, hdt]
      obtain hst | hst := hst <;> rw [hst] <;> trivial
  have hc' := hc
  cases hst : src.type <;> cases hdt : dst.type <;>
    simp only [w_convertFunction, hst, hdt, reduceCtorEq, Option.some.injEq] at hc
  · exact hcopy (hst.trans hdt.symm) hc.symm (by rw [Content, hst, hdt])
  · subst hc
    apply row_mono2 _ (n := 1) (fun b => rfl) hw (hf.spread hst (Or.inl hdt))
    · rw [hdl, hdt, lineBytes]
      omega
    · rw [hline, hst, lineBytes]
      push_cast
      rfl
    · rw [Content, hst, hdt, ← hw]
      exact (map_eq_flatMap ..).symm
  · subst hc
    have hdp : dst.planes = planes := by
      rw [Headed, hdt] at hd
      exact hd.1
    apply row_mono2packed (by omega) hw hst hdt
    · rw [hdl, hdt, lineBytes, hdp]
      push_cast
      rfl
    · rw [hline, hst, lineBytes, hw]
      push_cast
      rfl
  · subst hc
    apply row_mono2 _ (n := 3) (fun b => by cases b <;> rfl) hw (hf.spread hst (Or.inr hdt))
    · rw [hdl, hdt, lineBytes]
      push_cast
      rfl
    · rw [hline, hst, lineBytes]
      push_cast
      rfl
    · rw [Content, hst, hdt, ← hw]
  · subst hc
    apply hdither getByte_reads (Or.inl hst) hdt
    rw [hline, hst, lineBytes]
    omega
  · exact hcopy (hst.trans hdt.symm) hc.symm (by rw [Content, hst, hdt])
  · have hdp : dst.planes = planes := by
      rw [Headed, hdt] at hd
      exact hd.1
    have hdd : dst.linesize = 2 * ((src.width + 15) / 16 * dst.planes) := by
      rw [hdl, hdt, lineBytes, hdp, hw]
      push_cast
      rfl
    have hlw : src.width ≤ line.length := by
      rw [hline, hst, lineBytes]
      omega
    obtain ⟨masks, hm, rfl, -⟩ := directpacked_of hst hdt hc'
    exact row_directpacked masks hm hw hst hdt hdd hlw
  · subst hc
    obtain ⟨color, hcolor⟩ := Option.isSome_iff_exists.mp (hpal hst hdt)
    apply row_direct2truecolor hcolor hw hst hdt
    · rw [hdl, hdt, lineBytes, hw]
      push_cast
      rfl
    · rw [hline, hst, lineBytes]
      omega
  · subst hc
    have hsp : src.planes = planes := by
      rw [Headed, hst] at hs
      exact hs.1
    have hu : src.upl = (src.width + 15) / 16 * src.planes := by
      have hunit : src.unitsize = 2 := by
        rw [Headed, hst] at hs
        exact hs.2.2
      rw [BITMAP.linesize, hunit, hst, lineBytes] at hsl
      rw [hsp]
      push_cast at hsl
      omega
    apply row_packed2mono (by omega) hst hdt hu
    · rw [hdl, hdt, lineBytes, hw]
      push_cast
      rfl
    · have := hf.joined hdt hst
      omega
    · rw [hline, hst, lineBytes, hsp]
  · have hsp : src.planes = planes := by
      rw [Headed, hst] at hs
      exact hs.1
    have hdd : src.width ≤ dst.linesize := by
      rw [hdl, hdt, lineBytes]
      omega
    have hll : line.length = 2 * ((src.width + 15) / 16 * src.planes) := by
      rw [hline, hst, lineBytes, hsp]
    obtain ⟨masks, hm, rfl⟩ := packeddirect_of hst hdt hc'
    exact row_packeddirect masks hm hw hst hdt hdd hll
  · split_ifs at hc
    exact hcopy (hst.trans hdt.symm) (Option.some.inj hc).symm (by rw [Content, hst, hdt])
  · subst hc
    apply hdither grayTruecolor_reads (Or.inr hst) hdt
    rw [hline, hst, lineBytes]
  · exact hcopy (hst.trans hdt.symm) hc.symm (by rw [Content, hst, hdt])

variable {out : List (Option Byte)}

theorem RowDone.nothing {line d : List Byte}
    (h : RowDone conv src dst line out) (hneg : dst.linesize < 0) (hd : d.map some <+: out) : d = [] := by
  obtain ⟨r, rfl⟩ := hd
  cases d with
  | nil => rfl
  | cons b d =>
    have := h.writes 0 b rfl
    omega

theorem upl_neg_type {planes : Nat} {bm : BITMAP} (hb : Headed planes bm) (hw : bm.width < 32768)
    (h : bm.upl < 0) : bm.type = .direct8 ∧ bm.width ≠ 0 ∨ bm.type = .packedcolor := by
  cases ht : bm.type <;> simp only [Headed, ht] at hb
  · rw [hb.1, short_of_range (by omega) (by omega)] at h
    omega
  · refine Or.inl ⟨rfl, fun h0 => ?_⟩
    rw [hb.1, h0] at h
    exact absurd h (by decide)
  · exact Or.inr rfl
  · rw [hb.1, short_of_range (by omega) (by omega)] at h
    omega

theorem upl_congr {planes : Nat} (hs : Headed planes src) (hd : Headed planes dst)
    (hw : src.width = dst.width) (ht : src.type = dst.type) : src.upl = dst.upl := by
  rw [Headed, ht] at hs
  rw [Headed] at hd
  cases hdt : dst.type <;> simp only [hdt] at hs hd
  · rw [hs.1, hd.1, hw]
  · rw [hs.1, hd.1, hw]
  · rw [hs.2.1, hd.2.1, hw]
  · rw [hs.1, hd.1, hw]

theorem destination_of (hs : Headed planes src) (hd : Headed planes dst)
    (hw : src.width = dst.width) (hb : src.width < 32768) (hp' : planes < 32)
    (hc : w_convertFunction big D src dst = some conv) (h0 : 0 ≤ src.upl)
    (hl : (line.length : Int) = src.linesize)
    (h : RowDone conv src dst line out) : 0 ≤ dst.upl := by
  by_contra hneg
  have hlneg : dst.linesize < 0 := (linesize_neg hd).mpr (by omega)
  have hne : src.type ≠ dst.type := fun ht => by
    have := upl_congr hs hd hw ht
    omega
  obtain ⟨d, hpre, hcont⟩ := h.content
  obtain rfl := h.nothing hlneg hpre
  have hc' := hc
  obtain ⟨hdt, hwd⟩ | hdt := upl_neg_type hd (hw ▸ hb) (Int.not_le.mp hneg)
  · cases hst : src.type <;> simp only [w_convertFunction, hst, hdt, reduceCtorEq] at hc
    · rw [Content, hst, hdt] at hcont
      have := congrArg List.length hcont
      rw [length_map, length_range, length_nil] at this
      omega
    · exact hne (hst.trans hdt.symm)
    · obtain ⟨masks, hm, rfl⟩ := packeddirect_of hst hdt hc'
      have hsp : src.planes = planes := by
        rw [Headed, hst] at hs
        exact hs.1
      have hline : line.length = lineBytes planes src.width src.type := by
        rw [linesize_eq hs hb hp' h0] at hl
        exact_mod_cast hl
      obtain ⟨d, hdl, hr⟩ := packeddirectLoop_reads big masks dst.width (s := line)
        (by rw [hline, hst, lineBytes, ← hsp, ← hm, hw]; ring)
      have hout := h.reads []
      rw [packeddirect, hr] at hout
      obtain ⟨rfl, -⟩ := Prod.mk.inj (Option.some.inj hout)
      obtain rfl := h.nothing hlneg (prefix_refl _)
      exact hwd hdl.symm
  · cases hst : src.type <;> simp only [w_convertFunction, hst, hdt, reduceCtorEq] at hc
    · rw [Content, hst, hdt] at hcont
      have := hcont.1
      rw [length_nil] at this
      omega
    · obtain ⟨masks, -, -, h8⟩ := directpacked_of hst hdt hc'
      rw [Headed, hdt] at hd
      obtain ⟨hdp, hu, -⟩ := hd
      rw [hdp] at h8
      have hz : (dst.width + 15) / 16 * 16 * planes / 16 ≤ 2048 * 8 := by
        rw [Nat.mul_right_comm, Nat.mul_div_cancel _ (by decide)]
        exact Nat.mul_le_mul (by omega) h8
      have hz' : ((dst.width : Int) + 15) / 16 * 16 * planes / 16 =
          ((dst.width + 15) / 16 * 16 * planes / 16 : Nat) := by
        push_cast
        rfl
      rw [hz', short_of_range (by omega) (by omega)] at hu
      omega
    · exact hne (hst.trans hdt.symm)

theorem dithered_of {u : Nat} (hg : Reads u gray)
    (hl : u * src.width ≤ line.length)
    (hd : dst.linesize = 4 * ((src.width + 31) / 32))
    (h : RowDone (odither big D gray) src dst line out) : src.width % 32 ≠ 0 := by
  intro h0
  obtain ⟨d, hdd, hr⟩ := odither_reads big D dst hg hl
  have hout := (h.reads []).symm.trans (hr [])
  obtain ⟨rfl, -⟩ := Prod.mk.inj (Option.some.inj hout)
  obtain rfl | hlen := length_of_writes h.writes
  · rw [length_nil] at hdd
    omega
  · rw [hdd, hd] at hlen
    omega

theorem joined_of (hp : 0 < src.planes) (hu : src.upl = (src.width + 15) / 16 * src.planes)
    (hl : line.length = 2 * ((src.width + 15) / 16 * src.planes))
    (h : RowDone (packed2mono big) src dst line out) : src.height ≤ 1 ∨ src.width = 0 := by
  by_contra hno
  obtain ⟨height, hh⟩ : ∃ height, src.height = height + 2 := ⟨src.height - 2, by omega⟩
  obtain ⟨count, hcount⟩ : ∃ count, (src.width + 15) / 16 = count + 1 :=
    ⟨(src.width + 15) / 16 - 1, by omega⟩
  obtain ⟨d, -, -, hr⟩ := packed2monoLine_reads big hp (count + 1) (s := line)
    (by rw [hl, hcount]; ring)
  have hshorts : src.upl / src.planes = (count + 1 : Nat) := by
    rw [hu, Int.mul_ediv_cancel _ (by omega), ← hcount]
    push_cast
    rfl
  have hout := h.reads []
  rw [packed2mono, hshorts, Int.toNat_natCast, hh, packed2monoLines, hr] at hout
  cases hout

theorem rowsFit_of (hs : Headed planes src) (hd : Headed planes dst)
    (hw : src.width = dst.width) (hb : src.width < 32768) (hp : 0 < planes) (hp' : planes < 32)
    (hc : w_convertFunction big D src dst = some conv)
    (hl : (line.length : Int) = src.linesize)
    (h : RowDone conv src dst line out) : RowsFit src dst := by
  have h0 : 0 ≤ src.upl := by
    have := linesize_neg hs
    omega
  have h1 := destination_of hs hd hw hb hp' hc h0 hl h
  have hline : line.length = lineBytes planes src.width src.type := by
    rw [linesize_eq hs hb hp' h0] at hl
    exact_mod_cast hl
  have hdl := linesize_eq hd (hw ▸ hb) hp' h1
  refine ⟨h0, h1, fun hdt hst => ?_, fun hdt hst => ?_, fun hst hdt hwz => ?_⟩
  · have hdm : dst.linesize = 4 * ((src.width + 31) / 32) := by
      rw [hdl, hdt, lineBytes, hw]
      push_cast
      rfl
    obtain hst | hst := hst <;> simp only [w_convertFunction, hst, hdt, Option.some.injEq] at hc <;>
      subst hc
    · exact dithered_of getByte_reads (by rw [hline, hst, lineBytes]; omega) hdm h
    · exact dithered_of grayTruecolor_reads (by rw [hline, hst, lineBytes]) hdm h
  · simp only [w_convertFunction, hst, hdt, Option.some.injEq] at hc
    subst hc
    have hsl := linesize_eq hs hb hp' h0
    rw [Headed, hst] at hs
    obtain ⟨hsp, -, hunit⟩ := hs
    rw [BITMAP.linesize, hunit, hst, lineBytes] at hsl
    apply joined_of (by omega) _ _ h
    · rw [hsp]
      push_cast at hsl
      omega
    · rw [hline, hst, lineBytes, hsp]
  · have hnil : line = [] := by
      apply eq_nil_of_length_eq_zero
      rw [hline, hst, lineBytes, hwz]
    have hout := h.reads []
    subst hnil
    obtain hdt | hdt := hdt <;> simp only [w_convertFunction, hst, hdt, Option.some.injEq] at hc <;>
      subst hc <;> cases hout

theorem convertRows_done {conv : Nat → Converter} (h0 : 0 ≤ src.linesize) {lines : List (List Byte)}
    (hl : ∀ line ∈ lines, (line.length : Int) = src.linesize) (row : Nat)
    (hrow : ∀ k, ∀ line ∈ lines, ∃ out, RowDone (conv k) src dst line out) :
    ∃ outs, (∀ rest, convertRows conv src dst row lines.length (lines.flatten ++ rest) = some outs) ∧
      ∀ k line, lines[k]? = some line → ∃ out, outs[k]? = some out ∧ RowDone (conv (row + k)) src dst line out := by
  induction lines generalizing row with
  | nil => exact ⟨[], fun rest => rfl, fun k line hk => by cases hk⟩
  | cons line lines ih =>
    obtain ⟨hl1, hl⟩ := forall_mem_cons.mp hl
    obtain ⟨outs, hrun, houts⟩ := ih hl (row + 1) fun k line hm =>
      hrow k line (mem_cons_of_mem _ hm)
    obtain ⟨out, hout⟩ := hrow row line mem_cons_self
    refine ⟨out :: outs, fun rest => ?_, fun k line' hk => ?_⟩
    · rw [length_cons, flatten_cons, append_assoc, convertRows, hout.reads]
      change (if src.linesize < 0 then none else _) = _
      rw [if_neg (by omega), ← hl1, Int.toNat_natCast, drop_left]
      change (convertRows conv src dst (row + 1) lines.length (lines.flatten ++ rest)).bind _ = _
      rw [hrun]
      rfl
    · cases k with
      | zero =>
        cases hk
        exact ⟨out, rfl, hout⟩
      | succ k =>
        obtain ⟨o, ho, hd⟩ := houts k line' hk
        refine ⟨o, ho, ?_⟩
        rwa [← Nat.add_assoc, Nat.add_right_comm]

def RowsKept (conv : Nat → Converter) (src dst : BITMAP) : Prop :=
  ∀ lines : List (List Byte), lines.length = src.height →
    (∀ line ∈ lines, line.length = src.linesize.toNat) →
    ∃ outs, (∀ rest, convertRows conv src dst 0 src.height (lines.flatten ++ rest) = some outs) ∧
      ∀ k line, lines[k]? = some line →
        ∃ out, outs[k]? = some out ∧ RowDone (conv k) src dst line out

theorem convertRows_neg {conv : Nat → Converter} {line rest : List Byte}
    {row : Nat} (hneg : src.linesize < 0) (h : RowDone (conv row) src dst line out) (height : Nat) :
    convertRows conv src dst row (height + 1) (line ++ rest) = none := by
  rw [convertRows, h.reads]
  exact if_pos hneg

theorem headed_kept_iff {D : Nat → Dither} {conv : Nat → Converter} (hs : Headed planes src)
    (hd : Headed planes dst) (hw : src.width = dst.width) (hb : src.width < 32768) (hp : 0 < planes)
    (hp' : planes < 32) (hpal : src.type = .direct8 → dst.type = .direct24 → src.palette.isSome)
    (hc : ∀ k, w_convertFunction big (D k) src dst = some (conv k)) :
    RowsKept conv src dst ↔ src.height = 0 ∨ RowsFit src dst := by
  constructor
  · intro hk
    cases hn : src.height with
    | zero => exact Or.inl rfl
    | succ n =>
      right
      obtain ⟨outs, hrun, hrows⟩ := hk
        (List.replicate src.height (List.replicate src.linesize.toNat 0)) length_replicate
        fun line hm => by
          rw [eq_of_mem_replicate hm]
          exact length_replicate
      rw [hn, replicate_succ] at hrun hrows
      obtain ⟨out, -, hdone⟩ := hrows 0 _ rfl
      have h0 : 0 ≤ src.linesize := by
        by_contra hneg
        have hr := hrun []
        rw [flatten_cons, append_assoc,
          convertRows_neg (Int.not_le.mp hneg) hdone] at hr
        cases hr
      have hl : ((List.replicate src.linesize.toNat (0 : Byte)).length : Int) = src.linesize := by
        rw [length_replicate]
        omega
      exact rowsFit_of hs hd hw hb hp hp' (hc 0) hl hdone
  · rintro (hz | hf) lines hlen hl
    · obtain rfl := eq_nil_of_length_eq_zero (hlen.trans hz)
      refine ⟨[], fun rest => ?_, fun k line hk => by cases hk⟩
      rw [hz, convertRows]
    · have h0 : 0 ≤ src.linesize := by
        have := linesize_neg hs
        have := hf.source
        omega
      have hl' : ∀ line ∈ lines, (line.length : Int) = src.linesize := fun line hm => by
        have := hl line hm
        omega
      obtain ⟨outs, hrun, houts⟩ := convertRows_done h0 hl' 0 fun k line hm => by
        have := length_pos_of_mem hm
        exact row_done hs hd hw hb hp hp' hpal (hc k) (by omega) hf (hl' line hm)
      refine ⟨outs, fun rest => ?_, fun k line hk => ?_⟩
      · rw [← hlen, hrun]
      · obtain ⟨out, ho, hdone⟩ := houts k line hk
        rw [Nat.zero_add] at hdone
        exact ⟨out, ho, hdone⟩

/-- `D` holds for each row what the dithering uses, and the palette is set after `w_bmheader`. -/
theorem rows_kept_iff {planes : Nat} {big : Bool} {D : Nat → Dither} {s d src dst : BITMAP}
    {palette : Option (Byte → Rgb)} {conv : Nat → Converter} (hp : 0 < planes) (hp' : planes < 32)
    (hs : w_bmheader planes s = some src) (hd : w_bmheader planes d = some dst)
    (hw : s.width = d.width) (hb : s.width < 32768) (hpal : src.type = .direct8 → dst.type = .direct24 → palette.isSome)
    (hc : ∀ k, w_convertFunction big (D k) { src with palette } dst = some (conv k)) :
    RowsKept conv { src with palette } dst ↔ src.height = 0 ∨ RowsFit { src with palette } dst := by
  obtain ⟨hsh, hsw, -⟩ := headed hs
  obtain ⟨hdh, hdw, -⟩ := headed hd
  have hsh' : Headed planes { src with palette } := hsh
  apply headed_kept_iff hsh' hdh _ _ hp hp' hpal hc
  · change src.width = dst.width
    rw [hsw, hdw, hw]
  · change src.width < 32768
    rwa [hsw]

/-- Two rows of 16 pixels of two planes. -/
theorem rows_kept_iff_two : RowsKept (fun _ => packed2mono false)
    ⟨16, 2, .packedcolor, 2, 2, 2, 2, none⟩ ⟨16, 2, .packedmono, 4, 1, 1, 2, none⟩ ↔ (2 : Nat) = 0 ∨
        RowsFit ⟨16, 2, .packedcolor, 2, 2, 2, 2, none⟩ ⟨16, 2, .packedmono, 4, 1, 1, 2, none⟩ := by
  have hs : w_bmheader 2 ⟨16, 2, .packedcolor, 0, 0, 0, 2, none⟩ =
      some ⟨16, 2, .packedcolor, 2, 2, 2, 2, none⟩ := rfl
  have hd : w_bmheader 2 ⟨16, 2, .packedmono, 0, 0, 0, 2, none⟩ =
      some ⟨16, 2, .packedmono, 4, 1, 1, 2, none⟩ := rfl
  have hc (_ : Nat) : w_convertFunction false ⟨id, fun _ => 0⟩ ⟨16, 2, .packedcolor, 2, 2, 2, 2, none⟩
      ⟨16, 2, .packedmono, 4, 1, 1, 2, none⟩ = some (packed2mono false) := rfl
  exact rows_kept_iff (by decide) (by decide) hs hd rfl (by decide) (fun h => by cases h) hc

/-- The second of them is read behind the source already by the first call. -/
theorem rows_not_kept : ¬ RowsKept (fun _ => packed2mono false)
    ⟨16, 2, .packedcolor, 2, 2, 2, 2, none⟩ ⟨16, 2, .packedmono, 4, 1, 1, 2, none⟩ := by
  intro h
  obtain ⟨outs, -, hrows⟩ := h [[0, 0, 0, 0], [0, 0, 0, 0]] rfl (by decide)
  obtain ⟨out, -, hdone⟩ := hrows 0 _ rfl
  have := hdone.reads []
  cases this

end WWindowSystem
