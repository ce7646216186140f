import WWindowSystem.Lib.Convert
import WWindowSystem.Server.ColorCounts

namespace WWindowSystem.Palette

open List Function Option

/-- What the color calls for a window see: the colors of the server, the window's table there, and the
library's count of the window's colors. -/
structure ColorState where
  C : Colors
  tab : Nat
  colors : Int

def w_allocColor (win : Nat) (s : ColorState) (c : Rgb) : Int × ColorState :=
  let r := colorAllocColor s.C win s.tab c.red.toNat c.green.toNat c.blue.toNat
  (r.1, ⟨r.2.1, r.2.2, if r.1 ≥ 0 then short (s.colors + 1) else s.colors⟩)

def w_freeColor (win : Nat) (s : ColorState) (color : Int) : ColorState :=
  let r := colorFreeColor s.C win s.tab color
  ⟨r.2.1, r.2.2, if r.1 > 0 then short (s.colors - r.1) else s.colors⟩

def w_changeColor (win : Nat) (s : ColorState) (color : Int) (c : Rgb) : Int × ColorState :=
  let r := colorChangeColor s.C win s.tab color c.red.toNat c.green.toNat c.blue.toNat
  (0, { s with C := r.2.1, tab := r.2.2 })

/-- The colors that `w_allocMap` gives back before it allocates. The root window has handle 0. -/
def makeRoom (win planes : Nat) (sharedcolors : Int) (mapcolors : Nat) (mapped : Bool) (s : ColorState) : ColorState :=
  if win = 0 then w_freeColor win s (-1)
  else
    let colors : Int := mapcolors - 2 ^ planes
    let s := if !mapped && colors + s.colors > 0 then w_freeColor win s (-1) else s
    (List.range (colors + sharedcolors).toNat).foldl (fun s (i : Nat) => w_freeColor win s (sharedcolors - 1 - i)) s

/-- A run of `w_allocMap`: `ok` tells whether its `w_allocColor` calls all succeeded so far. -/
structure Mapping where
  st : ColorState
  map : List Byte
  last : Int := 0
  ok : Bool := true

def Mapping.put (m : Mapping) (k : Nat) (id : Int) : Option Mapping :=
  if k < m.map.length then
    some (if id ≥ 0 then { m with map := m.map.set k (BitVec.ofInt 8 id), last := id }
      else { m with map := m.map.set k (BitVec.ofInt 8 m.last) })
  else none

def changeLoop (win : Nat) (rgb : List Rgb) : Nat → Nat → Mapping → Option Mapping
  | 0, _, m => some m
  | n + 1, k, m => do
    let c ← rgb[k]?
    let old ← m.map[k]?
    let r := w_changeColor win m.st old.toNat c
    let m ← { m with st := r.2 }.put k r.1
    changeLoop win rgb n (k + 1) m

def allocLoop (win : Nat) (rgb : List Rgb) : Nat → Nat → Mapping → Option Mapping
  | 0, _, m => some m
  | n + 1, k, m => do
    let c ← rgb[k]?
    let r := w_allocColor win m.st c
    let m ← { m with st := r.2, ok := m.ok && decide (r.1 ≥ 0) }.put k r.1
    allocLoop win rgb n (k + 1) m

/-- `some none` is NULL. The palette is all of `rgb`, and `garbage` is the memory that `malloc` returns.
The counter of the first loop has gone past `win->colors` when the second one takes it over. -/
def w_allocMap (win planes : Nat) (sharedcolors : Int) (rgb : List Rgb) (colmap : Option (List Byte)) (garbage : List Byte)
    (s : ColorState) : Option (Option Mapping) :=
  if rgb = [] ∨ rgb.length > 2 ^ planes then some none
  else
    let s := makeRoom win planes sharedcolors rgb.length colmap.isSome s
    match colmap with
    | some map => (do
        let m ← changeLoop win rgb s.colors.toNat 0 { st := s, map }
        allocLoop win rgb (rgb.length - (s.colors.toNat + 1)) s.colors.toNat m).map some
    | none => (allocLoop win rgb rgb.length 0 { st := s, map := garbage }).map some

def MapsPalette (rgb : List Rgb) (r : Option (Option Mapping)) : Prop :=
  ∃ ret, r = some ret ∧ ∀ m ∈ ret, m.ok = true → ∀ i c, rgb[i]? = some c →
    colorGetColor m.st.C m.st.tab (m.map.getD i 0).toNat = some (c.red.toNat, c.green.toNat, c.blue.toNat)

variable {win : Nat} {s : ColorState}

theorem w_freeColor_count (color : Int) : (w_freeColor win s color).C.colorCount = s.C.colorCount := by
  unfold w_freeColor
  rcases colorFreeColor_cases s.C win s.tab color with ⟨code, h⟩ | ⟨-, -, h⟩ | ⟨-, -, -, h⟩
  · rw [h]
  · rw [h]
    exact (writeTable_counts _ _ _ _).2.1
  · rw [h]
    exact (writeTable_counts s.C win s.tab (.free color.toNat)).2.1

theorem makeRoom_count (planes : Nat) (sharedcolors : Int) (mapcolors : Nat) (mapped : Bool) :
    (makeRoom win planes sharedcolors mapcolors mapped s).C.colorCount = s.C.colorCount := by
  have hfold : ∀ (l : List Nat) (s : ColorState),
      (l.foldl (fun s (i : Nat) => w_freeColor win s (sharedcolors - 1 - i)) s).C.colorCount = s.C.colorCount := by
    intro l
    induction l with
    | nil => exact fun _ => rfl
    | cons i l ih => exact fun s => (ih _).trans (w_freeColor_count _)
  unfold makeRoom
  dsimp only
  rw [apply_ite (fun s : ColorState => s.C.colorCount), hfold, w_freeColor_count]
  split_ifs
  · rfl
  · exact w_freeColor_count _
  · rfl

theorem w_allocColor_count (c : Rgb) : (w_allocColor win s c).2.C.colorCount = s.C.colorCount := by
  unfold w_allocColor
  rcases colorAllocColor_cases s.C win s.tab c.red.toNat c.green.toNat c.blue.toNat with he | ⟨index, -, -, -, he⟩
  · rw [he]
  · rw [he]
    exact (writeTable_counts s.C win s.tab (.alloc index c.red.toNat c.green.toNat c.blue.toNat)).2.1

theorem w_allocColor_spec (c : Rgb) (h : 0 ≤ (w_allocColor win s c).1) :
    ∃ index : Nat, (w_allocColor win s c).1 = index ∧ index < s.C.colorCount ∧
      (w_allocColor win s c).2.C.Owns win (w_allocColor win s c).2.tab ∧
      colorGetColor (w_allocColor win s c).2.C (w_allocColor win s c).2.tab index =
        some (c.red.toNat, c.green.toNat, c.blue.toNat) ∧
      (s.C.Owns win s.tab → ∀ (j : Nat) v, colorGetColor s.C s.tab j = some v →
        colorGetColor (w_allocColor win s c).2.C (w_allocColor win s c).2.tab j = some v) := by
  unfold w_allocColor at h ⊢
  rcases colorAllocColor_cases s.C win s.tab c.red.toNat c.green.toNat c.blue.toNat with he | ⟨index, hi, hu, -, he⟩
  · rw [he] at h
    exact absurd (show (0 : Int) ≤ -1 from h) (by decide)
  · obtain ⟨-, hcount, -⟩ := writeTable_counts s.C win s.tab (.alloc index c.red.toNat c.green.toNat c.blue.toNat)
    obtain ⟨hwin, hused, -⟩ := privateTable_spec s.C win s.tab
    have htab := writeTable_tables s.C win s.tab (.alloc index c.red.toNat c.green.toNat c.blue.toNat)
    have hmod : ∀ b : Byte, b.toNat % 256 = b.toNat := fun b => Nat.mod_eq_of_lt b.isLt
    rw [he]
    dsimp only
    refine ⟨index, rfl, hi, ?_, ?_, ?_⟩
    · rw [Colors.Owns, Colors.addRef, htab, update_self]
      exact hwin
    · simp only [colorGetColor, Colors.addRef, htab, hcount, update_self, ColorTable.alloc, ColorTable.setColor,
        TSTBIT_SETBIT, hmod, Int.toNat_natCast]
      rw [if_neg (by omega)]
      simp
    · intro hown j v hv
      have hprivate : privateTable s.C win s.tab = s.C.tables s.tab := by
        rw [privateTable, ownTable_owned hown]
      simp only [colorGetColor, Int.toNat_natCast] at hv
      split_ifs at hv with hr hj
      have hj : TSTBIT (s.C.tables s.tab).used j = true := by simpa using hj
      have hne : j ≠ index := by
        rintro rfl
        simp [hu] at hj
      simp only [colorGetColor, Colors.addRef, htab, hcount, update_self, ColorTable.alloc, ColorTable.setColor,
        TSTBIT_SETBIT, Int.toNat_natCast, hprivate]
      rw [if_neg hr, if_neg (by simp [hj]), update_of_ne hne, update_of_ne hne,
        update_of_ne hne, hv]

structure Entries (win : Nat) (rgb : List Rgb) (k : Nat) (m : Mapping) : Prop where
  count : m.st.C.colorCount ≤ 256
  room : rgb.length ≤ m.map.length
  owns : m.ok = true → 0 < k → m.st.C.Owns win m.st.tab
  colors : m.ok = true → ∀ i < k, ∀ c, rgb[i]? = some c →
    colorGetColor m.st.C m.st.tab (m.map.getD i 0).toNat = some (c.red.toNat, c.green.toNat, c.blue.toNat)

variable {rgb : List Rgb}

variable {n k : Nat}

theorem allocLoop_entries (hk : k + n = rgb.length) {m : Mapping} (h : Entries win rgb k m) :
    ∃ m', allocLoop win rgb n k m = some m' ∧ Entries win rgb rgb.length m' := by
  induction n generalizing k m with
  | zero =>
    obtain rfl : k = rgb.length := by omega
    exact ⟨m, rfl, h⟩
  | succ n ih =>
    have hlt : k < rgb.length := by omega
    have hroom : k < m.map.length := lt_of_lt_of_le hlt h.room
    have hc : rgb[k]? = some rgb[k] := getElem?_eq_getElem hlt
    simp only [allocLoop, hc, bind_eq_bind, bind_some, Mapping.put, if_pos hroom]
    have hcount := @w_allocColor_count win m.st rgb[k]
    apply ih (by omega)
    by_cases hid : 0 ≤ (w_allocColor win m.st rgb[k]).1
    · obtain ⟨index, he, hi, howns, hget, hkeep⟩ := w_allocColor_spec rgb[k] hid
      have hbyte : (BitVec.ofInt 8 (index : Int)).toNat = index := by
        have := h.count
        rw [BitVec.toNat_ofInt]
        omega
      rw [if_pos hid]
      refine ⟨hcount.trans_le h.count, by simpa using h.room, fun _ _ => howns, fun hok i hik c hic => ?_⟩
      have hok : m.ok = true := by simp_all
      rw [he, getD_eq_getElem?_getD]
      by_cases hik' : i = k
      · subst hik'
        obtain rfl := Option.some.inj (hc.symm.trans hic)
        rw [getElem?_set_self hroom, getD_some, hbyte]
        exact hget
      · have hlt : i < k := by omega
        rw [getElem?_set_ne (Ne.symm hik'), ← getD_eq_getElem?_getD]
        exact hkeep (h.owns hok (by omega)) _ _ (h.colors hok i hlt c hic)
    · rw [if_neg hid]
      have hfalse : (m.ok && decide ((w_allocColor win m.st rgb[k]).1 ≥ 0)) = false := by
        simp [hid]
      exact ⟨hcount.trans_le h.count, by simpa using h.room, fun hok => by simp [hfalse] at hok,
        fun hok => by simp [hfalse] at hok⟩

theorem changeLoop_outside (hn : rgb.length < k + n) (hk : k ≤ rgb.length) (m : Mapping) :
    changeLoop win rgb n k m = none := by
  induction n generalizing k m with
  | zero => omega
  | succ n ih =>
    rw [changeLoop]
    cases hc : rgb[k]? with
    | none => rfl
    | some c =>
      obtain ⟨hlt, -⟩ := List.getElem?_eq_some_iff.mp hc
      cases hold : m.map[k]? with
      | none => simp
      | some old =>
        simp only [bind_eq_bind, bind_some]
        cases Mapping.put { m with st := (w_changeColor win m.st old.toNat c).2 } k (w_changeColor win m.st old.toNat c).1 with
        | none => rfl
        | some m' => exact ih (by omega) (by omega) m'

variable {m m' : Mapping}

theorem put_map {k : Nat} {id : Int} (h : m.put k id = some m') :
    (∀ i, i ≠ k → m'.map[i]? = m.map[i]?) ∧ (id = 0 → m'.map[k]? = some 0) := by
  unfold Mapping.put at h
  split_ifs at h with hk hid
  · cases h
    refine ⟨fun i hi => getElem?_set_ne (Ne.symm hi), ?_⟩
    rintro rfl
    exact getElem?_set_self hk
  · cases h
    exact ⟨fun i hi => getElem?_set_ne (Ne.symm hi), fun h0 => absurd h0.ge hid⟩

theorem changeLoop_zero (h : changeLoop win rgb n k m = some m') :
    (∀ i < k, m'.map[i]? = m.map[i]?) ∧ ∀ i, k ≤ i → i < k + n → m'.map[i]? = some 0 := by
  induction n generalizing k m with
  | zero =>
    cases h
    exact ⟨fun _ _ => rfl, fun i h1 h2 => by omega⟩
  | succ n ih =>
    simp only [changeLoop, bind_eq_bind, bind_eq_some_iff] at h
    obtain ⟨c, -, old, -, m₁, hput, h⟩ := h
    obtain ⟨hbelow, hzero⟩ := ih h
    obtain ⟨hother, hself⟩ := put_map hput
    refine ⟨fun i hi => (hbelow i (by omega)).trans (hother i (by omega)), fun i h1 h2 => ?_⟩
    by_cases hik : i = k
    · subst hik
      exact (hbelow i (by omega)).trans (hself rfl)
    · exact hzero i (by omega) (by omega)

theorem allocLoop_below (h : allocLoop win rgb n k m = some m') :
    ∀ i < k, m'.map[i]? = m.map[i]? := by
  induction n generalizing k m with
  | zero =>
    cases h
    exact fun _ _ => rfl
  | succ n ih =>
    simp only [allocLoop, bind_eq_bind, bind_eq_some_iff] at h
    obtain ⟨c, -, m₁, hput, h⟩ := h
    exact fun i hi => (ih h i (by omega)).trans ((put_map hput).1 i (by omega))

/-- Without a map the palette comes out right. With one and more colors in the window's count than in the
palette, the first loop reads on behind the palette; and from two colors in the count on, the first two of the
palette get the same entry. -/
theorem w_allocMap_exact (win planes : Nat) (sharedcolors : Int) (rgb : List Rgb) (colmap : Option (List Byte))
    (garbage : List Byte) (s : ColorState) (hplanes : s.C.colorCount = 2 ^ planes) (hcount : s.C.colorCount ≤ 256)
    (hn : rgb ≠ []) (hlen : rgb.length ≤ s.C.colorCount) (hmap : garbage.length = 256) :
    (colmap = none → MapsPalette rgb (w_allocMap win planes sharedcolors rgb colmap garbage s)) ∧
    ∀ map, colmap = some map → (rgb.length < (makeRoom win planes sharedcolors rgb.length true s).colors →
        ¬ MapsPalette rgb (w_allocMap win planes sharedcolors rgb colmap garbage s)) ∧
      (2 ≤ (makeRoom win planes sharedcolors rgb.length true s).colors → ∀ a b, rgb[0]? = some a → rgb[1]? = some b → a ≠ b →
        ∀ m, w_allocMap win planes sharedcolors rgb colmap garbage s = some (some m) → m.ok = true →
          ¬ MapsPalette rgb (w_allocMap win planes sharedcolors rgb colmap garbage s)) := by
  have hpass : ¬ (rgb = [] ∨ rgb.length > 2 ^ planes) := by
    rw [not_or, ← hplanes]
    exact ⟨hn, Nat.not_lt.mpr hlen⟩
  constructor
  · rintro rfl
    have hstart : Entries win rgb 0
        { st := makeRoom win planes sharedcolors rgb.length false s, map := garbage } :=
      ⟨(makeRoom_count planes sharedcolors rgb.length false).trans_le hcount, by
        rw [hmap]
        exact hlen.trans hcount, fun _ h => absurd h (Nat.lt_irrefl 0), fun _ i hi => absurd hi (Nat.not_lt_zero i)⟩
    obtain ⟨m, hrun, hm⟩ := allocLoop_entries (Nat.zero_add _) hstart
    refine ⟨some m, ?_, ?_⟩
    · rw [w_allocMap, if_neg hpass]
      exact congrArg (Option.map some) hrun
    · intro m' hm' hok i c hic
      obtain rfl := Option.some.inj hm'
      exact hm.colors hok i (List.getElem?_eq_some_iff.mp hic).1 c hic
  · rintro map rfl
    constructor
    · rintro hown ⟨ret, hret, -⟩
      rw [w_allocMap, if_neg hpass] at hret
      dsimp only [Option.isSome_some] at hret
      rw [changeLoop_outside (by omega) (Nat.zero_le _)] at hret
      cases hret
    · rintro hown a b ha hb hab m hm hok ⟨ret, hret, hright⟩
      obtain rfl := Option.some.inj (hret.symm.trans hm)
      have hcolors := hright m rfl hok
      rw [w_allocMap, if_neg hpass] at hm
      simp only [Option.isSome_some, Option.bind_eq_bind, Option.map_eq_some_iff, Option.bind_eq_some_iff,
        Option.some.injEq, exists_eq_right] at hm
      obtain ⟨m₁, hchange, halloc⟩ := hm
      have hentry : ∀ i < 2, m.map.getD i 0 = 0 := by
        intro i hi
        rw [List.getD_eq_getElem?_getD, allocLoop_below halloc i (by omega),
          (changeLoop_zero hchange).2 i (Nat.zero_le i) (by omega), Option.getD_some]
      -- one entry cannot have both colors
      have h0 := hcolors 0 a ha
      have h1 := hcolors 1 b hb
      rw [hentry 0 (by decide)] at h0
      rw [hentry 1 (by decide), h0] at h1
      obtain ⟨ra, ga, ba⟩ := a
      obtain ⟨rb, gb, bb⟩ := b
      simp only [Option.some.injEq, Prod.mk.injEq, BitVec.toNat_inj] at h1
      obtain ⟨rfl, rfl, rfl⟩ := h1
      exact hab rfl

def twoGrays : List Rgb := [⟨1, 1, 1⟩, ⟨2, 2, 2⟩]

def firstMapping : Option (Option Mapping) :=
  w_allocMap 2 2 2 twoGrays none (List.replicate 256 0) ⟨fourColors, 0, 2⟩

theorem w_allocMap_exact_grays : MapsPalette twoGrays firstMapping :=
  (w_allocMap_exact 2 2 2 twoGrays none (List.replicate 256 0) ⟨fourColors, 0, 2⟩ (by decide) (by decide) (by simp [twoGrays])
    (by decide) List.length_replicate).1 rfl

/-- With the map of the first call the second one leaves the palette. -/
theorem w_allocMap_remap_outside : firstMapping.join.map Mapping.ok = some true ∧
    ∀ m ∈ firstMapping.join, ¬ MapsPalette twoGrays (w_allocMap 2 2 2 twoGrays (some m.map) [] m.st) := by
  refine ⟨by decide +kernel, fun m hm => ?_⟩
  rintro ⟨ret, hret, -⟩
  have hnone : (firstMapping.join.bind fun m => w_allocMap 2 2 2 twoGrays (some m.map) [] m.st).isNone = true := by
    decide +kernel
  rw [Option.mem_def.mp hm, Option.bind_some, hret] at hnone
  cases hnone

end WWindowSystem.Palette
