import Mathlib.Data.List.Infix
import WWindowSystem.Wetscape.Url

namespace WWindowSystem

open List

variable {longMax : Int} {u : url_t}

theorem xstrfind_skip {a chars : List Byte} (ha : ∀ c ∈ a, c ∉ chars) (rest : List Byte) :
    xstrfind (a ++ rest) chars = xstrfind rest chars := by
  induction a with
  | nil => rfl
  | cons c a ih =>
    obtain ⟨hc, ha⟩ := forall_mem_cons.mp ha
    rw [cons_append, xstrfind, if_neg hc, ih ha]

theorem cutAt_append {a rest chars : List Byte} (ha : ∀ c ∈ a, c ∉ chars) (hrest : ∀ c ∈ rest.head?, c ∈ chars) :
    cutAt (a ++ rest) chars = (a, rest) := by
  unfold cutAt
  rw [xstrfind_skip ha]
  cases rest with
  | nil => simp [xstrfind]
  | cons c s =>
    rw [xstrfind, if_pos (hrest c rfl)]
    simp

theorem cutAt_spec (cp chars : List Byte) :
    ∃ a rest, cp = a ++ rest ∧ cutAt cp chars = (a, rest) ∧ (∀ c ∈ a, c ∉ chars) ∧ ∀ c ∈ rest.head?, c ∈ chars := by
  cases hfind : xstrfind cp chars with
  | none =>
    refine ⟨cp, [], (append_nil cp).symm, ?_, xstrfind_none hfind, by simp⟩
    rw [cutAt, hfind]
  | some next_cp =>
    obtain ⟨a, c, s, rfl, rfl, hc, ha⟩ := xstrfind_some hfind
    have hrest : ∀ d ∈ (c :: s).head?, d ∈ chars := by
      intro d hd
      cases hd
      exact hc
    exact ⟨a, c :: s, rfl, cutAt_append ha hrest, ha, hrest⟩

structure url_t.TailFormed (u : url_t) : Prop where
  path : ∀ p ∈ u.path, p.head? = some 47 ∧ ∀ c ∈ p, c ∉ cstring "?#"
  search : ∀ q ∈ u.search, ∀ c ∈ q, c ∉ cstring "#"

theorem url_parse_tail_formed (u : url_t) (cp : List Byte) : (url_parse_tail u cp).TailFormed := by
  constructor
  · intro p hp
    by_cases h : cp.head? = some 47
    · obtain ⟨a, rest, hcp, hcut, ha, hrest⟩ := cutAt_spec cp (cstring "?#")
      simp only [url_parse_tail, if_pos h, hcut] at hp
      cases hp
      refine ⟨?_, ha⟩
      cases p with
      | nil =>
        rw [hcp, nil_append] at h
        exact absurd (hrest 47 h) (by decide)
      | cons c p =>
        rw [hcp] at h
        exact h
    · simp only [url_parse_tail, if_neg h] at hp
      cases hp
  · intro q hq
    simp only [url_parse_tail] at hq
    split_ifs at hq
    all_goals
      cases hq
    all_goals
      obtain ⟨a, rest, hcp, hcut, ha, hrest⟩ := cutAt_spec (List.tail _) (cstring "#")
      rw [hcut]
      exact ha

variable (v : url_t)

theorem url_parse_tail_path {p rest : List Byte} (hp : p.head? = some 47) (hp' : ∀ c ∈ p, c ∉ cstring "?#")
    (hrest : ∀ c ∈ rest.head?, c ∈ cstring "?#") :
    url_parse_tail v (p ++ rest) = { url_parse_tail v rest with path := some p } := by
  have hhead : (p ++ rest).head? = some 47 := by rw [head?_append, hp]; rfl
  have hne : ¬ rest.head? = some 47 := fun h => absurd (hrest 47 h) (by decide)
  simp only [url_parse_tail, if_pos hhead, if_neg hne, cutAt_append hp' hrest]

theorem url_parse_tail_search {q rest : List Byte} (hq : ∀ c ∈ q, c ∉ cstring "#")
    (hrest : ∀ c ∈ rest.head?, c ∈ cstring "#") :
    url_parse_tail v (63 :: q ++ rest) = { url_parse_tail v rest with search := some q } := by
  have hpath : ¬ (63 :: q ++ rest).head? = some 47 := by
    intro h
    exact absurd (Option.some.inj h) (by decide)
  have hhead : (63 :: q ++ rest).head? = some 63 := rfl
  have htail : (63 :: q ++ rest).tail = q ++ rest := rfl
  have hne : ¬ rest.head? = some 47 := fun h => absurd (hrest 47 h) (by decide)
  have hne' : ¬ rest.head? = some 63 := fun h => absurd (hrest 63 h) (by decide)
  simp only [url_parse_tail, if_neg hpath, if_pos hhead, htail, if_neg hne, if_neg hne', cutAt_append hq hrest]

theorem url_parse_tail_frag (f : Option (List Byte)) :
    url_parse_tail v (f.elim [] (35 :: ·)) = { v with path := none, search := none, frag := f } := by
  cases f with
  | none => rfl
  | some f => rfl

theorem frag_head (f : Option (List Byte)) : ∀ c ∈ (f.elim [] (35 :: ·) : List Byte).head?, c = 35 := by
  cases f with
  | none => simp
  | some f => simp

theorem search_frag_head (q f : Option (List Byte)) :
    ∀ c ∈ (q.elim [] (63 :: ·) ++ f.elim [] (35 :: ·) : List Byte).head?, c ∈ cstring "?#" := by
  intro c hc
  cases q with
  | none =>
    rw [frag_head f c hc]
    decide
  | some q =>
    cases hc
    decide

theorem url_parse_print_tail (h : u.TailFormed) (v : url_t) :
    url_parse_tail v (url_print_tail u) = { v with path := u.path, search := u.search, frag := u.frag } := by
  have hsearch : url_parse_tail v (u.search.elim [] (63 :: ·) ++ u.frag.elim [] (35 :: ·)) =
      { v with path := none, search := u.search, frag := u.frag } := by
    cases hq : u.search with
    | none => exact url_parse_tail_frag v u.frag
    | some q =>
      have hrest : ∀ c ∈ (u.frag.elim [] (35 :: ·) : List Byte).head?, c ∈ cstring "#" := by
        intro c hc
        rw [frag_head u.frag c hc]
        decide
      exact (url_parse_tail_search v (h.search q hq) hrest).trans (by rw [url_parse_tail_frag])
  unfold url_print_tail
  rw [append_assoc]
  cases hp : u.path with
  | none => exact hsearch
  | some p =>
    obtain ⟨hhead, hchars⟩ := h.path p hp
    rw [Option.getD_some, url_parse_tail_path v hhead hchars (search_frag_head _ _), hsearch]

theorem url_print_tail_head (h : u.TailFormed) : ∀ c ∈ (url_print_tail u).head?, c ∈ cstring "/?#" := by
  intro c hc
  unfold url_print_tail at hc
  rw [append_assoc] at hc
  cases hp : u.path with
  | none =>
    rw [hp] at hc
    exact mem_cons_of_mem 47 (search_frag_head _ _ c hc)
  | some p =>
    obtain ⟨hhead, _⟩ := h.path p hp
    rw [hp, Option.getD_some, head?_append, hhead] at hc
    cases hc
    decide

variable {name : List Byte}

theorem xstrfind_colon (h58 : 58 ∉ name) (rest : List Byte) :
    xstrfind (name ++ 58 :: rest) [58] = some (58 :: rest) := by
  rw [xstrfind_skip]
  · rw [xstrfind, if_pos mem_cons_self]
  · intro c hc hmem
    rw [mem_singleton.mp hmem] at hc
    exact h58 hc

theorem urlName_colon (h58 : 58 ∉ name) (rest : List Byte) :
    urlName (name ++ 58 :: rest) = some (name.map tolower) := by
  rw [urlName, if_pos (by simp), takeWhile_append_of_pos]
  · simp
  · intro c hc
    simpa using ne_of_mem_of_not_mem hc h58

theorem handler_name : ∀ h ∈ url_handlers, 0 ∉ h.2 ∧ h.2.map tolower = h.2 := by decide

theorem find?_congr_mem {α : Type} {f g : α → Bool} {l : List α} (h : ∀ a ∈ l, f a = g a) : l.find? f = l.find? g := by
  induction l with
  | nil => rfl
  | cons a l ih =>
    obtain ⟨ha, hl⟩ := forall_mem_cons.mp h
    rw [find?_cons, find?_cons, ha, ih hl]

theorem url_select_name (h0 : 0 ∉ name) (rest : List Byte) :
    url_select (name ++ 58 :: rest) (58 :: rest) =
      url_handlers.find? fun h => h.2.take name.length = name.map tolower := by
  have hlen : (name ++ 58 :: rest).length - (58 :: rest).length = name.length := by
    rw [length_append, Nat.add_sub_cancel]
  unfold url_select
  rw [hlen]
  apply find?_congr_mem
  intro h hh
  obtain ⟨hnul, hlower⟩ := handler_name h hh
  apply decide_eq_decide.mpr
  rw [strncasecmp_eq_zero hnul (by rwa [take_left]), take_left, map_take, hlower]

theorem url_parse_name (h58 : 58 ∉ name) {rest : List Byte} {handler : UrlScheme × List Byte}
    (h : url_select (name ++ 58 :: rest) (58 :: rest) = some handler) :
    url_parse longMax (name ++ 58 :: rest) = handler.1.parse longMax (url_alloc handler.1) rest := by
  rw [url_parse, xstrfind_colon h58]
  dsimp only
  rw [h]
  rfl

theorem handlers_apart : ∀ h ∈ url_handlers, ∀ h' ∈ url_handlers, h'.2 <+: h.2 → h'.2 = h.2 := by decide

theorem url_select_iff (name : List Byte) :
    (∀ h, url_handlers.find? (fun h => h.2.take name.length = name) = some h → name = h.2) ↔
      ¬ ∃ h ∈ url_handlers, name <+: h.2 ∧ name ≠ h.2 := by
  constructor
  · rintro hall ⟨h, hh, hpre, hne⟩
    have htake : h.2.take name.length = name := (prefix_iff_eq_take.mp hpre).symm
    cases hfind : url_handlers.find? (fun h => h.2.take name.length = name) with
    | none =>
      have hnone := find?_eq_none.mp hfind h hh
      simp [htake] at hnone
    | some h' =>
      have hname := hall h' hfind
      have hh' := mem_of_find?_eq_some hfind
      rw [hname] at hpre hne
      exact hne (handlers_apart h hh h' hh' hpre)
  · intro hnone h hfind
    by_contra hne
    apply hnone
    refine ⟨h, mem_of_find?_eq_some hfind, ?_, hne⟩
    have htake := find?_some hfind
    rw [decide_eq_true_eq] at htake
    exact prefix_iff_eq_take.mpr htake.symm

structure url_t.Http (u : url_t) : Prop where
  scheme : u.scheme = .URL_HTTP
  address : ∃ a, u.address = some a ∧ ∀ c ∈ a, c ∉ cstring "/?#:"
  port : u.port ≤ 2147483647
  tail : u.TailFormed

structure url_t.File (u : url_t) : Prop where
  scheme : u.scheme = .URL_FILE
  address : ∃ a, u.address = some a ∧ ∀ c ∈ a, c ∉ cstring "/?#"
  port : u.port = 0
  tail : u.TailFormed

variable {cp : List Byte}

theorem url_parse_http_formed (h : url_parse_http longMax (url_alloc .URL_HTTP) cp = some u) : u.Http := by
  unfold url_parse_http at h
  split_ifs at h with hslash
  obtain ⟨a, rest, hcp, hcut, ha, hrest⟩ := cutAt_spec (cp.drop 2) (cstring "/?#:")
  rw [hcut] at h
  dsimp only at h
  cases h
  constructor
  · rfl
  · exact ⟨a, rfl, ha⟩
  · change (if rest.head? = some 58 then toint (strtol longMax rest.tail) else 0) ≤ 2147483647
    split_ifs
    · exact (toint_range _).2
    · decide
  · exact url_parse_tail_formed _ _

theorem url_parse_file_formed (h : url_parse_file (url_alloc .URL_FILE) cp = some u) : u.File := by
  unfold url_parse_file at h
  split_ifs at h with hslash
  · obtain ⟨a, rest, hcp, hcut, ha, hrest⟩ := cutAt_spec (cp.drop 2) (cstring "/?#")
    rw [hcut] at h
    dsimp only at h
    cases h
    constructor
    · rfl
    · exact ⟨a, rfl, ha⟩
    · rfl
    · exact url_parse_tail_formed _ _
  · cases h
    constructor
    · rfl
    · exact ⟨_, rfl, by decide⟩
    · rfl
    · exact url_parse_tail_formed _ _

theorem url_parse_print_file (h : u.File) : url_parse longMax (url_print_file u) = some u := by
  obtain ⟨a, haddress, ha⟩ := h.address
  have hfile : url_print_file u = cstring "file" ++ 58 :: (cstring "//" ++ a ++ url_print_tail u) := by
    rw [url_print_file, haddress]
    rfl
  have hselect : url_select (cstring "file" ++ 58 :: (cstring "//" ++ a ++ url_print_tail u))
      (58 :: (cstring "//" ++ a ++ url_print_tail u)) = some (.URL_FILE, cstring "file") :=
    (url_select_name (by decide) _).trans (by decide)
  have htake : (cstring "//" ++ a ++ url_print_tail u).take 2 = cstring "//" := rfl
  have hdrop : (cstring "//" ++ a ++ url_print_tail u).drop 2 = a ++ url_print_tail u := rfl
  rw [hfile, url_parse_name (by decide) hselect]
  dsimp only [UrlScheme.parse]
  rw [url_parse_file, if_pos htake, hdrop, cutAt_append ha (url_print_tail_head h.tail)]
  dsimp only
  rw [url_parse_print_tail h.tail]
  obtain ⟨scheme, address, port, path, search, frag⟩ := u
  have hscheme := h.scheme
  have hport := h.port
  dsimp only at hscheme hport haddress
  rw [hscheme, hport, haddress]
  rfl

theorem separator_no_digit : ∀ c ∈ cstring "/?#", isdigit c = false := by decide

variable (s : List Byte)

theorem take_slashes : (cstring "//" ++ s).take 2 = cstring "//" := rfl

theorem drop_slashes : (cstring "//" ++ s).drop 2 = s := rfl

variable {a t : List Byte}

theorem url_parse_http_port {longMax : Int} {v : url_t} {port : Int} (hport : 0 < port) (hmax : port ≤ 2147483647)
    (hlong : 2147483647 ≤ longMax) (ha : ∀ c ∈ a, c ∉ cstring "/?#:") (ht : ∀ c ∈ t.head?, c ∈ cstring "/?#") :
    url_parse_http longMax v (cstring "//" ++ (a ++ 58 :: (sprintf_d port ++ t))) =
      some (url_parse_tail { v with address := some a, port := port } t) := by
  obtain ⟨n, rfl⟩ := Int.eq_ofNat_of_zero_le hport.le
  have htext : sprintf_d n = decimal n := by
    rw [sprintf_d, if_neg (by omega), if_neg (by omega), Int.toNat_natCast]
  have hdigits : ∀ c ∈ decimal n, c ∉ cstring "/?#" := by
    intro c hc hmem
    have hdigit := isdigit_decimal n c hc
    rw [separator_no_digit c hmem] at hdigit
    cases hdigit
  have hnum : strtol longMax (decimal n ++ t) = n := by
    apply strtol_decimal (by omega) (by omega)
    intro c hc
    exact separator_no_digit c (ht c hc)
  have hint : toint n = n := toint_of_range (by omega) hmax
  rw [htext, url_parse_http, if_neg (not_not.mpr (take_slashes _)), drop_slashes, cutAt_append ha (by intro c hc; cases hc; decide)]
  dsimp only
  rw [if_pos head?_cons, if_pos head?_cons, tail_cons, hnum, cutAt_append hdigits ht, hint]

theorem url_parse_http_no_port {longMax : Int} {v : url_t}
    (ha : ∀ c ∈ a, c ∉ cstring "/?#:") (ht : ∀ c ∈ t.head?, c ∈ cstring "/?#") :
    url_parse_http longMax v (cstring "//" ++ (a ++ t)) = some (url_parse_tail { v with address := some a } t) := by
  have hne : ¬ t.head? = some 58 := fun h => absurd (ht 58 h) (by decide)
  have hhead : ∀ c ∈ t.head?, c ∈ cstring "/?#:" := fun c hc => mem_append_left [58] (ht c hc)
  rw [url_parse_http, if_neg (not_not.mpr (take_slashes _)), drop_slashes, cutAt_append ha hhead]
  dsimp only
  rw [if_neg hne, if_neg hne]

theorem url_parse_print_http (hlong : 2147483647 ≤ longMax) (h : u.Http) :
    url_parse longMax (url_print_http u) = some { u with port := if u.port > 0 then u.port else 0 } := by
  obtain ⟨a, haddress, ha⟩ := h.address
  have hscheme := h.scheme
  have htail := url_print_tail_head h.tail
  have hparse := url_parse_print_tail h.tail
  have hmax := h.port
  have hselect (rest : List Byte) : url_select (cstring "http" ++ 58 :: rest) (58 :: rest) = some (.URL_HTTP, cstring "http") :=
    (url_select_name (by decide) _).trans (by decide)
  unfold url_print_http
  rw [haddress, Option.getD_some]
  generalize url_print_tail u = t at htail hparse
  by_cases hport : u.port > 0
  · have htext : cstring "http://" ++ a ++ (58 :: sprintf_d u.port) ++ t =
        cstring "http" ++ 58 :: (cstring "//" ++ (a ++ 58 :: (sprintf_d u.port ++ t))) := by
      simp [cstring]
    rw [if_pos hport, if_pos hport, htext, url_parse_name (by decide) (hselect _)]
    dsimp only [UrlScheme.parse]
    rw [url_parse_http_port hport hmax hlong ha htail, hparse]
    obtain ⟨scheme, address, port, path, search, frag⟩ := u
    dsimp only at hscheme haddress
    rw [hscheme, haddress]
    rfl
  · have htext : cstring "http://" ++ a ++ [] ++ t = cstring "http" ++ 58 :: (cstring "//" ++ (a ++ t)) := by
      simp [cstring]
    rw [if_neg hport, if_neg hport, htext, url_parse_name (by decide) (hselect _)]
    dsimp only [UrlScheme.parse]
    rw [url_parse_http_no_port ha htail, hparse]
    obtain ⟨scheme, address, port, path, search, frag⟩ := u
    dsimp only at hscheme haddress
    rw [hscheme, haddress]
    rfl

theorem reprints_file (h : u.File) : Reprints longMax u := by
  have hprint : url_print u = some (url_print_file u) := by rw [url_print, h.scheme]
  exact ⟨_, u, hprint, url_parse_print_file h, rfl, hprint⟩

theorem reprints_http_iff (hlong : 2147483647 ≤ longMax) (h : u.Http) : Reprints longMax u ↔ 0 ≤ u.port := by
  have hprint : url_print u = some (url_print_http u) := by rw [url_print, h.scheme]
  have hparse := url_parse_print_http hlong h
  constructor
  · rintro ⟨text, u', htext, hu', heq, _⟩
    rw [hprint] at htext
    cases htext
    rw [hparse] at hu'
    have hport := congrArg url_t.port (Option.some.inj hu')
    rw [heq] at hport
    dsimp only at hport
    split_ifs at hport <;> omega
  · intro hport
    have hsame : (if u.port > 0 then u.port else 0) = u.port := by
      split_ifs <;> omega
    rw [hsame] at hparse
    exact ⟨_, u, hprint, hparse, rfl, hprint⟩

theorem url_parse_http_negative (longMax : Int) (v : url_t) (hv : v.port = 0) (cp : List Byte) :
    (∃ u, url_parse_http longMax v cp = some u ∧ u.port < 0) ↔
      ∃ a p, cp = cstring "//" ++ a ++ 58 :: p ∧ (∀ c ∈ a, c ∉ cstring "/?#:") ∧ toint (strtol longMax p) < 0 := by
  constructor
  · rintro ⟨u, hu, hport⟩
    unfold url_parse_http at hu
    split_ifs at hu with hslash
    obtain ⟨a, rest, hcp, hcut, ha, _⟩ := cutAt_spec (cp.drop 2) (cstring "/?#:")
    rw [hcut] at hu
    dsimp only at hu
    cases hu
    change (if rest.head? = some 58 then toint (strtol longMax rest.tail) else v.port) < 0 at hport
    split_ifs at hport with hcolon
    · obtain ⟨p, rfl⟩ := head?_eq_some_iff.mp hcolon
      refine ⟨a, p, ?_, ha, hport⟩
      rw [append_assoc, ← hcp, ← not_not.mp hslash, take_append_drop]
    · omega
  · rintro ⟨a, p, rfl, ha, hport⟩
    rw [append_assoc, url_parse_http, if_neg (not_not.mpr (take_slashes _)), drop_slashes,
      cutAt_append ha (by intro c hc; cases hc; decide)]
    exact ⟨_, rfl, hport⟩

theorem exists_colon {s : List Byte} (h : 58 ∈ s) : ∃ name rest, s = name ++ 58 :: rest ∧ 58 ∉ name := by
  cases hfind : xstrfind s [58] with
  | none => exact absurd (mem_singleton_self 58) (xstrfind_none hfind 58 h)
  | some cp2 =>
    obtain ⟨name, c, rest, rfl, rfl, hc, hname⟩ := xstrfind_some hfind
    rw [mem_singleton.mp hc]
    exact ⟨name, rest, rfl, fun hmem => hname 58 hmem (mem_singleton_self 58)⟩

theorem xstrfind_no_colon {s : List Byte} (h : 58 ∉ s) : xstrfind s [58] = none := by
  have hnot : ∀ c ∈ s, c ∉ ([58] : List Byte) := fun c hc hmem => h (by rwa [← mem_singleton.mp hmem])
  have hskip := xstrfind_skip hnot []
  rwa [append_nil] at hskip

theorem url_parse_select_iff (h58 : 58 ∉ name) (h0 : 0 ∉ name) (rest : List Byte) :
    (∀ colon_p handler, xstrfind (name ++ 58 :: rest) [58] = some colon_p →
      url_select (name ++ 58 :: rest) colon_p = some handler → urlName (name ++ 58 :: rest) = some handler.2) ↔
    ¬ ShortName (name ++ 58 :: rest) := by
  have hselect := url_select_iff (name.map tolower)
  rw [length_map] at hselect
  unfold ShortName
  rw [xstrfind_colon h58, urlName_colon h58]
  constructor
  · rintro hall ⟨h, hh, _, hname, hpre, hne⟩
    cases hname
    apply hselect.mp _ ⟨h, hh, hpre, hne⟩
    intro h' hfind
    exact Option.some.inj (hall _ h' rfl ((url_select_name h0 rest).trans hfind))
  · intro hshort colon_p handler hcolon hfind
    cases hcolon
    rw [url_select_name h0] at hfind
    refine congrArg some (hselect.mpr ?_ handler hfind)
    rintro ⟨h, hh, hpre, hne⟩
    exact hshort ⟨h, hh, _, rfl, hpre, hne⟩

theorem reprints_name_iff (hlong : 2147483647 ≤ longMax) (h58 : 58 ∉ name) (h0 : 0 ∉ name) (rest : List Byte) :
    ((urlName (name ++ 58 :: rest) = some (cstring "http") ∨ urlName (name ++ 58 :: rest) = some (cstring "file")) →
      ∀ u, url_parse longMax (name ++ 58 :: rest) = some u → Reprints longMax u) ↔
    ¬ NegativePort longMax (name ++ 58 :: rest) := by
  unfold NegativePort
  rw [urlName_colon h58]
  have hselect := url_select_name h0 rest
  by_cases hhttp : name.map tolower = cstring "http"
  · have hlen : name.length = 4 := by rw [← length_map tolower, hhttp]; rfl
    have hdrop : (name ++ 58 :: rest).drop 5 = rest := by
      rw [drop_append, hlen, drop_of_length_le (by omega)]
      rfl
    rw [hhttp, hlen] at hselect
    rw [url_parse_name h58 (hselect.trans rfl), hdrop, hhttp]
    have hnegative := url_parse_http_negative longMax (url_alloc .URL_HTTP) rfl rest
    constructor
    · rintro hall ⟨_, hform⟩
      obtain ⟨u, hu, hport⟩ := hnegative.mpr hform
      have hge := (reprints_http_iff hlong (url_parse_http_formed hu)).mp (hall (.inl rfl) u hu)
      omega
    · intro hnone _ u hu
      apply (reprints_http_iff hlong (url_parse_http_formed hu)).mpr
      by_contra hport
      exact hnone ⟨rfl, hnegative.mp ⟨u, hu, not_le.mp hport⟩⟩
  · apply iff_of_true
    · rintro (hname | hname) u hu
      · exact absurd (Option.some.inj hname) hhttp
      · have hfile := Option.some.inj hname
        have hlen : name.length = 4 := by rw [← length_map tolower, hfile]; rfl
        rw [hfile, hlen] at hselect
        rw [url_parse_name h58 (hselect.trans rfl)] at hu
        exact reprints_file (url_parse_file_formed hu)
    · rintro ⟨hname, _⟩
      exact hhttp (Option.some.inj hname)

/-- A url is read, printed and read back as expected, unless its scheme is cut short or its port is negative. -/
theorem url_parses_back (hlong : 2147483647 ≤ longMax) (s : List Byte) (h0 : 0 ∉ s) :
    ParsesBack longMax s ↔ ¬ ShortName s ∧ ¬ NegativePort longMax s := by
  by_cases h : 58 ∈ s
  · obtain ⟨name, rest, rfl, h58⟩ := exists_colon h
    have h0' : 0 ∉ name := fun hmem => h0 (List.mem_append_left _ hmem)
    exact and_congr (url_parse_select_iff h58 h0' rest) (reprints_name_iff hlong h58 h0' rest)
  · have hname : urlName s = none := if_neg h
    apply iff_of_true
    · constructor
      · intro colon_p handler hcolon
        rw [xstrfind_no_colon h] at hcolon
        cases hcolon
      · rw [hname]
        rintro (hnone | hnone)
        · cases hnone
        · cases hnone
    · constructor
      · rintro ⟨_, _, _, hsome, _⟩
        rw [hname] at hsome
        cases hsome
      · rintro ⟨hsome, _⟩
        rw [hname] at hsome
        cases hsome

theorem url_parses_back_localhost :
    ParsesBack 2147483647 (cstring "HTTP://localhost:8080/a?b#c") := by
  apply (url_parses_back (le_refl _) (cstring "HTTP://localhost:8080/a?b#c") (by decide)).mpr
  constructor
  · rintro ⟨h, hh, name, hname, hpre, hne⟩
    revert hpre hne
    cases hname
    revert h
    decide
  · rintro ⟨_, a, p, hform, ha, hport⟩
    have hrest : a ++ 58 :: p = cstring "localhost:8080/a?b#c" := (congrArg (List.drop 2) hform).symm
    have hcut : cutAt (a ++ 58 :: p) (cstring "/?#:") = (a, 58 :: p) :=
      cutAt_append ha (by intro c hc; cases hc; decide)
    rw [hrest] at hcut
    have hp : 58 :: p = cstring ":8080/a?b#c" := (congrArg Prod.snd hcut).symm.trans (by decide)
    rw [List.tail_eq_of_cons_eq hp] at hport
    exact absurd hport (by decide)

/-- The name `h` in front of the colon selects the scheme `http`. -/
theorem url_parse_short_name : ¬ ParsesBack 2147483647 (cstring "h://host/") := by
  rintro ⟨hselect, _⟩
  have hname := hselect (cstring "://host/") (.URL_HTTP, cstring "http") (by decide) (by decide)
  exact absurd hname (by decide)

end WWindowSystem
