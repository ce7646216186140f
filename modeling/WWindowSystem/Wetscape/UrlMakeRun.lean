import WWindowSystem.Wetscape.UrlReduce

namespace WWindowSystem

open List

variable {longMax : Int} {context : url_t} {cp : List Byte}

theorem slashTurn_ends (n : Nat) (strurl : List Byte) :
    ∃ slash, runLoop (slashTurn n) (strurl.length + 2) (none, xstrfind strurl [47]) = some slash ∧ True := by
  apply runLoop_spec (fun s : Option (List Byte) × Option (List Byte) => ∀ r ∈ s.2, r.head? = some 47)
    (fun s => s.2.elim 0 fun r => r.length)
  · rintro ⟨slash, cp2⟩ s' h hturn
    match cp2 with
    | none => cases hturn
    | some [] => cases hturn
    | some (c :: s) =>
      cases hturn
      have hc : c = 47 := Option.some.inj (h _ rfl)
      have hone : 1 ≤ ((c :: s).takeWhile fun c => c = 47).length := by simp [hc]
      dsimp only
      cases hfind : xstrfind ((c :: s).drop ((c :: s).takeWhile fun c => c = 47).length) [47] with
      | none =>
        refine ⟨?_, ?_⟩
        · intro r hr
          cases hr
        · simp
      | some r =>
        obtain ⟨plain, d, s', hdrop, rfl, hd, _⟩ := xstrfind_some hfind
        refine ⟨?_, ?_⟩
        · intro r hr
          cases hr
          rw [mem_singleton.mp hd]
          rfl
        · have hlen := congrArg List.length hdrop
          rw [length_drop, length_append] at hlen
          simp only [Option.elim_some, length_cons] at hlen hone ⊢
          omega
  · intros
    trivial
  · intro r hr
    cases hfind : xstrfind strurl [47] with
    | none =>
      rw [hfind] at hr
      cases hr
    | some r' =>
      obtain ⟨_, d, s', _, rfl, hd, _⟩ := xstrfind_some hfind
      rw [hfind] at hr
      cases hr
      rw [mem_singleton.mp hd]
      rfl
  · dsimp only
    cases hfind : xstrfind strurl [47] with
    | none => simp
    | some r =>
      obtain ⟨plain, d, s', hs, rfl, _, _⟩ := xstrfind_some hfind
      rw [hs]
      simp
      omega

theorem url_slash_ends (strurl cp : List Byte) : ∃ slash, url_slash strurl cp = some slash := by
  unfold url_slash
  split_ifs
  · obtain ⟨slash, hslash, _⟩ := slashTurn_ends (cp.takeWhile fun c => c = 47).length strurl
    exact ⟨slash, hslash⟩
  · exact ⟨_, rfl⟩

def Parsed (u : url_t) : Prop := u.Http ∨ u.File

theorem url_parse_parsed {s : List Byte} (h : url_parse longMax s = some context)
    (hscheme : context.scheme = .URL_HTTP ∨ context.scheme = .URL_FILE) : Parsed context := by
  unfold url_parse at h
  cases hfind : xstrfind s [58] with
  | none =>
    rw [hfind] at h
    cases h
  | some colon_p =>
    rw [hfind] at h
    dsimp only at h
    cases hselect : url_select s colon_p with
    | none =>
      rw [hselect] at h
      cases h
    | some handler =>
      rw [hselect] at h
      obtain ⟨scheme, name⟩ := handler
      cases scheme with
      | URL_HTTP => exact .inl (url_parse_http_formed h)
      | URL_FILE => exact .inr (url_parse_file_formed h)
      | URL_FTP =>
        cases h
        rcases hscheme with hscheme | hscheme
        · cases hscheme
        · cases hscheme

theorem decimal_slash (n : Nat) : 47 ∉ decimal n := by
  intro h
  exact absurd (isdigit_decimal n 47 h) (by decide)

theorem parsed_front (h : Parsed context) : FrontFormed (urlFront context) := by
  rcases h with h | h
  · obtain ⟨a, haddress, ha⟩ := h.address
    have ha' : 47 ∉ a := fun hmem => ha 47 hmem (by decide)
    refine ⟨cstring "http", a ++ if context.port > 0 then 58 :: sprintf_d context.port else [], ?_, by decide, ?_⟩
    · rw [urlFront, h.scheme, haddress]
      simp [cstring]
    · intro hmem
      rcases mem_append.mp hmem with hmem | hmem
      · exact ha' hmem
      · split_ifs at hmem with hport
        · rw [sprintf_d, if_neg (by omega), if_neg (by omega)] at hmem
          rcases mem_cons.mp hmem with hmem | hmem
          · exact absurd hmem (by decide)
          · exact decimal_slash _ hmem
        · cases hmem
  · obtain ⟨a, haddress, ha⟩ := h.address
    refine ⟨cstring "file", a, ?_, by decide, fun hmem => ha 47 hmem (by decide)⟩
    rw [urlFront, h.scheme, haddress]
    simp [cstring]

theorem url_parse_tail_path_part {v : url_t} {t p : List Byte} (h : (url_parse_tail v t).path = some p) : p <:+: t := by
  simp only [url_parse_tail] at h
  split_ifs at h
  obtain ⟨a, rest, ht, hcut, _, _⟩ := cutAt_spec t (cstring "?#")
  rw [hcut] at h
  cases h
  rw [ht]
  exact (prefix_append _ _).isInfix

theorem url_parse_front (hlong : 2147483647 ≤ longMax) (h : Parsed context) (hport : 0 ≤ context.port) {t : List Byte}
    (ht : ∀ c ∈ t.head?, c ∈ cstring "/?#") :
    ∃ v : url_t, v.scheme = context.scheme ∧ v.address = context.address ∧ v.port = context.port ∧
      url_parse longMax (urlFront context ++ t) = some (url_parse_tail v t) := by
  rcases h with h | h
  · obtain ⟨a, haddress, ha⟩ := h.address
    have hselect (rest : List Byte) : url_select (cstring "http" ++ 58 :: rest) (58 :: rest) = some (.URL_HTTP, cstring "http") :=
      (url_select_name (by decide) _).trans (by decide)
    refine ⟨{ url_alloc .URL_HTTP with address := some a, port := context.port }, h.scheme.symm, haddress.symm, rfl, ?_⟩
    rw [urlFront, h.scheme, haddress]
    dsimp only
    by_cases hpos : context.port > 0
    · have htext : cstring "http://" ++ (some a).getD [] ++ (if context.port > 0 then 58 :: sprintf_d context.port else []) ++ t =
          cstring "http" ++ 58 :: (cstring "//" ++ (a ++ 58 :: (sprintf_d context.port ++ t))) := by
        rw [if_pos hpos]
        simp [cstring]
      rw [htext, url_parse_name (by decide) (hselect _)]
      exact url_parse_http_port hpos h.port hlong ha ht
    · have htext : cstring "http://" ++ (some a).getD [] ++ (if context.port > 0 then 58 :: sprintf_d context.port else []) ++ t =
          cstring "http" ++ 58 :: (cstring "//" ++ (a ++ t)) := by
        rw [if_neg hpos]
        simp [cstring]
      have hzero : context.port = 0 := by omega
      rw [htext, url_parse_name (by decide) (hselect _), hzero]
      exact url_parse_http_no_port ha ht
  · obtain ⟨a, haddress, ha⟩ := h.address
    have hselect (rest : List Byte) : url_select (cstring "file" ++ 58 :: rest) (58 :: rest) = some (.URL_FILE, cstring "file") :=
      (url_select_name (by decide) _).trans (by decide)
    have htext : cstring "file://" ++ (some a).getD [] ++ t = cstring "file" ++ 58 :: (cstring "//" ++ (a ++ t)) := by simp [cstring]
    refine ⟨{ url_alloc .URL_FILE with address := some a }, h.scheme.symm, haddress.symm, h.port.symm, ?_⟩
    rw [urlFront, h.scheme, haddress]
    dsimp only
    rw [htext, url_parse_name (by decide) (hselect _)]
    dsimp only [UrlScheme.parse]
    rw [url_parse_file, if_pos (take_slashes _), drop_slashes, cutAt_append ha ht]

theorem parsed_print (h : Parsed context) : ∃ text, url_print context = some text := by
  rcases h with h | h
  · exact ⟨_, by rw [url_print, h.scheme]⟩
  · exact ⟨_, by rw [url_print, h.scheme]⟩

/-- A reference that stays behind the address is resolved within the buffer. -/
theorem url_make_within (hlong : 2147483647 ≤ longMax) (junk s cp : List Byte) (context : url_t)
    (h : url_parse longMax s = some context) (hscheme : context.scheme = .URL_HTTP ∨ context.scheme = .URL_FILE)
    (hpart : url_ispart cp = true) (hres : Resolvable context cp) : MakesWithin longMax junk context cp := by
  have hparsed := url_parse_parsed h hscheme
  unfold MakesWithin url_make
  dsimp only
  rw [if_neg (by rw [hpart]; decide)]
  unfold Resolvable at hres
  by_cases hfrag : cp.head? = some 35
  · rw [if_pos hfrag] at hres ⊢
    refine ⟨_, _, rfl, by simp, ?_⟩
    intro u hu
    cases hu
    exact ⟨rfl, rfl, rfl, hres⟩
  rw [if_neg hfrag] at hres ⊢
  obtain ⟨hfits, hjoined⟩ := hres
  obtain ⟨text, htext⟩ := parsed_print hparsed
  have hroom := hfits text htext
  have hinside : ∀ a ∈ strurlWrites 0 text, a.Inside := strurlWrites_inside (by omega)
  obtain ⟨slash, hslash⟩ := url_slash_ends text cp
  rw [htext]
  dsimp only [Option.getD_some]
  rw [hslash]
  cases slash with
  | none => exact ⟨_, _, rfl, hinside, by rintro u hu; cases hu⟩
  | some slash =>
    obtain ⟨hport, hlen, t, hcut, hfollows⟩ := hjoined (text.take (text.length - slash.length) ++ cp) (by
      rw [urlJoined, htext]
      dsimp only [Option.bind_eq_bind, Option.bind_some]
      rw [hslash]
      rfl)
    have hinside' : ∀ a ∈ strurlWrites (text.take (text.length - slash.length)).length cp ++ strurlWrites 0 text, a.Inside := by
      intro a ha
      rcases List.mem_append.mp ha with ha | ha
      · exact strurlWrites_inside (by rwa [List.length_append] at hlen) a ha
      · exact hinside a ha
    have hreduce := url_reduce_follows (parsed_front hparsed) hinside' (by rwa [hcut] at hlen) hfollows
    obtain ⟨t', touched', hrun, hinside'', hfollows', hclean⟩ := hreduce
    obtain ⟨v, hvscheme, hvaddress, hvport, hv⟩ := url_parse_front hlong hparsed hport hfollows'.head
    dsimp only
    rw [hcut, hrun]
    refine ⟨_, _, rfl, hinside'', ?_⟩
    intro u hu
    rw [hv] at hu
    cases hu
    refine ⟨hvscheme, hvaddress, hvport, ?_⟩
    intro p hp
    exact hclean.part ((url_parse_tail_path_part hp).trans (List.suffix_append _ _).isInfix)

theorem url_make_within_up :
    MakesWithin 2147483647 [] ⟨.URL_HTTP, some (cstring "host"), 0, some (cstring "/a/b"), none, none⟩ (cstring "../c") := by
  apply url_make_within (le_refl _) [] (cstring "http://host/a/b") (cstring "../c") _ (by decide +kernel) (.inl rfl) (by decide)
  refine ⟨?_, ?_⟩
  · intro text htext
    cases htext
    decide
  · intro joined hjoined
    have hjoin : joined = cstring "http://host" ++ cstring "/a/../c" := Option.some.inj (hjoined.symm.trans (by decide +kernel))
    refine ⟨by decide, by rw [hjoin]; decide, cstring "/a/../c", hjoin, ?_⟩
    constructor
    · decide
    · apply WithinRoot.slash rfl (by decide) (by decide)
      apply WithinRoot.char rfl (by decide)
      apply WithinRoot.up rfl rfl
      apply WithinRoot.slash rfl (by decide) (by decide)
      apply WithinRoot.char rfl (by decide)
      exact .done rfl
    · intro _
      decide

/-- The segments in front of `/../` run out, and the host is taken away. -/
theorem url_make_takes_host :
    url_parse 2147483647 (cstring "http://host/a") = some ⟨.URL_HTTP, some (cstring "host"), 0, some (cstring "/a"), none, none⟩ ∧
      url_ispart (cstring "../x") = true ∧
      ¬ MakesWithin 2147483647 [] ⟨.URL_HTTP, some (cstring "host"), 0, some (cstring "/a"), none, none⟩ (cstring "../x") := by
  refine ⟨by decide +kernel, by decide, ?_⟩
  rintro ⟨r, touched, hmake, _, hkept⟩
  have hrun : (url_make 2147483647 [] (some ⟨.URL_HTTP, some (cstring "host"), 0, some (cstring "/a"), none, none⟩)
      (cstring "../x")).map Prod.fst = some (some ⟨.URL_HTTP, some (cstring "x"), 0, none, none, none⟩) := by decide +kernel
  rw [hmake] at hrun
  obtain ⟨_, haddress, _⟩ := hkept _ (Option.some.inj hrun)
  exact absurd haddress (by decide)

end WWindowSystem
