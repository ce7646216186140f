import WWindowSystem.Library.Loops
import WWindowSystem.Wetscape.Io

namespace WWindowSystem

inductive UrlScheme where
  | URL_HTTP
  | URL_FILE
  | URL_FTP
  deriving DecidableEq

structure url_t where
  scheme : UrlScheme
  address : Option (List Byte)
  port : Int
  path : Option (List Byte)
  search : Option (List Byte)
  frag : Option (List Byte)
  deriving DecidableEq

def url_handlers : List (UrlScheme × List Byte) :=
  [(.URL_HTTP, cstring "http"), (.URL_FILE, cstring "file"), (.URL_FTP, cstring "ftp")]

def cutAt (cp chars : List Byte) : List Byte × List Byte :=
  match xstrfind cp chars with
  | none => (cp, [])
  | some next_cp => (cp.take (cp.length - next_cp.length), next_cp)

def url_parse_tail (url : url_t) (cp : List Byte) : url_t :=
  let path := if cp.head? = some 47 then some (cutAt cp (cstring "?#")).1 else none
  let cp := if cp.head? = some 47 then (cutAt cp (cstring "?#")).2 else cp
  let search := if cp.head? = some 63 then some (cutAt cp.tail (cstring "#")).1 else none
  let cp := if cp.head? = some 63 then (cutAt cp.tail (cstring "#")).2 else cp
  let frag := if cp.head? = some 35 then some cp.tail else none
  { url with path := path, search := search, frag := frag }

def url_alloc (scheme : UrlScheme) : url_t := ⟨scheme, none, 0, none, none, none⟩

def url_parse_file (url : url_t) (cp : List Byte) : Option url_t :=
  if cp.take 2 = cstring "//" then
    let (address, cp) := cutAt (cp.drop 2) (cstring "/?#")
    some (url_parse_tail { url with address := some address } cp)
  else some (url_parse_tail { url with address := some (cstring "localhost") } cp)

def url_parse_http (longMax : Int) (url : url_t) (cp : List Byte) : Option url_t :=
  if cp.take 2 ≠ cstring "//" then none
  else
    let (address, cp) := cutAt (cp.drop 2) (cstring "/?#:")
    let port := if cp.head? = some 58 then toint (strtol longMax cp.tail) else url.port
    let cp := if cp.head? = some 58 then (cutAt cp.tail (cstring "/?#")).2 else cp
    some (url_parse_tail { url with address := some address, port := port } cp)

def url_parse_ftp (url : url_t) (_cp : List Byte) : Option url_t := some url

def url_select (cp colon_p : List Byte) : Option (UrlScheme × List Byte) :=
  url_handlers.find? fun handler => strncasecmp handler.2 cp (cp.length - colon_p.length) = 0

def UrlScheme.parse (longMax : Int) : UrlScheme → url_t → List Byte → Option url_t
  | .URL_HTTP => url_parse_http longMax
  | .URL_FILE => url_parse_file
  | .URL_FTP => url_parse_ftp

def url_parse (longMax : Int) (cp : List Byte) : Option url_t :=
  match xstrfind cp [58] with
  | none => none
  | some colon_p =>
    match url_select cp colon_p with
    | none => none
    | some handler => handler.1.parse longMax (url_alloc handler.1) colon_p.tail

def sprintf_d (n : Int) : List Byte :=
  if n < 0 then 45 :: decimal n.natAbs else if n = 0 then [48] else decimal n.toNat

def url_print_tail (url : url_t) : List Byte :=
  url.path.getD [] ++ url.search.elim [] (63 :: ·) ++ url.frag.elim [] (35 :: ·)

def url_print_file (url : url_t) : List Byte := cstring "file://" ++ url.address.getD [] ++ url_print_tail url

def url_print_http (url : url_t) : List Byte :=
  cstring "http://" ++ url.address.getD [] ++ (if url.port > 0 then 58 :: sprintf_d url.port else []) ++ url_print_tail url

def url_print (url : url_t) : Option (List Byte) :=
  match url.scheme with
  | .URL_HTTP => some (url_print_http url)
  | .URL_FILE => some (url_print_file url)
  | .URL_FTP => none

def Reprints (longMax : Int) (u : url_t) : Prop :=
  ∃ text u', url_print u = some text ∧ url_parse longMax text = some u' ∧ u' = u ∧ url_print u' = some text

def urlName (s : List Byte) : Option (List Byte) :=
  if 58 ∈ s then some ((s.takeWhile fun c => c ≠ 58).map tolower) else none

def ParsesBack (longMax : Int) (s : List Byte) : Prop :=
  (∀ colon_p handler, xstrfind s [58] = some colon_p → url_select s colon_p = some handler →
    urlName s = some handler.2) ∧
  ((urlName s = some (cstring "http") ∨ urlName s = some (cstring "file")) →
    ∀ u, url_parse longMax s = some u → Reprints longMax u)

def ShortName (s : List Byte) : Prop := ∃ h ∈ url_handlers, ∃ name, urlName s = some name ∧ name <+: h.2 ∧ name ≠ h.2

def NegativePort (longMax : Int) (s : List Byte) : Prop :=
  urlName s = some (cstring "http") ∧
    ∃ a p, s.drop 5 = cstring "//" ++ a ++ 58 :: p ∧ (∀ c ∈ a, c ∉ cstring "/?#:") ∧ toint (strtol longMax p) < 0

def STRURL : Int := 256

def xstrrfind : List Byte → List Byte → Option (List Byte)
  | [], _ => none
  | c :: cp, chars =>
    match xstrrfind cp chars with
    | some r => some r
    | none => if c ∈ chars then some (c :: cp) else none

def url_ispart (url : List Byte) : Bool :=
  match xstrfind url [58], xstrfind url [47] with
  | none, _ => true
  | some _, none => false
  | some colon_p, some slash_p => !decide (slash_p.length < colon_p.length)

def strurlWrites (offset : Nat) (s : List Byte) : List Access :=
  (List.range (s.length + 1)).map fun k : Nat => ⟨STRURL, offset + k⟩

def slashTurn (n : Nat) : Option (List Byte) × Option (List Byte) → (Option (List Byte) × Option (List Byte)) ⊕ Option (List Byte)
  | (slash, none) => .inr slash
  | (slash, some []) => .inr slash
  | (slash, some (c :: s)) =>
    let l := ((c :: s).takeWhile fun c => c = 47).length
    let slash := if l = n then (if slash = none then some (c :: s) else slash) else if l > n then none else slash
    .inl (slash, xstrfind ((c :: s).drop l) [47])

def url_slash (strurl cp : List Byte) : Option (Option (List Byte)) :=
  if cp.head? = some 47 then
    runLoop (slashTurn (cp.takeWhile fun c => c = 47).length) (strurl.length + 2) (none, xstrfind strurl [47])
  else some ((xstrrfind strurl (cstring "/:")).map List.tail)

structure UrlCursor where
  kept : List Byte
  seg : List Byte
  todo : List Byte
  touched : List Access

def reduceTurn (p : UrlCursor) : UrlCursor ⊕ UrlCursor :=
  match p.todo with
  | [] => .inr p
  | c :: rest =>
    if p.todo.take 4 = cstring "/../" then
      .inl ⟨[], [], p.kept ++ p.todo.drop 4, strurlWrites p.kept.length (p.todo.drop 4) ++ p.touched⟩
    else if p.todo.take 3 = cstring "/./" then
      .inl ⟨[], [], p.kept ++ p.seg ++ 47 :: p.todo.drop 3,
        strurlWrites ((p.kept ++ p.seg).length + 1) (p.todo.drop 3) ++ p.touched⟩
    else if c = 47 then .inl { p with kept := p.kept ++ p.seg ++ [47], seg := [], todo := rest }
    else .inl { p with seg := p.seg ++ [c], todo := rest }

def url_reduce (strurl : List Byte) (touched : List Access) : Option (List Byte × List Access) :=
  (runLoop reduceTurn ((strurl.length + 1) * (strurl.length + 1) + 1) ⟨[], [], strurl, touched⟩).map fun p =>
    (p.kept ++ p.seg ++ p.todo, p.touched)

def url_make (longMax : Int) (junk : List Byte) (context : Option url_t) (cp : List Byte) :
    Option (Option url_t × List Access) :=
  match context with
  | none => some (url_parse longMax cp, [])
  | some context =>
    if url_ispart cp = false then some (url_parse longMax cp, [])
    else if cp.head? = some 35 then some (some { context with frag := some cp.tail }, [])
    else
      let strurl := (url_print context).getD junk
      let touched := match url_print context with
        | none => []
        | some text => strurlWrites 0 text
      match url_slash strurl cp with
      | none => none
      | some none => some (none, touched)
      | some (some slash) =>
        let front := strurl.take (strurl.length - slash.length)
        match url_reduce (front ++ cp) (strurlWrites front.length cp ++ touched) with
        | none => none
        | some (strurl, touched) => some (url_parse longMax strurl, touched)

def NoDots (s : List Byte) : Prop := ¬ cstring "/../" <:+: s ∧ ¬ cstring "/./" <:+: s

def MakesWithin (longMax : Int) (junk : List Byte) (context : url_t) (cp : List Byte) : Prop :=
  ∃ r touched, url_make longMax junk (some context) cp = some (r, touched) ∧ (∀ a ∈ touched, a.Inside) ∧
    ∀ u, r = some u → u.scheme = context.scheme ∧ u.address = context.address ∧ u.port = context.port ∧
      ∀ p, u.path = some p → NoDots p

def urlFront (u : url_t) : List Byte :=
  match u.scheme with
  | .URL_HTTP => cstring "http://" ++ u.address.getD [] ++ if u.port > 0 then 58 :: sprintf_d u.port else []
  | .URL_FILE => cstring "file://" ++ u.address.getD []
  | .URL_FTP => []

def urlJoined (context : url_t) (cp : List Byte) : Option (List Byte) := do
  let strurl ← url_print context
  let slash ← (url_slash strurl cp).join
  some (strurl.take (strurl.length - slash.length) ++ cp)

/-- Every `/../` of a string has a segment to take away, when `d` slashes stand in front of the string. -/
inductive WithinRoot : Nat → List Byte → Prop
  | done {d : Nat} {t : List Byte} (ht : t = []) : WithinRoot d t
  | up {d e : Nat} {t s : List Byte} (hd : d = e + 1) (ht : t = cstring "/../" ++ s) (h : WithinRoot e (47 :: s)) : WithinRoot d t
  | here {d : Nat} {t s : List Byte} (ht : t = cstring "/./" ++ s) (h : WithinRoot d (47 :: s)) : WithinRoot d t
  | slash {d : Nat} {t s : List Byte} (ht : t = 47 :: s) (hup : t.take 4 ≠ cstring "/../") (hhere : t.take 3 ≠ cstring "/./")
      (h : WithinRoot (d + 1) s) : WithinRoot d t
  | char {d : Nat} {c : Byte} {t s : List Byte} (ht : t = c :: s) (hc : c ≠ 47) (h : WithinRoot d s) : WithinRoot d t

structure Follows (front t : List Byte) : Prop where
  head : ∀ c ∈ t.head?, c ∈ cstring "/?#"
  root : WithinRoot 0 t
  host : t.head? = some 47 → ¬ cstring "/." <:+ front ∧ ¬ cstring "/.." <:+ front

def Resolvable (context : url_t) (cp : List Byte) : Prop :=
  if cp.head? = some 35 then ∀ p, context.path = some p → NoDots p
  else
    (∀ text, url_print context = some text → text.length < 256) ∧
    ∀ joined, urlJoined context cp = some joined →
      0 ≤ context.port ∧ joined.length < 256 ∧ ∃ t, joined = urlFront context ++ t ∧ Follows (urlFront context) t

end WWindowSystem
