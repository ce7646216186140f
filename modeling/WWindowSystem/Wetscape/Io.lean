import WWindowSystem.Library.Strings

namespace WWindowSystem

def EOF : Int := -1

/-- `ibuf` is what is in the input buffer, `ihook` and `hhook` belong to the decoder and to the downloader. -/
structure io_t (I H : Type) where
  mimetype : Option (List Byte)
  ibuf : List Byte
  ibuflen : Int
  ibufoffset : Int
  iptr : Nat
  eof : Bool
  ihook : I
  hhook : H

variable {I H : Type}

def io_t.ibufused (iop : io_t I H) : Int := iop.ibuf.length

def io_alloc_ibuf (size : Int) (ihook : I) (hhook : H) : io_t I H :=
  { mimetype := none, ibuf := [], ibuflen := size, ibufoffset := 0, iptr := 0, eof := false, ihook := ihook, hhook := hhook }

def io_t.read (iop : io_t I H) (s : List Byte) (eof : Bool) : io_t I H :=
  { iop with ibuf := iop.ibuf ++ s, eof := eof }

def io_eat_input (iop : io_t I H) (size : Int) : io_t I H :=
  let size := if iop.ibufused < size then iop.ibufused else size
  if size > 0 then { iop with ibufoffset := iop.ibufoffset + size, ibuf := iop.ibuf.drop size.toNat } else iop

theorem io_eat_input_all (iop : io_t I H) :
    io_eat_input iop iop.ibufused = { iop with ibufoffset := iop.ibufoffset + iop.ibuf.length, ibuf := [] } := by
  obtain ⟨mimetype, ibuf, ibuflen, ibufoffset, iptr, eof, ihook, hhook⟩ := iop
  cases ibuf with
  | nil => simp [io_eat_input, io_t.ibufused]
  | cons c s => simp [io_eat_input, io_t.ibufused]

def io_getc (iop : io_t I H) : Int × io_t I H :=
  match iop.ibuf.drop iop.iptr with
  | [] => (EOF, iop)
  | c :: rest =>
    if c = 13 then
      match rest with
      | [] => (EOF, iop)
      | d :: _ => (10, { iop with iptr := iop.iptr + if d = 10 then 2 else 1 })
    else (c.toInt, { iop with iptr := iop.iptr + 1 })

def xstrfind : List Byte → List Byte → Option (List Byte)
  | [], _ => none
  | c :: cp, chars => if c ∈ chars then some (c :: cp) else xstrfind cp chars

theorem xstrfind_none {cp chars : List Byte} (h : xstrfind cp chars = none) : ∀ c ∈ cp, c ∉ chars := by
  induction cp with
  | nil => simp
  | cons d cp ih =>
    unfold xstrfind at h
    split_ifs at h with hd
    exact List.forall_mem_cons.mpr ⟨hd, ih h⟩

theorem xstrfind_some {cp chars cp2 : List Byte} (h : xstrfind cp chars = some cp2) :
    ∃ plain c s, cp = plain ++ c :: s ∧ cp2 = c :: s ∧ c ∈ chars ∧ ∀ d ∈ plain, d ∉ chars := by
  induction cp with
  | nil => cases h
  | cons d cp ih =>
    unfold xstrfind at h
    split_ifs at h with hd
    · cases h
      exact ⟨[], d, cp, rfl, rfl, hd, by simp⟩
    · obtain ⟨plain, c, s, rfl, rfl, hc, hplain⟩ := ih h
      exact ⟨d :: plain, c, s, rfl, rfl, hc, List.forall_mem_cons.mpr ⟨hd, hplain⟩⟩

end WWindowSystem
