import Mathlib.Data.Finset.Basic
import WWindowSystem.Lib.Events
import WWindowSystem.Library.Words

namespace WWindowSystem

def PAK_EVENT : BitVec 16 := 0x0400

def IBUFSIZE : Nat := 4096

def PAKET_SIZE : Nat := 4004

structure SocketEnv where
  big : Bool
  Sock : Nat
  event : List Byte → WEVENT

structure FdSets where
  rfd : Option (Finset Nat)
  wfd : Option (Finset Nat)
  xfd : Option (Finset Nat)

def FD_ISSET (fd : Nat) (set : Option (Finset Nat)) : Prop := ∃ s, set = some s ∧ fd ∈ s

instance (fd : Nat) (set : Option (Finset Nat)) : Decidable (FD_ISSET fd set) :=
  decidable_of_iff (set.any (fd ∈ ·)) (by cases set <;> simp [FD_ISSET])

def countSet (set : Option (Finset Nat)) : Int := (set.getD ∅).card

/-- What the system does when the library selects: the descriptors that are ready, or a failure, and
how many bytes the next read gets at most. -/
structure SelectAnswer where
  ready : Option (Finset Nat × Finset Nat × Finset Nat)
  bytes : Nat

/-- Without a timeout `select` ends with a descriptor or fails, and a failure leaves the sets. -/
def select (unlimited : Bool) (sets : FdSets) (a : SelectAnswer) : Int × FdSets :=
  match a.ready with
  | none => (-1, sets)
  | some (r, w, x) =>
    let sets' : FdSets := ⟨sets.rfd.map (· ∩ r), sets.wfd.map (· ∩ w), sets.xfd.map (· ∩ x)⟩
    let fds := countSet sets'.rfd + countSet sets'.wfd + countSet sets'.xfd
    if unlimited ∧ fds = 0 then (-1, sets) else (fds, sets')

inductive Caller where
  | _wait4paket (type : BitVec 16)
  | w_queryevent
  deriving DecidableEq

def Caller.wantEvent : Caller → Bool
  | ._wait4paket _ => false
  | .w_queryevent => true

structure Scan where
  caller : Caller
  asked : FdSets
  sets : FdSets
  timeout : Int

structure Selected where
  scan : Scan
  Events : Int
  ibuf : List Byte

/-- `stream` is what the server has sent or will send and the library has not read; `scan` is the
call that waits. The last fields tell what the program got: the pakets, the events, and the sets of
the last `w_queryevent` with their number. -/
structure SocketLib where
  stream : List Byte
  ibuf : List Byte
  events : EventBuffer
  alive : Bool
  scan : Option Scan
  selects : List Selected
  replies : List (List Byte)
  handed : List WEVENT
  result : FdSets × Int

def netShort (big : Bool) (s : List Byte) : BitVec 16 :=
  match loadShort big s with
  | some (x, _) => ntohs big x
  | none => 0

def paketLen (big : Bool) (s : List Byte) : Int := (netShort big s).toInt
def paketType (big : Bool) (s : List Byte) : BitVec 16 := netShort big (s.drop 2)

/-- The loop that analyses the input buffer: a paket that is no event, and what is left; `none` is a
loop that does not end. -/
def analyse (E : SocketEnv) : Nat → List Byte → EventBuffer →
    Option (Option (List Byte) × List Byte × EventBuffer)
  | 0, _, _ => none
  | fuel + 1, ibuf, events =>
    if 4 ≤ ibuf.length then
      let len := paketLen E.big ibuf
      let type := paketType E.big ibuf
      if ibuf.length < len then some (none, ibuf, events)
      else
        let pptr := ibuf.take len.toNat
        if type = PAK_EVENT then
          analyse E fuel (ibuf.drop len.toNat) (event_push E.big events (E.event pptr))
        else some (some pptr, ibuf.drop len.toNat, events)
    else some (none, ibuf, events)

def scanSocket_select (E : SocketEnv) (S : SocketLib) (scan : Scan) : SocketLib :=
  let timeout := if scan.caller.wantEvent ∧ S.events.Events ≠ 0 then 0 else scan.timeout
  let rfd := if ¬ scan.caller.wantEvent ∨ S.events.Events = 0 then
    some (insert E.Sock (scan.sets.rfd.getD ∅)) else scan.sets.rfd
  let scan := { scan with timeout, sets := { scan.sets with rfd } }
  { S with scan := some scan, selects := ⟨scan, S.events.Events, S.ibuf⟩ :: S.selects }

def FdSets.zero (sets : FdSets) : FdSets :=
  ⟨sets.rfd.map fun _ => ∅, sets.wfd.map fun _ => ∅, sets.xfd.map fun _ => ∅⟩

def scanSocket_return (E : SocketEnv) (S : SocketLib) (scan : Scan) (fds : Int) (sets : FdSets)
    (ret : Option (List Byte)) : SocketLib :=
  let S := { S with scan := none, replies := S.replies ++ ret.toList }
  match scan.caller, ret with
  | ._wait4paket type, some pptr => { S with alive := type = paketType E.big pptr }
  | ._wait4paket _, none => { S with alive := false }
  | .w_queryevent, some _ => { S with alive := false }
  | .w_queryevent, none =>
    let ret := event_pop S.events
    { S with events := ret.2, handed := S.handed ++ ret.1.toList
             result := (if fds = 0 then sets.zero else sets, fds) }

def scanSocket_analyse (E : SocketEnv) (S : SocketLib) (scan : Scan) (fds : Int) (sets : FdSets) :
    SocketLib :=
  match analyse E (S.ibuf.length + 1) S.ibuf S.events with
  | none => { S with alive := false, scan := none }
  | some (ret, ibuf, events) =>
    let S := { S with ibuf, events }
    if ret.isSome ∨ (scan.caller.wantEvent ∧ events.Events > 0) ∨ fds > 0 ∨ scan.timeout ≥ 0 then
      scanSocket_return E S scan fds sets ret
    else scanSocket_select E S { scan with sets }

def SocketLib.chunk (S : SocketLib) (a : SelectAnswer) : List Byte :=
  S.stream.take (min a.bytes (IBUFSIZE - S.ibuf.length))

def scanSocket_selected (E : SocketEnv) (S : SocketLib) (scan : Scan) (a : SelectAnswer) : SocketLib :=
  let ret := select (scan.timeout < 0) scan.sets a
  let fds := if ret.1 < 0 then 0 else ret.1
  if FD_ISSET E.Sock ret.2.rfd then
    let this := S.chunk a
    if this = [] then { S with alive := false, scan := none }
    else
      scanSocket_analyse E { S with ibuf := S.ibuf ++ this, stream := S.stream.drop this.length } scan
        (fds - 1) { ret.2 with rfd := ret.2.rfd.map (·.erase E.Sock) }
  else scanSocket_analyse E S scan fds ret.2

inductive SocketStep where
  | _wait4paket (type : BitVec 16)
  | w_queryevent (sets : FdSets) (timeout : Int)
  | selected (a : SelectAnswer)

def socketStep (E : SocketEnv) (S : SocketLib) (step : SocketStep) : SocketLib :=
  if S.alive = false then S
  else match step, S.scan with
  | ._wait4paket type, none =>
    scanSocket_select E S ⟨._wait4paket type, ⟨none, none, none⟩, ⟨none, none, none⟩, -1⟩
  | .w_queryevent sets timeout, none => scanSocket_select E S ⟨.w_queryevent, sets, sets, timeout⟩
  | .selected a, some scan => scanSocket_selected E S scan a
  | _, _ => S

def socket_init (stream : List Byte) (Event : Nat → WEVENT) : SocketLib where
  stream := stream
  ibuf := []
  events := ⟨Event, 0, 0, 0⟩
  alive := true
  scan := none
  selects := []
  replies := []
  handed := []
  result := (⟨none, none, none⟩, 0)

end WWindowSystem
