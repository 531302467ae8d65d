import LibSpe2.SpeBase.Dma
import LibSpe2.SpeBase.Run
import LibSpe2.SpeEvent.Event
import Mathlib.Algebra.Order.Group.Multiset

/-!
# The process that a context lives in

What the calls on one context acquire from the kernel, and what they store about it. Mailboxes, proxy
DMA, runs and events are the programs of the other modules; here only their descriptors, mappings and
accesses to the problem state count, so that a whole life of a context can be looked at.

* `Proc` — the members of the private records that say what the context has acquired, and `live`, what
  the process holds.
* `Cmd`, `exec` — the kernel may answer anything, except that a new descriptor or mapping is new.
* The commands of `Sys`, `Dma` and `Run` that touch neither are embedded as they are, and answered
  freely.
* `faults`, `wild`, `mapped`, `written` and `refused` are history, which no code looks at.
-/

namespace LibSpe2.Ctx

open Conc Function

/-! ## Data -/

/-- What a process holds until it releases it. -/
inductive Resource where
  | fd (n : Fd)
  | map (base size : Nat)
  deriving DecidableEq

/-- `enum ps_area`. -/
inductive PsArea where
  | mssync | mfcCommand | control | sigNotify1 | sigNotify2
  deriving DecidableEq

/-- The access mode and the flags of an `openat`. -/
inductive Mode where
  | rdonly | rdonlyNonblock | wronly | wronlyNonblock | rdwr
  deriving DecidableEq

/-- `spe_program_handle_t`: its image, where `none` is `NULL`. -/
structure ProgramHandle where
  elfImage : Option Nat
  deriving DecidableEq

/-- `struct spe_context_base_priv`, but for its arrays; `none` is `MAP_FAILED`. -/
structure BasePriv where
  fdSpeDir : Fd
  flags : UInt32
  entry : UInt32
  emulatedEntry : UInt32
  loadedProgram : Option ProgramHandle
  memMmapBase : Option Nat
  psmapMmapBase : Option Nat
  mssyncMmapBase : Option Nat
  mfcMmapBase : Option Nat
  cntlMmapBase : Option Nat
  signal1MmapBase : Option Nat
  signal2MmapBase : Option Nat
  deriving DecidableEq

/-- The base address of a problem-state area. -/
def BasePriv.area (b : BasePriv) : PsArea → Option Nat
  | .mssync => b.mssyncMmapBase
  | .mfcCommand => b.mfcMmapBase
  | .control => b.cntlMmapBase
  | .sigNotify1 => b.signal1MmapBase
  | .sigNotify2 => b.signal2MmapBase

structure Proc where
  mem : Loc → Int
  base : BasePriv
  /-- `event_private` is not `NULL`. -/
  eventPrivate : Bool
  live : Multiset Resource
  /-- The spufs file behind a descriptor. -/
  files : Fd → String
  /-- Releases of something that the process did not hold. -/
  faults : List Resource
  /-- Accesses to areas whose base is `MAP_FAILED`. -/
  wild : List PsArea
  /-- The files of the mappings made. -/
  mapped : List String
  /-- The files to which all bytes of a `write` went, and those to which they did not. -/
  written : List (String × List UInt8)
  refused : List String

/-! ## Commands -/

inductive Cmd where
  /-- `malloc` or `calloc`. -/
  | malloc
  | getpid
  /-- `_base_spe_emulated_loader_present`; the loader is opened once for the whole process. -/
  | emulatedLoaderPresent
  | spuCreate (pathname : String) (flags : UInt32) (affSpeFd : Fd)
  | openat (dir : Fd) (filename : String) (mode : Mode)
  | mmap (fd : Fd) (size : Nat)
  | munmap (base size : Nat)
  | close (fd : Fd)
  | write (fd : Fd) (bytes : List UInt8)
  | pipe
  /-- Members of the context. -/
  | load (l : Loc)
  | store (l : Loc) (v : Int)
  | base
  | setBase (b : BasePriv)
  | eventPrivate
  | setEventPrivate (v : Bool)
  /-- A load or store at the base address of a problem-state area. -/
  | access (a : PsArea)
  | setErrno (e : Int)
  /-- `_base_spe_load_spe_elf` of the program, or of the emulated loader: its result and `entry`. -/
  | loadSpeElf (program : ProgramHandle)
  | loadEmulatedLoader
  /-- `_base_spe_parse_isolated_elf`: its result, `addr` and `size`. -/
  | parseIsolatedElf (program : ProgramHandle)
  /-- A word of which nothing is known: a register's, or a local variable's before it is written. -/
  | someWord
  | sys (c : LibSpe2.Cmd)
  | dma (c : Dma.Cmd)
  | run (c : Run.Cmd)

@[reducible] def Ans : Cmd → Type
  | .malloc => Option Nat
  | .getpid => Int
  | .emulatedLoaderPresent => Bool
  | .spuCreate _ _ _ => Except Int Fd
  | .openat _ _ _ => Except Errno Fd
  | .mmap _ _ => Option Nat
  | .write _ _ => Except Errno Nat
  | .pipe => Except Errno (Fd × Fd)
  | .load _ => Int
  | .base => BasePriv
  | .eventPrivate => Bool
  | .loadSpeElf _ => Int × UInt32
  | .loadEmulatedLoader => Option (Int × UInt32)
  | .parseIsolatedElf _ => Int × UInt64 × UInt32
  | .someWord => UInt32
  | .sys c => LibSpe2.Ans c
  | .dma c => Dma.Ans c
  | .run c => Run.Ans c
  | _ => Unit

namespace Proc

variable (s : Proc)

/-- A number that a new descriptor may get. -/
def FreeFd (fd : Fd) : Prop := 0 ≤ fd ∧ .fd fd ∉ s.live

/-- The mapping shares no address with one that the process has. -/
def FreeMap (base size : Nat) : Prop :=
  ∀ r ∈ s.live, match r with
    | .fd _ => True
    | .map base' size' => base + size ≤ base' ∨ base' + size' ≤ base

instance (fd : Fd) : Decidable (s.FreeFd fd) := inferInstanceAs (Decidable (_ ∧ _))

instance (base size : Nat) : Decidable (s.FreeMap base size) :=
  have : DecidablePred fun r : Resource => match r with
      | .fd _ => True
      | .map base' size' => base + size ≤ base' ∨ base' + size' ≤ base := fun r => by
    cases r <;> infer_instance
  inferInstanceAs (Decidable (∀ r ∈ s.live, _))

def acquire (r : Resource) : Proc := { s with live := r ::ₘ s.live }

def release (r : Resource) : Proc :=
  if r ∈ s.live then { s with live := s.live.erase r } else { s with faults := r :: s.faults }

def setMem (l : Loc) (v : Int) : Proc := { s with mem := update s.mem l v }

/-- All `len` bytes of a `write` were taken, or not. -/
def noteWrite (fd : Fd) (bytes : List UInt8) (r : Except Errno Nat) : Proc :=
  if r.toOption = some bytes.length then { s with written := (s.files fd, bytes) :: s.written }
  else { s with refused := s.files fd :: s.refused }

def noteAccess (a : PsArea) : Proc :=
  if s.base.area a = none then { s with wild := a :: s.wild } else s

end Proc

/-- `exec t c r s`: the process after `c` was answered `r` in `s`. -/
def exec (_ : Unit) : (c : Cmd) → Ans c → Proc → Option Proc
  | .spuCreate _ _ _, .ok fd, s => if s.FreeFd fd then some (s.acquire (.fd fd)) else none
  | .openat _ filename _, .ok fd, s =>
    if s.FreeFd fd then some { s.acquire (.fd fd) with files := update s.files fd filename }
    else none
  | .mmap fd size, some base, s =>
    if s.FreeMap base size then
      some { s.acquire (.map base size) with mapped := s.files fd :: s.mapped }
    else none
  | .munmap base size, _, s => some (s.release (.map base size))
  | .close fd, _, s => some (s.release (.fd fd))
  | .write fd bytes, r, s => some (s.noteWrite fd bytes r)
  | .pipe, .ok (r, w), s =>
    if s.FreeFd r ∧ s.FreeFd w ∧ r ≠ w then some ((s.acquire (.fd r)).acquire (.fd w)) else none
  | .load l, v, s => if v = s.mem l then some s else none
  | .store l v, _, s => some (s.setMem l v)
  | .base, b, s => if b = s.base then some s else none
  | .setBase b, _, s => some { s with base := b }
  | .eventPrivate, v, s => if v = s.eventPrivate then some s else none
  | .setEventPrivate v, _, s => some { s with eventPrivate := v }
  | .access a, _, s => some (s.noteAccess a)
  | _, _, s => some s

def machine : Machine Cmd Ans Unit Proc := ⟨exec⟩

abbrev Code := Prog Cmd Ans

abbrev perform (c : Cmd) : Code (Ans c) := Prog.perform c

end LibSpe2.Ctx
