import LibSpe2.Conc.Phase
import LibSpe2.Data.Holders
import Mathlib.Data.UInt

/-!
# Images, gangs and event handlers

`_base_spe_image_open`, `_base_spe_gang_context_create` and `_event_spe_event_handler_create` build an object of heap
blocks, descriptors and mappings, step by step, and undo the steps when one of them fails; `_base_spe_image_close`,
`_base_spe_gang_context_destroy` and `_event_spe_event_handler_destroy` take it apart.

* `Resource`, `Object` — what there is to hold, and what the callers get; `Object.parts` is what it is made of.
* `Cmd`, `World` — the calls of the C library and of the kernel, and who holds what (`Ledger`).
* `objectSystem` — any number of threads that create and destroy objects. A caller destroys a live object, once.

What the checks of an image look at is in `ElfLoader` and `ElfToeEar`; here only their verdict matters.
-/

namespace LibSpe2.Objects

open Conc (Prog)

abbrev Tid := ℕ

/-! ## What there is to hold -/

inductive Resource where
  | block (ptr : ℕ)
  | fd (fd : ℤ)
  | mapping (addr : ℕ) (len : UInt32)
  deriving DecidableEq

/-- `MAP_FAILED`. -/
def mapFailed : ℕ := 2 ^ 64 - 1

/-- `struct image_handle` at `ptr`; `0` is `NULL`. -/
structure ImageHandle where
  ptr : ℕ
  elfImage : ℕ
  toeShadow : ℕ
  mapSize : UInt32
  deriving DecidableEq

/-- `struct spe_gang_context` at `ptr`, with its `base_private`. -/
structure GangContext where
  ptr : ℕ
  basePrivate : ℕ
  gangname : String
  fdGangDir : ℤ
  flags : UInt32
  deriving DecidableEq

/-- `spe_event_handler_t` at `ptr`. -/
structure EventHandler where
  ptr : ℕ
  epfd : ℤ
  deriving DecidableEq

inductive Object where
  | image (ih : ImageHandle)
  | gang (gctx : GangContext)
  | handler (evhandler : EventHandler)
  deriving DecidableEq

def ImageHandle.shadowBlock (ih : ImageHandle) : List Resource :=
  if ih.toeShadow ≠ 0 then [.block ih.toeShadow] else []

def Object.parts : Object → List Resource
  | .image ih => .block ih.ptr :: .mapping ih.elfImage ih.mapSize :: ih.shadowBlock
  | .gang gctx => [.block gctx.ptr, .block gctx.basePrivate, .fd gctx.fdGangDir]
  | .handler evhandler => [.block evhandler.ptr, .fd evhandler.epfd]

/-- What the destructors rely on. -/
def Object.Valid : Object → Prop
  | .image ih => ih.elfImage ≠ 0 ∧ ih.mapSize ≠ 0
  | .gang gctx => 0 ≤ gctx.fdGangDir
  | .handler _ => True

/-! ## Commands -/

def esrch : ℤ := 3
def enomem : ℤ := 12
def eacces : ℤ := 13
def efault : ℤ := 14
def einval : ℤ := 22

/-- `struct stat`, as far as `_base_spe_image_open` looks at it. -/
structure Stat where
  mode : UInt32
  size : UInt64

/-- `S_IXUSR | S_IXGRP | S_IXOTH`. -/
def execBits : UInt32 := 0o111

/-- The calls that open a descriptor. -/
inductive FdCall where
  | openRdonly (filename : String)
  | spuCreateGang (pathname : String)
  | epollCreate (size : ℕ)

inductive Cmd where
  | getpagesize
  | getpid
  /-- `malloc` and `calloc`. -/
  | malloc
  | openFd (call : FdCall)
  | fstat (fd : ℤ)
  | mmap (len : UInt32) (fd : ℤ)
  /-- `_base_spe_verify_spe_elf_image`. -/
  | verifySpeElfImage (elfImage : ℕ)
  /-- The loops of `_base_spe_toe_ear` over sections and symbols: `ret` and `toe_size`. -/
  | checkToe (elfImage : ℕ)
  | munmap (addr : ℕ) (len : UInt32)
  | close (fd : ℤ)
  | free (ptr : ℕ)
  | setErrno (e : ℤ)
  /-- The caller has got an object, or passes one to be destroyed; no code corresponds to these. -/
  | made (o : Object)
  | claim (o : Object)

@[reducible] def Ans : Cmd → Type
  | .getpagesize => UInt64
  | .getpid => ℤ
  | .malloc => Except ℤ ℕ
  | .openFd _ => Except ℤ ℤ
  | .fstat _ => Except ℤ Stat
  | .mmap _ _ => Except ℤ ℕ
  | .verifySpeElfImage _ => Except ℤ Unit
  | .checkToe _ => ℤ × ℤ
  | .munmap _ _ => Except ℤ Unit
  | .close _ => Except ℤ Unit
  | _ => Unit

abbrev Lib := Prog Cmd Ans

abbrev perform (c : Cmd) : Lib (Ans c) := Prog.perform c

structure World where
  ledger : Ledger Resource Tid Object
  errno : Tid → ℤ

namespace World

variable (s : World) (t : Tid)

def setErrno (e : ℤ) : World := { s with errno := Function.update s.errno t e }

/-- A call of the C library returned `r`. -/
def note {α : Type} : Except ℤ α → World
  | .error e => s.setErrno t e
  | .ok _ => s

/-- What the kernel and `malloc` hand out nobody holds. -/
def take (r : Resource) : Option World :=
  if s.ledger.holder r = none then some { s with ledger := s.ledger.acquire t r } else none

def drop (r : Resource) : World := { s with ledger := s.ledger.release r }

end World

open World in
/-- What a command does, when it is answered by `r`; `none` if it cannot be answered so. -/
def exec (t : Tid) : (c : Cmd) → Ans c → World → Option World
  | .malloc, .ok ptr, s => s.take t (.block ptr)
  | .malloc, .error _, s => some (s.setErrno t enomem)
  | .openFd _, .ok fd, s => s.take t (.fd fd)
  | .openFd _, .error e, s => some (s.setErrno t e)
  | .mmap len _, .ok addr, s => s.take t (.mapping addr len)
  | .mmap _ _, .error e, s => some (s.setErrno t e)
  | .munmap addr len, .ok _, s => some (s.drop (.mapping addr len))
  | .munmap _ _, .error e, s => some (s.setErrno t e)
  -- the descriptor is gone also where `close` reports an error
  | .close fd, r, s => some ((s.drop (.fd fd)).note t r)
  | .free ptr, _, s => some (s.drop (.block ptr))
  | .fstat _, r, s => some (s.note t r)
  | .verifySpeElfImage _, r, s => some (s.note t r)
  | .checkToe _, r, s => some (if r.1 ≠ 0 then s.setErrno t einval else s)
  | .setErrno e, _, s => some (s.setErrno t e)
  | .made o, _, s => some { s with ledger := s.ledger.publish Object.parts o }
  | .claim o, _, s => if o ∈ s.ledger.live then some { s with ledger := s.ledger.giveUp Object.parts t o } else none
  | .getpagesize, _, s | .getpid, _, s => some s

/-! ## Images (`spebase/image.c`) -/

/-- `_base_spe_toe_ear`: `ret`, and `toe_shadow`. -/
def baseSpeToeEar (ih : ImageHandle) : Lib (ℤ × ImageHandle) := do
  let (ret, toeSize) ← perform (.checkToe ih.elfImage)
  if ret = 0 ∧ toeSize ≠ 0 then
    match ← perform .malloc with
    | .ok toeShadow => return (ret, { ih with toeShadow })
    | .error _ =>
      perform (.setErrno enomem)
      return (1, ih)
  else return (ret, ih)

/-- `ret_err`. -/
def imageRetErr (ih : ImageHandle) (binfd : ℤ) : Lib (Option ImageHandle) := do
  if ih.elfImage ≠ mapFailed then
    let _ ← perform (.munmap ih.elfImage ih.mapSize)
  if binfd ≥ 0 then
    let _ ← perform (.close binfd)
  perform (.free ih.ptr)
  return none

/-- The size of the file in whole pages, stored as an `unsigned int`. -/
def mapSizeOf (size ps : UInt64) : UInt32 := ((size + ps - 1) &&& ~~~(ps - 1)).toUInt32

def baseSpeImageOpen (filename : String) : Lib (Option ImageHandle) := do
  let ps ← perform .getpagesize
  match ← perform .malloc with
  | .error _ => return none
  | .ok ptr =>
    -- `map_size` is not set yet, and not read before it is
    let ret : ImageHandle := ⟨ptr, mapFailed, 0, 0⟩
    match ← perform (.openFd (.openRdonly filename)) with
    | .error _ => imageRetErr ret (-1)
    | .ok binfd =>
      match ← perform (.fstat binfd) with
      | .error _ => imageRetErr ret binfd
      | .ok statbuf =>
        if statbuf.mode &&& execBits = 0 then
          perform (.setErrno eacces)
          imageRetErr ret binfd
        else
          let ret := { ret with mapSize := mapSizeOf statbuf.size ps }
          match ← perform (.mmap ret.mapSize binfd) with
          | .error _ => imageRetErr ret binfd
          | .ok elfImage =>
            let ret := { ret with elfImage }
            match ← perform (.verifySpeElfImage ret.elfImage) with
            | .error _ => imageRetErr ret binfd
            | .ok _ =>
              let (rc, ret) ← baseSpeToeEar ret
              if rc ≠ 0 then
                imageRetErr ret binfd
              else
                let _ ← perform (.close binfd)
                return some ret

def baseSpeImageClose : Option ImageHandle → Lib ℤ
  | none => do
    perform (.setErrno einval)
    return -1
  | some ih => do
    if ih.elfImage = 0 ∨ ih.mapSize = 0 then
      perform (.setErrno einval)
      return -1
    else
      if ih.toeShadow ≠ 0 then
        perform (.free ih.toeShadow)
      let ret ← perform (.munmap ih.elfImage ih.mapSize)
      perform (.free ih.ptr)
      return match ret with
        | .ok _ => 0
        | .error _ => -1

/-! ## Gangs (`spebase/create.c`) -/

def freeSpeGangContext (gctx : GangContext) : Lib ℤ := do
  if gctx.fdGangDir ≥ 0 then
    let _ ← perform (.close gctx.fdGangDir)
  perform (.free gctx.basePrivate)
  perform (.free gctx.ptr)
  return 0

def baseSpeGangContextCreate (flags : UInt32) : Lib (Option GangContext) := do
  match ← perform .malloc with
  | .error _ => return none
  | .ok gctx =>
    match ← perform .malloc with
    | .error _ =>
      perform (.free gctx)
      return none
    | .ok pgctx =>
      let pid ← perform .getpid
      let gangname := s!"gang-{pid}-{gctx}"
      let pathname := s!"/spu/{gangname}"
      match ← perform (.openFd (.spuCreateGang pathname)) with
      | .error _ =>
        let _ ← freeSpeGangContext ⟨gctx, pgctx, gangname, -1, 0⟩
        perform (.setErrno efault)
        return none
      | .ok fdGangDir => return some ⟨gctx, pgctx, gangname, fdGangDir, flags⟩

def baseSpeGangContextDestroy (gctx : GangContext) : Lib ℤ := freeSpeGangContext gctx

/-- `spe_gang_context_destroy` of `libspe2.c`. -/
def speGangContextDestroy : Option GangContext → Lib ℤ
  | none => do
    perform (.setErrno esrch)
    return -1
  | some gang => baseSpeGangContextDestroy gang

/-! ## Event handlers (`speevent/spe_event.c`) -/

/-- `__SPE_EPOLL_SIZE`. -/
def speEpollSize : ℕ := 10

def eventSpeEventHandlerCreate : Lib (Option EventHandler) := do
  match ← perform .malloc with
  | .error _ => return none
  | .ok evhandler =>
    match ← perform (.openFd (.epollCreate speEpollSize)) with
    | .error _ =>
      perform (.free evhandler)
      return none
    | .ok epfd => return some ⟨evhandler, epfd⟩

def eventSpeEventHandlerDestroy : Option EventHandler → Lib ℤ
  | none => do
    perform (.setErrno esrch)
    return -1
  | some evhandler => do
    let _ ← perform (.close evhandler.epfd)
    perform (.free evhandler.ptr)
    return 0

end LibSpe2.Objects
