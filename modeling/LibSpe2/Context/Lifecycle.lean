import LibSpe2.Context.Process
import LibSpe2.SpeBase.Mbox

/-!
# Creating and destroying a context (`spebase/create.c`, `libspe2.c`)

The programs that acquire and release what belongs to a context, over the commands of `Process.lean`.

* `sys`, `dmaCode`, `runCode` — the programs of the other modules, carried out by these commands: the
  accesses to descriptors, to members and to the problem state are those of the process, the rest is
  embedded.
* `speContextCreate`, `speContextDestroy` — the two ends of a context's life.

Mutexes matter only between threads; here there is one.
-/

namespace LibSpe2.Ctx

open Conc

/-! ## Constants -/

/-- `SPE_CFG_SIGNOTIFY1_OR`, `SPE_CFG_SIGNOTIFY2_OR`. -/
def speCfgSignotify1Or : UInt32 := 0x10
def speCfgSignotify2Or : UInt32 := 0x20

/-- `SPE_AFFINITY_MEMORY`, `SPE_NOSCHED`. -/
def speAffinityMemory : UInt32 := 0x2000
def speNosched : UInt32 := 0x4000

/-- The flags of `spu_create`. -/
def spuCreateEventsEnabled : UInt32 := 0x1
def spuCreateNosched : UInt32 := 0x4
def spuCreateIsolate : UInt32 := 0x8
def spuCreateAffinitySpu : UInt32 := 0x10
def spuCreateAffinityMem : UInt32 := 0x20

/-- The sizes and offsets of the mappings. -/
def psmapSize : Nat := 0x20000
def mfcSize : Nat := 0x1000
def mssSize : Nat := 0x1000
def cntlSize : Nat := 0x1000
def signalSize : Nat := 0x1000
def mssyncOffset : Nat := 0
def mfcOffset : Nat := 0x3000
def cntlOffset : Nat := 0x4000
def signal1Offset : Nat := 0x14000
def signal2Offset : Nat := 0x1c000

/-- Values of `errno`. -/
def eperm : Int := 1
def esrch : Int := 3
def eio : Int := 5
def enoexec : Int := 8
def enomem : Int := 12
def eacces : Int := 13
def efault : Int := 14
def ebusy : Int := 16
def eexist : Int := 17
def enodev : Int := 19
def einval : Int := 22
def enotsup : Int := 95

/-- `enum fd_name`, in its order. -/
def fdNames : List FdName :=
  [.mbox, .mboxStat, .ibox, .iboxNb, .iboxStat, .wbox, .wboxNb, .wboxStat, .sig1, .sig2, .mfc, .mss]

/-- `spe_fd_attr`. -/
def speFdAttr : FdName → String × Mode
  | .mbox => ("mbox", .rdonly)
  | .mboxStat => ("mbox_stat", .rdonly)
  | .ibox => ("ibox", .rdonly)
  | .iboxNb => ("ibox", .rdonlyNonblock)
  | .iboxStat => ("ibox_stat", .rdonly)
  | .wbox => ("wbox", .wronly)
  | .wboxNb => ("wbox", .wronlyNonblock)
  | .wboxStat => ("wbox_stat", .rdonly)
  | .sig1 => ("signal1", .wronly)
  | .sig2 => ("signal2", .wronly)
  | .mfc => ("mfc", .rdwr)
  | .mss => ("mss", .rdwr)

/-- Store some members of the base record. -/
def modifyBase (f : BasePriv → BasePriv) : Code Unit := do
  let priv ← perform .base
  perform (.setBase (f priv))

/-! ## The programs of the other modules -/

/-- How the commands of `Sys` are carried out; `run` is `_base_spe_context_run`. -/
def implSys (run : Code (Int × StopInfo)) : (c : LibSpe2.Cmd) → Code (LibSpe2.Ans c)
  | .load l => perform (.load l)
  | .store l v => perform (.store l v)
  | .flags _ => do
    let priv ← perform .base
    return priv.flags
  | .openat _ d => do
    let priv ← perform .base
    perform (.openat priv.fdSpeDir (speFdAttr d).1 (speFdAttr d).2)
  | .close fd => perform (.close fd)
  | .pipe _ => perform .pipe
  | .readMboxStat spe => do
    perform (.access .control)
    perform (.sys (.readMboxStat spe))
  | .readOutMbox spe => do
    perform (.access .control)
    perform (.sys (.readOutMbox spe))
  | .writeInMbox spe w => do
    perform (.access .control)
    perform (.sys (.writeInMbox spe w))
  | .baseRun _ => run
  | c => perform (.sys c)

/-- A program of `Sys` that does not run the context. -/
def sys {α : Type} (p : Sys α) : Code α :=
  p.interp (implSys (perform (.sys (.baseRun 0))))

/-- `_base_spe_open_if_closed`. -/
def openIfClosed (spe : Spe) (fdesc : FdName) : Code Fd := sys (baseSpeOpenIfClosed spe fdesc false)

/-- How the commands of `Dma` are carried out. -/
def implDma (spe : Spe) : (c : Dma.Cmd) → Code (Dma.Ans c)
  | .openIfClosed d => openIfClosed spe d
  | .readQStatus => do
    perform (.access .mfcCommand)
    perform (.dma .readQStatus)
  | .writeLSA v => do
    perform (.access .mfcCommand)
    perform (.dma (.writeLSA v))
  | .writeEAH v => do
    perform (.access .mfcCommand)
    perform (.dma (.writeEAH v))
  | .writeEAL v => do
    perform (.access .mfcCommand)
    perform (.dma (.writeEAL v))
  | .writeSizeTag v => do
    perform (.access .mfcCommand)
    perform (.dma (.writeSizeTag v))
  | .writeClassIdCmd v => do
    perform (.access .mfcCommand)
    perform (.dma (.writeClassIdCmd v))
  | .readCmdStatus => do
    perform (.access .mfcCommand)
    perform (.dma .readCmdStatus)
  | .writeQueryMask mask => do
    perform (.access .mfcCommand)
    perform (.dma (.writeQueryMask mask))
  | .readTagStatus mask => do
    perform (.access .mfcCommand)
    perform (.dma (.readTagStatus mask))
  | c => perform (.dma c)

/-- A call of the proxy DMA functions. -/
def dmaCode (spe : Spe) (c : Dma.Call) : Code Unit := do
  let priv ← perform .base
  (c.code ⟨priv.flags, priv.memMmapBase.isSome⟩).interp (implDma spe)

/-! ## Creation and destruction -/

/-- `mapfileat`; `none` is `MAP_FAILED`. -/
def mapfileat (dir : Fd) (filename : String) (size : Nat) : Code (Option Nat) := do
  match ← perform (.openat dir filename .rdwr) with
  | .error _ =>
    perform (.setErrno efault)
    return none
  | .ok fdTemp =>
    let ret ← perform (.mmap fdTemp size)
    perform (.close fdTemp)
    return ret

/-- The character that `setsignotify` writes: `'1'`. -/
def one : UInt8 := 0x31

/-- `setsignotify`. -/
def setsignotify (dir : Fd) (filename : String) : Code Int := do
  match ← perform (.openat dir filename .rdwr) with
  | .error _ => return -1
  | .ok fdSig =>
    -- `rc` becomes `-1` if this writes less, but it is `0` that is returned
    let _ ← perform (.write fdSig [one])
    perform (.close fdSig)
    return 0

/-- `munmap`, unless the base is `MAP_FAILED`. -/
def unmap (base : Option Nat) (size : Nat) : Code Unit :=
  match base with
  | none => return ()
  | some base => perform (.munmap base size)

/-- The loop of `free_spe_context` over the descriptors. -/
def closeFds (spe : Spe) : List FdName → Code Unit
  | [] => return ()
  | d :: ds => do
    let fd ← perform (.load (.speFdsArray spe d))
    if fd ≥ 0 then perform (.close fd)
    closeFds spe ds

/-- The areas of the problem state: the `psmap` mapping, or a mapping for each. -/
def unmapProblemState (priv : BasePriv) : Code Unit :=
  match priv.psmapMmapBase with
  | some base => perform (.munmap base psmapSize)
  | none => do
    unmap priv.mfcMmapBase mfcSize
    unmap priv.mssyncMmapBase mssSize
    unmap priv.cntlMmapBase cntlSize
    unmap priv.signal1MmapBase signalSize
    unmap priv.signal2MmapBase signalSize

/-- `free_spe_context`. -/
def freeSpeContext (spe : Spe) : Code Int := do
  let priv ← perform .base
  unmapProblemState priv
  unmap priv.memMmapBase lsSize
  closeFds spe fdNames
  if priv.fdSpeDir ≥ 0 then perform (.close priv.fdSpeDir)
  return 0

/-- `free_spe_context(spe); errno = e; return NULL;` -/
def abandon (spe : Spe) (e : Int) : Code Bool := do
  let _ ← freeSpeContext spe
  perform (.setErrno e)
  return false

/-- The descriptors of a new context. -/
def initFds (spe : Spe) : List FdName → Code Unit
  | [] => return ()
  | d :: ds => do
    perform (.store (.speFdsArray spe d) (-1))
    initFds spe ds

/-- The "sane defaults" of `_base_spe_context_create`. -/
def initPriv (spe : Spe) : Code Unit := do
  modifyBase fun priv => { priv with
    fdSpeDir := -1
    memMmapBase := none
    psmapMmapBase := none
    mssyncMmapBase := none
    mfcMmapBase := none
    cntlMmapBase := none
    signal1MmapBase := none
    signal2MmapBase := none
    loadedProgram := none }
  initFds spe fdNames

/-- The flags that the context gets: `SPE_ISOLATE` asks for `SPE_MAP_PS`. -/
def contextFlags (flags : UInt32) : UInt32 :=
  if flags &&& speIsolate ≠ 0 then flags ||| speMapPs else flags

/-- `spu_createflags`. -/
def spuCreateflags (flags : UInt32) (affSpe : Option Fd) : UInt32 :=
  (if flags &&& speNosched ≠ 0 then spuCreateNosched else 0) |||
  (if flags &&& speIsolate ≠ 0 then spuCreateIsolate ||| spuCreateNosched else 0) |||
  (if flags &&& speEventsEnable ≠ 0 then spuCreateEventsEnabled else 0) |||
  (if affSpe.isSome then spuCreateAffinitySpu else 0) |||
  (if flags &&& speAffinityMemory ≠ 0 then spuCreateAffinityMem else 0)

/-- The directory of a context, in that of its gang if it has one. -/
def contextPathname (gctx : Option String) (pid : Int) (addr : Nat) : String :=
  match gctx with
  | none => "/spu/spethread-" ++ toString pid ++ "-" ++ toString addr
  | some gangname => "/spu/" ++ gangname ++ "/spethread-" ++ toString pid ++ "-" ++ toString addr

/-- What `errno` becomes after a failed `spu_create`. -/
def maskErrno (flags : UInt32) (e : Int) : Int :=
  if e = enotsup ∨ e = eexist ∨ e = einval ∨ e = ebusy ∨ e = enodev then e
  else if e = eperm then
    -- for isolated mode, `EPERM` signals that this mode is not supported
    if flags &&& speIsolate ≠ 0 then enodev else e
  else efault

/-- Map each region of the problem state separately; the result says that none has been found to be
`MAP_FAILED`. -/
def mapRegions (dir : Fd) : Code Bool := do
  let mfc ← mapfileat dir "mfc" mfcSize
  modifyBase fun priv => { priv with mfcMmapBase := mfc }
  let mssync ← mapfileat dir "mss" mssSize
  modifyBase fun priv => { priv with mssyncMmapBase := mssync }
  let cntl ← mapfileat dir "cntl" cntlSize
  modifyBase fun priv => { priv with cntlMmapBase := cntl }
  let signal1 ← mapfileat dir "signal1" signalSize
  modifyBase fun priv => { priv with signal1MmapBase := signal1 }
  let signal2 ← mapfileat dir "signal2" signalSize
  modifyBase fun priv => { priv with signal2MmapBase := signal2 }
  -- `mssync_mmap_base` is not looked at
  return mfc.isSome && cntl.isSome && signal1.isSome && signal2.isSome

/-- Map the problem state, at once if possible. -/
def mapProblemState (dir : Fd) : Code Bool := do
  let psmap ← mapfileat dir "psmap" psmapSize
  modifyBase fun priv => { priv with psmapMmapBase := psmap }
  match psmap with
  | some base =>
    modifyBase fun priv => { priv with
      mssyncMmapBase := some (base + mssyncOffset)
      mfcMmapBase := some (base + mfcOffset)
      cntlMmapBase := some (base + cntlOffset)
      signal1MmapBase := some (base + signal1Offset)
      signal2MmapBase := some (base + signal2Offset) }
    return true
  | none => mapRegions dir

/-- `if (flags & SPE_MAP_PS) …`; `false` is a failure. -/
def mapProblemStateIf (flags : UInt32) (dir : Fd) : Code Bool :=
  if flags &&& speMapPs ≠ 0 then mapProblemState dir else return true

/-- `if (flags & …) setsignotify(…)`; `false` is a failure. -/
def setsignotifyIf (flags bit : UInt32) (dir : Fd) (filename : String) : Code Bool :=
  if flags &&& bit ≠ 0 then do
    let rc ← setsignotify dir filename
    return rc = 0
  else return true

/-- `_base_spe_context_create` from the mappings on, where `flags` are those of the context. -/
def mapContext (spe : Spe) (flags : UInt32) (dir : Fd) : Code Bool := do
  let mem ← mapfileat dir "mem" lsSize
  modifyBase fun priv => { priv with memMmapBase := mem }
  if mem = none then abandon spe enomem
  else
    let ok ← mapProblemStateIf flags dir
    if ok = false then abandon spe enomem
    else
      let ok ← setsignotifyIf flags speCfgSignotify1Or dir "signal1_type"
      if ok = false then abandon spe efault
      else
        let ok ← setsignotifyIf flags speCfgSignotify2Or dir "signal2_type"
        if ok = false then abandon spe efault
        else return true

/-- We need a loader present to run in emulated isolated mode. -/
def loaderMissing (flags : UInt32) : Code Bool :=
  if flags &&& speIsolateEmulate ≠ 0 then do
    let there ← perform .emulatedLoaderPresent
    return !there
  else return false

/-- `_base_spe_context_create`: the result says that it is not `NULL`. A gang is given by its name, a
context to be placed next to by its directory. -/
def baseSpeContextCreate (spe : Spe) (flags : UInt32) (gctx : Option String) (affSpe : Option Fd) :
    Code Bool := do
  if ← loaderMissing flags then
    perform (.setErrno einval)
    return false
  else
    match ← perform .malloc with
    | none => return false
    | some addr =>
      perform (.setEventPrivate false)
      match ← perform .malloc with
      | none => return false
      | some _ =>
        initPriv spe
        let pid ← perform .getpid
        let dir ← perform (.spuCreate (contextPathname gctx pid addr) (spuCreateflags flags affSpe)
          (affSpe.getD 0))
        match dir with
        | .error e => abandon spe (maskErrno flags e)
        | .ok dir =>
          modifyBase fun priv => { priv with fdSpeDir := dir }
          modifyBase fun priv => { priv with flags := contextFlags flags }
          mapContext spe (contextFlags flags) dir

/-- `_base_spe_context_destroy`. -/
def baseSpeContextDestroy (spe : Spe) : Code Int := freeSpeContext spe

/-- `_event_spe_context_initialize`: the result says that it is not `NULL`. -/
def eventSpeContextInitialize (spe : Spe) : Code Bool := do
  match ← perform .malloc with
  | none => return false
  | some _ =>
    perform (.store (.stopEventHandlerCount spe) 0)
    perform (.store (.stopEventBufferCount spe) 0)
    -- the pipe will be created when any stop event handler is registered
    perform (.store (.stopEventPipe spe 0) (-1))
    perform (.store (.stopEventPipe spe 1) (-1))
    return true

/-- `_event_spe_context_finalize`. -/
def eventSpeContextFinalize (spe : Spe) : Code Int := do
  perform (.setEventPrivate false)
  let _ ← sys (stopEventPipeClose spe)
  return 0

/-- What `spe_context_create` does with a context of the base layer: the result says that it is
returned. -/
def attachEvents (spe : Spe) (flags : UInt32) : Code Bool := do
  if flags &&& speEventsEnable ≠ 0 then
    let ok ← eventSpeContextInitialize spe
    perform (.setEventPrivate ok)
    if ok then return true
    else
      let _ ← baseSpeContextDestroy spe
      return false
  else
    perform (.setEventPrivate false)
    return true

/-- What `spe_context_create` and `spe_context_create_affinity` have in common. -/
def createContext (spe : Spe) (flags : UInt32) (gang : Option String) (affSpe : Option Fd) :
    Code Bool := do
  if ← baseSpeContextCreate spe flags gang affSpe then attachEvents spe flags else return false

/-- `spe_context_create`. -/
def speContextCreate (spe : Spe) (flags : UInt32) (gang : Option String) : Code Bool :=
  createContext spe flags gang none

/-- `spe_context_create_affinity`. -/
def speContextCreateAffinity (spe : Spe) (flags : UInt32) (affinityNeighbor : Option Fd)
    (gang : Option String) : Code Bool :=
  match gang with
  | none => do
    perform (.setErrno esrch)
    return false
  | some gang => createContext spe flags (some gang) affinityNeighbor

/-- `spe_context_destroy`. -/
def speContextDestroy (spe : Spe) : Code Int := do
  if ← perform .eventPrivate then
    let ret ← eventSpeContextFinalize spe
    if ret ≠ 0 then return ret else baseSpeContextDestroy spe
  else baseSpeContextDestroy spe

end LibSpe2.Ctx
