import LibSpe2.Context.Lifecycle
import LibSpe2.SpeBase.Run

/-!
# The calls on a context

Every call of `libspe2.h` on a context that has been created, one at a time: mailboxes, signals, proxy
DMA, multisource synchronisation, loading, running, and the registration of its events. Those of the
other modules are carried out as they are there; the rest of `spebase/mbox.c`, `spebase/dma.c` and
`spebase/load.c` is here.

* `Op`, `Op.code` — the calls.
* `session` — a context is created, used and destroyed.
-/

namespace LibSpe2.Ctx

open Conc

/-! ## Problem state and files -/

/-- A flag of the context is set. -/
def hasFlag (bit : UInt32) : Code Bool := do
  let priv ← perform .base
  return priv.flags &&& bit ≠ 0

/-- The `int` in the first bytes that were read, the most significant one first. -/
def bytesInt (bytes : List UInt8) : Int :=
  toInt32 ((bytes.take 4).foldl (fun n b => 256 * n + b.toNat) 0)

/-- The status of a mailbox: a field of `SPU_Mbox_Stat`, or what the file says. -/
def mboxStatus (spe : Spe) (fdesc : FdName) (field : Word → Int) : Code Int := do
  if ← hasFlag speMapPs then
    perform (.access .control)
    let stat ← perform (.sys (.readMboxStat spe))
    return field stat
  else
    let fd ← openIfClosed spe fdesc
    match ← perform (.sys (.read fd 4)) with
    | .ok bytes => return if bytes.length = 4 then bytesInt bytes else -1
    | .error _ => return -1

/-- `_base_spe_in_mbox_status`. -/
def baseSpeInMboxStatus (spe : Spe) : Code Int := mboxStatus spe .wboxStat statSpace

/-- `_base_spe_out_mbox_status`. -/
def baseSpeOutMboxStatus (spe : Spe) : Code Int := mboxStatus spe .mboxStat statEntries

/-- `_base_spe_out_intr_mbox_status`. -/
def baseSpeOutIntrMboxStatus (spe : Spe) : Code Int :=
  mboxStatus spe .iboxStat fun stat => ((stat >>> 16) &&& 0xFF).toNat

/-- `SPE_SIG_NOTIFY_REG_1`, `SPE_SIG_NOTIFY_REG_2`. -/
def speSigNotifyReg1 : UInt32 := 1
def speSigNotifyReg2 : UInt32 := 2

/-- A signal through its file, which is closed again. -/
def signalWriteFile (spe : Spe) (fdesc : FdName) (data : Word) : Code Int := do
  let fd ← openIfClosed spe fdesc
  let rc ← perform (.sys (.write fd (wordBytes data)))
  sys (baseSpeCloseIfOpen spe fdesc)
  return match rc with
    | .ok n => if n = 4 then 0 else n
    | .error _ => -1

/-- `_base_spe_signal_write`. -/
def baseSpeSignalWrite (spe : Spe) (signalReg : UInt32) (data : Word) : Code Int := do
  if ← hasFlag speMapPs then
    if signalReg = speSigNotifyReg1 then
      perform (.access .sigNotify1)
      return 0
    else if signalReg = speSigNotifyReg2 then
      perform (.access .sigNotify2)
      return 0
    else
      perform (.setErrno einval)
      return -1
  else if signalReg = speSigNotifyReg1 then signalWriteFile spe .sig1 data
  else if signalReg = speSigNotifyReg2 then signalWriteFile spe .sig2 data
  else
    perform (.setErrno einval)
    return -1

/-- `_base_spe_mssync_start`. -/
def baseSpeMssyncStart (spe : Spe) : Code Int := do
  if ← hasFlag speMapPs then
    perform (.access .mssync)
    return 0
  else
    let fd ← openIfClosed spe .mss
    if fd ≠ -1 then
      match ← perform (.sys (.write fd (wordBytes 1))) with
      | .ok _ => return 0
      | .error _ => return -1
    else return -1

/-- `_base_spe_mssync_status`. -/
def baseSpeMssyncStatus (spe : Spe) : Code Int := do
  if ← hasFlag speMapPs then
    perform (.access .mssync)
    let status ← perform .someWord
    return toInt32 status.toNat
  else
    let fd ← openIfClosed spe .mss
    if fd ≠ -1 then
      match ← perform (.sys (.read fd 4)) with
      | .ok bytes => return bytesInt bytes
      | .error _ => return -1
    else return -1

/-- `_base_spe_ps_area_get`; `none` is `NULL`. -/
def baseSpePsAreaGet (area : PsArea) : Code (Option Nat) := do
  let priv ← perform .base
  match priv.area area with
  | none =>
    perform (.setErrno eacces)
    return none
  | some ptr => return some ptr

/-! ## Loading -/

/-- `_base_spe_program_load_complete`. -/
def baseSpeProgramLoadComplete : Code Unit := do
  let priv ← perform .base
  match priv.loadedProgram.bind (·.elfImage) with
  | none => return ()
  | some image =>
    match ← perform (.openat priv.fdSpeDir "object-id" .rdwr) with
    | .error _ => return ()
    | .ok objfd =>
      let _ ← perform (.write objfd ((toString image).toUTF8.toList ++ [0]))
      perform (.close objfd)

/-- The three writes of `__write_isolated_load_params`, up to the first that fails. -/
def writeWords (fd : Fd) : List Word → Code Int
  | [] => return 0
  | w :: ws => do
    match ← perform (.sys (.write fd (wordBytes w))) with
    | .ok n => if n = 4 then writeWords fd ws else return -1
    | .error _ => return -1

/-- `__write_isolated_load_params`. -/
def writeIsolatedLoadParams (spe : Spe) (addrH addrL size : Word) : Code Int := do
  let fd ← openIfClosed spe .wbox
  if fd < 0 then return -1 else writeWords fd [addrH, addrL, size]

/-- Fail with `-errno`. -/
def failNeg (e : Int) : Code Int := do
  perform (.setErrno e)
  return -e

/-- `spe_start_isolated_app`. -/
def speStartIsolatedApp (spe : Spe) (handle : ProgramHandle) : Code Int := do
  let (rc, addr, size) ← perform (.parseIsolatedElf handle)
  if rc ≠ 0 then failNeg enoexec
  else if addr &&& 0xf ≠ 0 then failNeg einval
  else
    let rc ← writeIsolatedLoadParams spe (addr >>> 32).toUInt32 addr.toUInt32 size
    if rc ≠ 0 then failNeg eio else return 0

/-- `spe_start_emulated_isolated_app`: its result, and `entry` if it was written. -/
def speStartEmulatedIsolatedApp (spe : Spe) (handle : ProgramHandle) :
    Code (Int × Option UInt32) := do
  match ← perform .loadEmulatedLoader with
  | none => return (-1, none)
  | some (rc, entry) =>
    if rc ≠ 0 then return (rc, none)
    else
      let rc ← speStartIsolatedApp spe handle
      return (rc, some entry)

/-- The load itself, with `entry` if it was written. -/
def loadProgram (spe : Spe) (flags : UInt32) (program : ProgramHandle) :
    Code (Int × Option UInt32) := do
  if flags &&& speIsolate ≠ 0 then
    let rc ← speStartIsolatedApp spe program
    return (rc, none)
  else if flags &&& speIsolateEmulate ≠ 0 then speStartEmulatedIsolatedApp spe program
  else
    let (rc, entry) ← perform (.loadSpeElf program)
    if rc = 0 then baseSpeProgramLoadComplete
    return (rc, some entry)

/-- `_base_spe_program_load`. -/
def baseSpeProgramLoad (spe : Spe) (program : ProgramHandle) : Code Int := do
  modifyBase fun priv => { priv with loadedProgram := some program }
  let priv ← perform .base
  let (rc, entry) ← loadProgram spe priv.flags program
  if rc ≠ 0 then return -1
  else
    let garbage ← perform .someWord
    modifyBase fun priv => { priv with
      entry := entry.getD garbage
      emulatedEntry := entry.getD garbage }
    return 0

/-- `spe_program_load`, with `none` for `NULL`. -/
def speProgramLoad (spe : Spe) (program : Option ProgramHandle) : Code Int :=
  match program with
  | none => do
    perform (.setErrno einval)
    return -1
  | some program => baseSpeProgramLoad spe program

/-! ## What the helpers leave alone -/

/-- A command that neither stores the base record nor looks at `event_private`. -/
def Cmd.Inner : Cmd → Prop
  | .setBase _ | .eventPrivate | .setEventPrivate _ => False
  | _ => True

theorem inner_implSys (c : LibSpe2.Cmd) : (implSys (perform (.sys (.baseRun 0))) c).All Cmd.Inner := by
  cases c with
  | flags =>
    apply Prog.All.bind (.perform trivial)
    intro priv
    trivial
  | openat | readMboxStat | readOutMbox | writeInMbox =>
    apply Prog.All.bind (.perform trivial)
    intro r
    exact .perform trivial
  | _ => exact .perform trivial

theorem inner_sys {α : Type} (p : Sys α) : (sys p).All Cmd.Inner :=
  (Prog.all_true p).interp fun c _ => inner_implSys c

theorem inner_writeWords (fd : Fd) (ws : List Word) : (writeWords fd ws).All Cmd.Inner := by
  induction ws with
  | nil => trivial
  | cons w ws ih =>
    apply Prog.All.bind (.perform trivial)
    intro r
    split
    · split
      · exact ih
      · trivial
    · trivial

theorem inner_writeIsolatedLoadParams (spe : Spe) (addrH addrL size : Word) :
    (writeIsolatedLoadParams spe addrH addrL size).All Cmd.Inner := by
  apply Prog.All.bind (inner_sys _)
  intro fd
  split
  · trivial
  · exact inner_writeWords _ _

theorem inner_programLoadComplete : baseSpeProgramLoadComplete.All Cmd.Inner := by
  apply Prog.All.bind (.perform trivial)
  intro priv
  split
  · trivial
  · apply Prog.All.bind (.perform trivial)
    intro r
    split
    · trivial
    · exact ⟨trivial, fun _ => ⟨trivial, fun _ => trivial⟩⟩

/-! ## Running -/

/-- The address that a base is passed to a program as; `MAP_FAILED` is `-1`. -/
def baseAddr (base : Option Nat) : UInt64 :=
  match base with
  | none => 0xffffffffffffffff
  | some base => .ofNat base

/-- What a run reads of the context. -/
def BasePriv.runContext (priv : BasePriv) (spe : Spe) : Run.Context where
  flags := priv.flags
  entry := priv.entry
  fdSpeDir := priv.fdSpeDir
  memMmapBase := baseAddr priv.memMmapBase
  cntlMmapBase := priv.cntlMmapBase.map .ofNat
  self := .ofNat spe

/-- How the commands of `Run` are carried out. -/
def implRun : (c : Run.Cmd) → Code (Run.Ans c)
  | .programLoadComplete => baseSpeProgramLoadComplete
  | .storeRunCntl v => do
    perform (.access .control)
    perform (.run (.storeRunCntl v))
  | c => perform (.run c)

/-- `_base_spe_context_run`. -/
def baseSpeContextRun (spe : Spe) (args : Run.Args) : Code Int := do
  let priv ← perform .base
  let res ← (Run.contextRun (priv.runContext spe) args.entry priv.emulatedEntry args.runflags
    args.argp args.envp).interp implRun
  modifyBase fun priv => { priv with emulatedEntry := res.frame.emulatedEntry }
  return res.retval

/-- A run whose stop info the event layer passes on; the bytes of that object are not described. -/
def baseRun (spe : Spe) (args : Run.Args) : Code (Int × StopInfo) := do
  let rc ← baseSpeContextRun spe args
  let (_, stopinfo) ← perform (.sys (.baseRun spe))
  return (rc, stopinfo)

/-- `spe_context_run`. -/
def speContextRun (spe : Spe) (args : Run.Args) : Code Int := do
  if ← perform .eventPrivate then
    (eventSpeContextRun spe).interp (implSys (baseRun spe args))
  else baseSpeContextRun spe args

/-- `spe_stop_info_read`: its result. -/
def speStopInfoRead (spe : Spe) : Code Int := do
  if ← perform .eventPrivate then
    let (rc, _) ← sys (eventSpeStopInfoRead spe)
    return rc
  else
    perform (.setErrno enotsup)
    return -1

/-! ## Calls -/

/-- A `spe_event_unit_t` for the context: its events and its data. -/
abbrev EventOf := UInt32 × UInt64

/-- What `event` points to, with the context in it. -/
def eventArg (spe : Spe) (event : Option EventOf) : Option EventArg :=
  event.map fun (events, data) => ⟨events, some spe, data⟩

inductive Op where
  | outMboxRead (mboxData : Option (List UInt8)) (count : Int)
  | inMboxWrite (mboxData : Option (List Word)) (count behaviorFlag : Int)
  | outIntrMboxRead (mboxData : Option (List UInt8)) (count behaviorFlag : Int)
  | inMboxStatus
  | outMboxStatus
  | outIntrMboxStatus
  | signalWrite (signalReg : UInt32) (data : Word)
  | mfcio (c : Dma.Call)
  | mssyncStart
  | mssyncStatus
  | psAreaGet (area : PsArea)
  | programLoad (program : Option ProgramHandle)
  | contextRun (args : Run.Args)
  | stopInfoRead
  | eventHandlerRegister (evhandler : Option Handler) (event : Option EventOf)
  | eventHandlerDeregister (evhandler : Option Handler) (event : Option EventOf)

/-- The code of a call, its result dropped. -/
def Op.code (spe : Spe) : Op → Code Unit
  | .outMboxRead data count => do let _ ← sys (baseSpeOutMboxRead spe data count)
  | .inMboxWrite data count behavior => do let _ ← sys (baseSpeInMboxWrite spe data count behavior)
  | .outIntrMboxRead data count behavior => do
    let _ ← sys (baseSpeOutIntrMboxRead spe data count behavior)
  | .inMboxStatus => do let _ ← baseSpeInMboxStatus spe
  | .outMboxStatus => do let _ ← baseSpeOutMboxStatus spe
  | .outIntrMboxStatus => do let _ ← baseSpeOutIntrMboxStatus spe
  | .signalWrite reg data => do let _ ← baseSpeSignalWrite spe reg data
  | .mfcio c => dmaCode spe c
  | .mssyncStart => do let _ ← baseSpeMssyncStart spe
  | .mssyncStatus => do let _ ← baseSpeMssyncStatus spe
  | .psAreaGet area => do let _ ← baseSpePsAreaGet area
  | .programLoad program => do let _ ← speProgramLoad spe program
  | .contextRun args => do let _ ← speContextRun spe args
  | .stopInfoRead => do let _ ← speStopInfoRead spe
  | .eventHandlerRegister h event => do
    let _ ← sys (eventSpeEventHandlerRegister h (eventArg spe event))
  | .eventHandlerDeregister h event => do
    let _ ← sys (eventSpeEventHandlerDeregister h (eventArg spe event))

/-- Calls one after the other. -/
def ops (spe : Spe) : List Op → Code Unit
  | [] => return ()
  | op :: rest => do
    op.code spe
    ops spe rest

/-- The calls that create a context. -/
inductive Creation where
  | create (flags : UInt32) (gang : Option String)
  | createAffinity (flags : UInt32) (affinityNeighbor : Option Fd) (gang : Option String)

def Creation.code (spe : Spe) : Creation → Code Bool
  | .create flags gang => speContextCreate spe flags gang
  | .createAffinity flags neighbor gang => speContextCreateAffinity spe flags neighbor gang

/-- A context is created, used and destroyed; the result says that it was created. -/
def session (spe : Spe) (creation : Creation) (calls : List Op) : Code Bool := do
  if ← creation.code spe then
    ops spe calls
    let _ ← speContextDestroy spe
    return true
  else return false

end LibSpe2.Ctx
