import LibSpe2.Conc.Prog
import LibSpe2.Constants
import Mathlib.Data.List.Basic

/-!
# Running a context (`spebase/run.c`, `spebase/regs.c`)

`_base_spe_context_run` as a program over what it asks of its surroundings: the `spu_run` system
call, the library callbacks, the control register and the thread's list of active contexts. Whatever
these answer is data of the trace, so a statement about every trace is one about every sequence of
`spu_run` results and callback results.

* `contextRun` — the function, its `do_run` loop being `doRun`.
* A member of the caller's stop info is an `Option`: `none` is what the caller left there.
-/

namespace LibSpe2.Run

open Conc

/-! ## Constants -/

def speRunUserRegs : UInt32 := 0x1
def speNoCallbacks : UInt32 := 0x2

def speDefaultEntry : UInt32 := 0xffffffff

/-- The bits of a `spu_run` result. -/
def speSpuStoppedByStop : UInt32 := 0x02
def speSpuHalt : UInt32 := 0x04
def speSpuWaitingOnChannel : UInt32 := 0x08
def speSpuInvalidInstr : UInt32 := 0x20
def speSpuInvalidChannel : UInt32 := 0x40

/-- Groups of stop codes. -/
def speProgramLibraryCall : UInt32 := 0x2100
def speProgramIsolatedStop : UInt32 := 0x2200
def speProgramIsoLoadComplete : UInt32 := 0x2206

def eperm : Int := 1
def eio : Int := 5
def efault : Int := 14

/-! ## Data -/

/-- `struct spe_reg128`. -/
structure Reg128 where
  slot₀ : UInt32
  slot₁ : UInt32
  slot₂ : UInt32
  slot₃ : UInt32

def Reg128.zero : Reg128 := ⟨0, 0, 0, 0⟩

/-- The two words of an `addr64` in the first two slots. -/
def Reg128.ofAddr (a : UInt64) : Reg128 := ⟨(a >>> 32).toUInt32, a.toUInt32, 0, 0⟩

/-- `struct spe_reg_state`. -/
structure RegState where
  r3 : Reg128
  r4 : Reg128
  r5 : Reg128
  r6 : Reg128
  entry : Reg128

/-- The members of `spe_context_base_priv` that a run reads; `emulated_entry`, which it also writes,
is in `Frame`. -/
structure Context where
  flags : UInt32
  entry : UInt32
  fdSpeDir : Int
  memMmapBase : UInt64
  /-- `none` is `MAP_FAILED`. -/
  cntlMmapBase : Option UInt64
  /-- The address of the context itself. -/
  self : UInt64

/-- A flag of a context or of a run is set. -/
def has (flags bit : UInt32) : Bool := flags &&& bit ≠ 0

/-- The constants for `stop_reason`. -/
inductive StopReason where
  | exit | stopAndSignal | runtimeError | runtimeException | runtimeFatal | callbackError
  | isolationError
  deriving DecidableEq

/-- The union `result`, by the member that was written. -/
inductive StopResult where
  | speExitCode (n : UInt32)
  | speSignalCode (n : UInt32)
  | speRuntimeError (n : UInt32)
  | speRuntimeException (n : UInt32)
  | speRuntimeFatal (n : Int)
  | speCallbackError (n : Int)
  | speIsolationError (n : UInt32)
  deriving DecidableEq

/-- The member that belongs to a stop reason. -/
def StopResult.reason : StopResult → StopReason
  | .speExitCode _ => .exit
  | .speSignalCode _ => .stopAndSignal
  | .speRuntimeError _ => .runtimeError
  | .speRuntimeException _ => .runtimeException
  | .speRuntimeFatal _ => .runtimeFatal
  | .speCallbackError _ => .callbackError
  | .speIsolationError _ => .isolationError

/-- A member of the union, read through any other: each is an `int` at its beginning. -/
def StopResult.value : StopResult → Int
  | .speExitCode n | .speSignalCode n | .speRuntimeError n | .speRuntimeException n | .speIsolationError n =>
    n.toInt32.toInt
  | .speRuntimeFatal n | .speCallbackError n => n

/-- `spe_stop_info_t`, as far as this call has written it. -/
structure StopInfo where
  stopReason : Option StopReason
  result : Option StopResult
  spuStatus : Option UInt32
  deriving DecidableEq

def StopInfo.untouched : StopInfo := ⟨none, none, none⟩

/-- What `spu_run` comes back with: its result (`-1` is `0xffffffff`), the next program counter, the
event status word and `errno`. -/
structure SpuRun where
  rc : UInt32
  npc : UInt32
  status : UInt32
  errno : Int
  deriving DecidableEq

/-- What a run asks of its surroundings. -/
inductive Cmd where
  /-- The 48 bytes at `argp`. -/
  | readUserRegs
  /-- Copy the start-up code with these registers to the end of local store. -/
  | storeTrampoline (regs : RegState)
  /-- The list behind `__spe_current_active_context`. -/
  | enterActive (speId : Int)
  | activeNpc (npc : UInt32)
  | activeStatus (status : UInt32)
  | freespeinfo
  | cleanupspeinfo
  | spuRun (npc : UInt32)
  /-- `_base_spe_handle_library_callback`. -/
  | handleLibraryCallback (callnum npc : UInt32)
  /-- `_base_spe_program_load_complete`. -/
  | programLoadComplete
  /-- A store to `SPU_RunCntl`. -/
  | storeRunCntl (v : UInt32)
  | setErrno (e : Int)

@[reducible] def Ans : Cmd → Type
  | .readUserRegs => Reg128 × Reg128 × Reg128
  | .spuRun _ => SpuRun
  | .handleLibraryCallback _ _ => Int
  | _ => Unit

abbrev Code := Prog Cmd Ans

abbrev perform (c : Cmd) : Code (Ans c) := Prog.perform c

/-! ## The code -/

/-- `issue_isolated_exit`. -/
def issueIsolatedExit (spe : Context) : Code Int :=
  match spe.cntlMmapBase with
  | none => return -1
  | some _ => do
    -- an isolated exit request
    perform (.storeRunCntl 0x2)
    return 0

/-- `_base_spe_setup_registers`: its result and the address to start from. -/
def setupRegisters (regs : RegState) : Code (Int × UInt32) := do
  let baseAddr : UInt32 := 0x40000 - 128
  perform (.storeTrampoline regs)
  return (0, baseAddr + 80)

/-- The 14-bit stop code of a `spu_run` result. -/
def stopCode (rc : UInt32) : UInt32 := (rc >>> 16) &&& 0x3fff

/-- What lasts from one round of `do_run` to the next: the npc, `*entry`, `emulated_entry` and the
stop info. -/
structure Frame where
  tmpEntry : UInt32
  entry : UInt32
  emulatedEntry : UInt32
  stopinfo : StopInfo

/-- `retval` with what the caller can see. -/
structure Result where
  retval : Int
  frame : Frame

/-- Set `stop_reason` and its member of `result`. -/
def Frame.report (f : Frame) (r : StopResult) : Frame :=
  { f with stopinfo := { f.stopinfo with stopReason := some r.reason, result := some r } }

/-- The frame after `spu_run`. -/
def Frame.ran (f : Frame) (spe : Context) (run : SpuRun) : Frame where
  tmpEntry := run.npc
  -- in emulated isolated mode, save the entry point and pretend that the npc is zero
  entry := if has spe.flags speIsolateEmulate then 0 else run.npc
  emulatedEntry := if has spe.flags speIsolateEmulate then run.npc else f.emulatedEntry
  stopinfo := { f.stopinfo with spuStatus := some run.rc }

/-- `spu_status = -1`. -/
def Frame.noStatus (f : Frame) : Frame :=
  { f with stopinfo := { f.stopinfo with spuStatus := some 0xffffffff } }

/-- Leave with `-1`, having set `errno`. -/
def failWith (f : Frame) (e : Int) : Code (Frame ⊕ Result) := do
  perform (.setErrno e)
  return .inr ⟨-1, f⟩

/-- The branch for a stop-and-signal instruction. -/
def stopped (spe : Context) (runflags : UInt32) (run : SpuRun) (f : Frame) :
    Code (Frame ⊕ Result) := do
  let stopcode := stopCode run.rc
  if stopcode &&& 0xff00 = speProgramLibraryCall ∧ has runflags speNoCallbacks = false then
    let callbackRc ← perform (.handleLibraryCallback (stopcode &&& 0xff) f.entry)
    if callbackRc ≠ 0 then
      failWith (f.report (.speCallbackError callbackRc)) efault
    else
      -- restart the SPE program at the next instruction
      return .inl { f with tmpEntry := f.tmpEntry + 4 }
  else if stopcode &&& 0xff00 = speProgramNormalEnd then
    let f := f.report (.speExitCode (stopcode &&& 0xff))
    if has spe.flags speIsolate then
      -- issue an isolated exit, and re-run the SPE
      if (← issueIsolatedExit spe) = 0 then return .inl f else return .inr ⟨-1, f⟩
    else
      return .inr ⟨0, f⟩
  else if stopcode &&& 0xfff0 = speProgramIsolatedStop then
    if stopcode = speProgramIsoLoadComplete then
      perform .programLoadComplete
      return .inl f
    else
      failWith (f.report (.speIsolationError (stopcode &&& 0xf))) efault
  else if has spe.flags speIsolate ∧ run.rc &&& 0x80 = 0 then
    -- successfully exited isolated mode
    return .inr ⟨0, f⟩
  else
    return .inr ⟨stopcode.toNat, f.report (.speSignalCode stopcode)⟩

/-- What a round of `do_run` does with what `spu_run` has returned. -/
def afterRun (spe : Context) (runflags : UInt32) (run : SpuRun) (f : Frame) : Code (Frame ⊕ Result) := do
  perform (.activeNpc run.npc)
  perform (.activeStatus run.status)
  let f := f.ran spe run
  if run.rc = 0xffffffff then
    let f := f.report (.speRuntimeFatal run.errno)
    -- for isolated contexts, pass EPERM up to the caller
    if has spe.flags speIsolate ∧ run.errno = eperm then return .inr ⟨-1, f⟩
    else failWith f efault
  else if has run.rc speSpuInvalidInstr then
    failWith (f.report (.speRuntimeError speSpuInvalidInstr)) efault
  else if has spe.flags speEventsEnable ∧ run.status ≠ 0 then
    failWith (f.report (.speRuntimeException run.status)).noStatus eio
  else if has run.rc speSpuStoppedByStop then
    stopped spe runflags run f
  else if has run.rc speSpuHalt then
    failWith (f.report (.speRuntimeError speSpuHalt)) efault
  else if has run.rc speSpuWaitingOnChannel then
    failWith (f.report (.speRuntimeException run.status)).noStatus eio
  else if has run.rc speSpuInvalidChannel then
    failWith (f.report (.speRuntimeError speSpuInvalidChannel)) efault
  else
    failWith (f.report (.speRuntimeFatal (-1))).noStatus efault

/-- One round of `do_run`. -/
def doRun (spe : Context) (runflags : UInt32) (f : Frame) : Code (Frame ⊕ Result) := do
  perform (.activeNpc f.tmpEntry)
  let run ← perform (.spuRun f.tmpEntry)
  afterRun spe runflags run f

/-- The start address of a run. -/
def startEntry (spe : Context) (entry emulatedEntry : UInt32) : UInt32 :=
  if has spe.flags speIsolateEmulate then emulatedEntry
  else if entry = speDefaultEntry then spe.entry
  else entry

/-- The registers of a program that starts at its entry point. -/
def startRegs (spe : Context) (runflags tmpEntry : UInt32) (argp envp : UInt64) : Code RegState := do
  let r6 := Reg128.ofAddr spe.memMmapBase
  let entry : Reg128 := ⟨tmpEntry, 0, 0, 0⟩
  if has runflags speRunUserRegs then
    let (r3, r4, r5) ← perform .readUserRegs
    return ⟨r3, r4, r5, r6, entry⟩
  else
    return ⟨.ofAddr spe.self, .ofAddr argp, .ofAddr envp, r6, entry⟩

/-- The arguments of `main` for a program that starts at its original entry point: the result of
`_base_spe_setup_registers` and the address to start from. -/
def setupArguments (spe : Context) (runflags tmpEntry : UInt32) (argp envp : UInt64) :
    Code (Int × UInt32) := do
  if tmpEntry = spe.entry ∧ spe.flags &&& (speIsolate ||| speIsolateEmulate) = 0 then
    let regs ← startRegs spe runflags tmpEntry argp envp
    setupRegisters regs
  else
    return (0, tmpEntry)

/-- The arguments of `spe_context_run`, the entry as the caller gives it. -/
structure Args where
  entry : UInt32
  runflags : UInt32
  argp : UInt64
  envp : UInt64

/-- `_base_spe_context_run`. A caller without a stop info gets one of the call's own. -/
def contextRun (spe : Context) (entry emulatedEntry runflags : UInt32) (argp envp : UInt64) :
    Code Result := do
  let tmpEntry := startEntry spe entry emulatedEntry
  let (rc, tmpEntry) ← setupArguments spe runflags tmpEntry argp envp
  let f : Frame := ⟨tmpEntry, entry, emulatedEntry, .untouched⟩
  if rc ≠ 0 then
    perform .cleanupspeinfo
    return ⟨-1, f⟩
  else
    perform (.enterActive spe.fdSpeDir)
    let res ← Prog.repeats (doRun spe runflags) f
    perform .freespeinfo
    perform .cleanupspeinfo
    return res

end LibSpe2.Run
