import LibSpe2.Conc.Solo
import LibSpe2.Sys.World

/-!
# Proxy DMA (`spebase/dma.c`)

DMA commands issued from the PPE side, and the status of their tags. On a context with `SPE_MAP_PS`
both go through the registers of the MFC's proxy command area, one access at a time and under the lock
of `FD_MFC`; otherwise through the spufs file `mfc`.

* `Cmd`, `exec` — the accesses of a thread, and what they do to the context and to its MFC.
* A command is latched from the five registers by the write of `MFC_ClassID_CMD`. The MFC's decision is
  the answer of that write, and what `MFC_CMDStatus` says from then on: it has accepted the command if
  the two low bits are clear.
* `accepted`, `issued`, `samples` and `unreported` are history, which no code reads.
-/

namespace LibSpe2.Dma

open Conc

/-! ## Data -/

/-- `enum mfc_cmd`. -/
inductive MfcCmd where
  | put | putb | putf | get | getb | getf
  deriving DecidableEq

def MfcCmd.code : MfcCmd → UInt32
  | .put => 0x20
  | .putb => 0x21
  | .putf => 0x22
  | .get => 0x40
  | .getb => 0x41
  | .getf => 0x42

/-- The arguments of `issue_mfc_command`. -/
structure Parms where
  lsa : UInt32
  ea : UInt64
  size : UInt32
  tag : UInt32
  tid : UInt32
  rid : UInt32
  cmd : MfcCmd
  deriving DecidableEq

/-- The registers a command is latched from. -/
structure CmdRegs where
  lsa : UInt32
  eah : UInt32
  eal : UInt32
  sizeTag : UInt32
  classIdCmd : UInt32
  deriving DecidableEq

/-- The fields of a command of the MFC: all of them from one call. -/
def Parms.regs (p : Parms) : CmdRegs where
  lsa := p.lsa
  eah := (p.ea >>> 32).toUInt32
  eal := p.ea.toUInt32
  sizeTag := (p.size <<< 16) ||| p.tag
  classIdCmd := (p.tid <<< 24) ||| (p.rid <<< 16) ||| p.cmd.code

/-- The bit of a tag. -/
def tagBit (tag : UInt32) : UInt32 := 1 <<< tag

/-- `struct mfc_command_parameter_area`. -/
structure MfcCommandParameterArea where
  lsa : UInt32
  ea : UInt64
  size : UInt16
  tag : UInt16
  class_ : UInt16
  cmd : UInt16

/-- What the functions read of a context once it is created. -/
structure Context where
  flags : UInt32
  /-- `mem_mmap_base` is not `MAP_FAILED`. -/
  memMapped : Bool

def Context.mapPs (spe : Context) : Bool := spe.flags &&& speMapPs ≠ 0

/-- `SPE_TAG_ALL`, `SPE_TAG_ANY` and `SPE_TAG_IMMEDIATE`. -/
def speTagAll : UInt32 := 1
def speTagAny : UInt32 := 2
def speTagImmediate : UInt32 := 3

/-! ## Accesses -/

inductive Cmd where
  /-- The lock of `FD_MFC`. -/
  | lock
  | unlock
  | loadActive
  | storeActive (mask : UInt32)
  | readQStatus
  | writeLSA (v : UInt32)
  | writeEAH (v : UInt32)
  | writeEAL (v : UInt32)
  | writeSizeTag (v : UInt32)
  | writeClassIdCmd (v : UInt32)
  | readCmdStatus
  | writeQueryMask (mask : UInt32)
  /-- Sample `Prxy_TagStatus` in a call that asks for `mask`. -/
  | readTagStatus (mask : UInt32)
  | setErrno (e : Errno)
  /-- The spufs file, and the copy that stands in for a DMA. -/
  | openIfClosed (d : FdName)
  | writeFile (fd : Fd) (parm : MfcCommandParameterArea)
  | fsync (fd : Fd)
  | poll (fd : Fd)
  | readFile (fd : Fd)
  | copyFromLs (dst : UInt64) (src size : UInt32)
  | copyToLs (dst : UInt32) (src : UInt64) (size : UInt32)
  /-- History: the call is about to return `0`, or to return a tag status. -/
  | noteIssued (p : Parms)
  | noteReported (status : UInt32)

@[reducible] def Ans : Cmd → Type
  | .loadActive => UInt32
  | .readQStatus => UInt32
  | .writeClassIdCmd _ => UInt32
  | .readCmdStatus => UInt32
  | .readTagStatus _ => UInt32
  | .openIfClosed _ => Fd
  | .writeFile _ _ => Int
  | .fsync _ => Int
  | .poll _ => Int × Bool
  | .readFile _ => Int × UInt32
  | _ => Unit

/-- A context and its MFC. -/
structure World where
  owner : Option Tid
  activeTagmask : UInt32
  regs : CmdRegs
  cmdStatus : UInt32
  queryMask : UInt32
  /-- The commands that the MFC has accepted, with the threads that wrote them (history). -/
  accepted : List (Tid × CmdRegs)
  /-- The calls that return `0` (history). -/
  issued : List (Tid × Parms)
  /-- The mask asked for and the query mask at each sample (history). -/
  samples : List (UInt32 × UInt32)
  /-- The tags of issued commands that no returned status has reported complete (history). -/
  unreported : UInt32

/-- `exec t c r s`: the state after thread `t` did `c` in `s` and was answered `r`. -/
def exec (t : Tid) : (c : Cmd) → Ans c → World → Option World
  | .lock, _, s => if s.owner = none then some { s with owner := some t } else none
  | .unlock, _, s => if s.owner = some t then some { s with owner := none } else none
  | .loadActive, r, s => if r = s.activeTagmask then some s else none
  | .storeActive mask, _, s => some { s with activeTagmask := mask }
  | .writeLSA v, _, s => some { s with regs := { s.regs with lsa := v } }
  | .writeEAH v, _, s => some { s with regs := { s.regs with eah := v } }
  | .writeEAL v, _, s => some { s with regs := { s.regs with eal := v } }
  | .writeSizeTag v, _, s => some { s with regs := { s.regs with sizeTag := v } }
  | .writeClassIdCmd v, r, s =>
    let regs := { s.regs with classIdCmd := v }
    some { s with
      regs := regs
      cmdStatus := r
      accepted := if r &&& 3 = 0 then s.accepted ++ [(t, regs)] else s.accepted }
  | .readCmdStatus, r, s => if r = s.cmdStatus then some s else none
  | .writeQueryMask mask, _, s => some { s with queryMask := mask }
  | .readTagStatus mask, _, s => some { s with samples := s.samples ++ [(mask, s.queryMask)] }
  | .noteIssued p, _, s =>
    some { s with issued := s.issued ++ [(t, p)], unreported := s.unreported ||| tagBit p.tag }
  | .noteReported status, _, s => some { s with unreported := s.unreported &&& ~~~status }
  | _, _, s => some s

def machine : Machine Cmd Ans Tid World := ⟨exec⟩

abbrev Code := Prog Cmd Ans

abbrev perform (c : Cmd) : Code (Ans c) := Prog.perform c

/-! ## Issuing a command -/

/-- `while ((cmd_area->MFC_QStatus & 0x0000FFFF) == 0) ;` -/
def waitForQueue : Code Unit :=
  Prog.repeats (fun _ => do
    let q ← perform .readQStatus
    return if q &&& 0xffff = 0 then .inl () else .inr ()) ()

/-- The five writes of a command, again until the MFC accepts it. -/
def enqueue (p : Parms) : Code Unit :=
  Prog.repeats (fun _ => do
    perform (.writeLSA p.lsa)
    perform (.writeEAH (p.ea >>> 32).toUInt32)
    perform (.writeEAL p.ea.toUInt32)
    perform (.writeSizeTag ((p.size <<< 16) ||| p.tag))
    let _ ← perform (.writeClassIdCmd ((p.tid <<< 24) ||| (p.rid <<< 16) ||| p.cmd.code))
    let ret ← perform .readCmdStatus
    -- at least one of the two bits is set
    return if ret &&& 3 ≠ 0 then .inl () else .inr ()) ()

/-- The problem-state path of `issue_mfc_command`. -/
def issueMapped (p : Parms) : Code Int := do
  perform .lock
  let active ← perform .loadActive
  perform (.storeActive (active ||| tagBit p.tag))
  waitForQueue
  enqueue p
  perform (.noteIssued p)
  perform .unlock
  return 0

/-- The spufs path of `issue_mfc_command`; `1` says that the kernel does not support DMA. -/
def issueFile (p : Parms) : Code Int := do
  let fd ← perform (.openIfClosed .mfc)
  if fd ≠ -1 then
    let ret ← perform (.writeFile fd
      { lsa := p.lsa, ea := p.ea, size := p.size.toUInt16, tag := p.tag.toUInt16
        class_ := ((p.tid <<< 8) ||| p.rid).toUInt16, cmd := p.cmd.code.toUInt16 })
    return if ret < 0 then -1 else 0
  else
    return 1

/-- `issue_mfc_command`. -/
def issueMfcCommand (spe : Context) (p : Parms) : Code Int := do
  -- tag 16-31 are reserved by kernel
  if p.tag > 0x0f ∨ p.tid > 0xff ∨ p.rid > 0xff then
    perform (.setErrno .EINVAL)
    return -1
  else if spe.mapPs then issueMapped p
  else issueFile p

/-- `spe_do_mfc_put`. -/
def speDoMfcPut (spe : Context) (src : UInt32) (dst : UInt64) (size tag tid rid : UInt32)
    (cmd : MfcCmd) : Code Int := do
  let ret ← issueMfcCommand spe ⟨src, dst, size, tag, tid, rid, cmd⟩
  if ret ≤ 0 then return ret
  else if spe.memMapped then
    -- the kernel does not support DMA, so just copy directly
    perform (.copyFromLs dst src size)
    return 0
  else
    perform (.setErrno .EINVAL)
    return -1

/-- `spe_do_mfc_get`. -/
def speDoMfcGet (spe : Context) (dst : UInt32) (src : UInt64) (size tag tid rid : UInt32)
    (cmd : MfcCmd) : Code Int := do
  let ret ← issueMfcCommand spe ⟨dst, src, size, tag, tid, rid, cmd⟩
  if ret ≤ 0 then return ret
  else if spe.memMapped then
    perform (.copyToLs dst src size)
    return 0
  else
    perform (.setErrno .EINVAL)
    return -1

def baseSpeMfcioPut (spe : Context) (ls : UInt32) (ea : UInt64) (size tag tid rid : UInt32) :
    Code Int := speDoMfcPut spe ls ea size tag tid rid .put

def baseSpeMfcioPutb (spe : Context) (ls : UInt32) (ea : UInt64) (size tag tid rid : UInt32) :
    Code Int := speDoMfcPut spe ls ea size tag tid rid .putb

def baseSpeMfcioPutf (spe : Context) (ls : UInt32) (ea : UInt64) (size tag tid rid : UInt32) :
    Code Int := speDoMfcPut spe ls ea size tag tid rid .putf

def baseSpeMfcioGet (spe : Context) (ls : UInt32) (ea : UInt64) (size tag tid rid : UInt32) :
    Code Int := speDoMfcGet spe ls ea size tag tid rid .get

/-- Passes `rid` for both class IDs. -/
def baseSpeMfcioGetb (spe : Context) (ls : UInt32) (ea : UInt64) (size tag _tid rid : UInt32) :
    Code Int := speDoMfcGet spe ls ea size tag rid rid .getb

def baseSpeMfcioGetf (spe : Context) (ls : UInt32) (ea : UInt64) (size tag tid rid : UInt32) :
    Code Int := speDoMfcGet spe ls ea size tag tid rid .getf

/-! ## Reading the tag status -/

/-- A sample, which also toggles the active tags. -/
def sampleTagStatus (mask : UInt32) : Code UInt32 := do
  let status ← perform (.readTagStatus mask)
  let active ← perform .loadActive
  perform (.storeActive (active ^^^ status))
  return status

/-- Four bytes of the `mfc` file. -/
def readStatusFile (fd : Fd) : Code (Int × Option UInt32) := do
  let (n, status) ← perform (.readFile fd)
  return if n = 4 then (0, some status) else (-1, none)

/-- `spe_read_tag_status_block`: its result and what it stored at `tag_status`. -/
def speReadTagStatusBlock (spe : Context) (mask : UInt32) : Code (Int × Option UInt32) := do
  if spe.mapPs then
    perform .lock
    perform (.writeQueryMask mask)
    let status ← Prog.repeats (fun _ => do
      let status ← sampleTagStatus mask
      return if status ^^^ mask ≠ 0 then .inl () else .inr status) ()
    perform (.noteReported status)
    perform .unlock
    return (0, some status)
  else
    let fd ← perform (.openIfClosed .mfc)
    if fd = -1 then return (-1, none) else readStatusFile fd

/-- `spe_read_tag_status_noblock`. -/
def speReadTagStatusNoblock (spe : Context) (mask : UInt32) : Code (Int × Option UInt32) := do
  if spe.mapPs then
    perform .lock
    perform (.writeQueryMask mask)
    let status ← sampleTagStatus mask
    perform (.noteReported status)
    perform .unlock
    return (0, some status)
  else
    let fd ← perform (.openIfClosed .mfc)
    if fd = -1 then return (-1, none)
    else
      -- `ret` is unsigned there: what `poll` leaves in `revents` counts also where it fails
      let (ret, pollin) ← perform (.poll fd)
      if ret = 0 ∨ pollin = false then return (0, some 0) else readStatusFile fd

/-- `spe_mfcio_tag_status_read_all`. -/
def speMfcioTagStatusReadAll (spe : Context) (mask : UInt32) : Code (Int × Option UInt32) := do
  if spe.mapPs then speReadTagStatusBlock spe mask
  else
    let fd ← perform (.openIfClosed .mfc)
    if fd = -1 then return (-1, none)
    else
      let rc ← perform (.fsync fd)
      if rc ≠ 0 then return (-1, none) else speReadTagStatusBlock spe mask

/-- The mask that `_base_spe_mfcio_tag_status_read` asks for. -/
def effectiveMask (spe : Context) (mask : UInt32) : Code UInt32 :=
  if mask ≠ 0 then return if spe.mapPs then mask else 0
  else if spe.mapPs then perform .loadActive
  else return mask

/-- `_base_spe_mfcio_tag_status_read`; `tagStatus` says that the pointer is not `NULL`. -/
def baseSpeMfcioTagStatusRead (spe : Context) (mask behavior : UInt32) (tagStatus : Bool) :
    Code (Int × Option UInt32) := do
  let mask ← effectiveMask spe mask
  if tagStatus = false then
    perform (.setErrno .EINVAL)
    return (-1, none)
  else if behavior = speTagAll then speMfcioTagStatusReadAll spe mask
  else if behavior = speTagAny then speReadTagStatusBlock spe mask
  else if behavior = speTagImmediate then speReadTagStatusNoblock spe mask
  else
    perform (.setErrno .EINVAL)
    return (-1, none)

/-! ## The system -/

/-- The calls of this file. -/
inductive Call where
  | put (ls : UInt32) (ea : UInt64) (size tag tid rid : UInt32)
  | putb (ls : UInt32) (ea : UInt64) (size tag tid rid : UInt32)
  | putf (ls : UInt32) (ea : UInt64) (size tag tid rid : UInt32)
  | get (ls : UInt32) (ea : UInt64) (size tag tid rid : UInt32)
  | getb (ls : UInt32) (ea : UInt64) (size tag tid rid : UInt32)
  | getf (ls : UInt32) (ea : UInt64) (size tag tid rid : UInt32)
  | tagStatusRead (mask behavior : UInt32) (tagStatus : Bool)

/-- The code of a call, its result dropped. -/
def Call.code (spe : Context) : Call → Code Unit
  | .put ls ea size tag tid rid => do let _ ← baseSpeMfcioPut spe ls ea size tag tid rid
  | .putb ls ea size tag tid rid => do let _ ← baseSpeMfcioPutb spe ls ea size tag tid rid
  | .putf ls ea size tag tid rid => do let _ ← baseSpeMfcioPutf spe ls ea size tag tid rid
  | .get ls ea size tag tid rid => do let _ ← baseSpeMfcioGet spe ls ea size tag tid rid
  | .getb ls ea size tag tid rid => do let _ ← baseSpeMfcioGetb spe ls ea size tag tid rid
  | .getf ls ea size tag tid rid => do let _ ← baseSpeMfcioGetf spe ls ea size tag tid rid
  | .tagStatusRead mask behavior tagStatus => do
    let _ ← baseSpeMfcioTagStatusRead spe mask behavior tagStatus

/-- The values of `Prxy_TagStatus` that a trace has read. -/
def sampled (tr : List (Sigma Ans)) : List UInt32 :=
  tr.filterMap fun
    | ⟨.readTagStatus _, status⟩ => some status
    | _ => none

@[simp] theorem sampled_append (tr₁ tr₂ : List (Sigma Ans)) : sampled (tr₁ ++ tr₂) = sampled tr₁ ++ sampled tr₂ :=
  List.filterMap_append ..

/-- A new context; `malloc` leaves `active_tagmask` as the memory was. -/
structure Created (s : World) : Prop where
  owner : s.owner = none
  accepted : s.accepted = []
  issued : s.issued = []
  samples : s.samples = []
  unreported : s.unreported = 0

/-- Any number of threads that use one context. -/
def system (spe : Context) : System Cmd Ans Tid World where
  toMachine := machine
  Call := Call
  code _ c := c.code spe
  init := Created

end LibSpe2.Dma
