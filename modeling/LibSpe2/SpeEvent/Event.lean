import LibSpe2.SpeBase.Create

/-!
# The event layer (`speevent/spe_event.c`)

Epoll-based event handlers over the contexts of the base layer. A context has one record per event
type (`events[]`), which the epoll entries point to, and one pipe that carries the stop infos of its
runs to `spe_stop_info_read` while a handler is registered for `SPE_EVENT_SPE_STOPPED`. The pipe is
counted: one for each such registration and one for each run that is about to write to it.

The context's `lock` protects the records, `stop_event_lock` the pipe, its count and the buffer that
holds the last stop info while there is no pipe.
-/

namespace LibSpe2

/-- `SPE_EVENT_OUT_INTR_MBOX | SPE_EVENT_IN_MBOX | SPE_EVENT_TAG_GROUP | SPE_EVENT_SPE_STOPPED`. -/
def speEventAll : UInt32 := 0xf

/-- The argument of register and deregister: `spe_event_unit_t`, where `spe` may be `NULL`. -/
structure EventArg where
  events : UInt32
  spe : Option Spe
  data : UInt64
  deriving DecidableEq

/-- `_event_spe_context_lock`. -/
def eventSpeContextLock (spe : Spe) : Sys Unit := lock (.lock spe)

/-- `_event_spe_context_unlock`. -/
def eventSpeContextUnlock (spe : Spe) : Sys Unit := unlock (.lock spe)

def stopEventLock (spe : Spe) : Sys Unit := lock (.stopEventLock spe)

def stopEventUnlock (spe : Spe) : Sys Unit := unlock (.stopEventLock spe)

/-! ## The stop-event pipe -/

/-- Close end `i` of the pipe if it is open. -/
def stopEventPipeCloseEnd (spe : Spe) (i : Fin 2) : Sys Unit := do
  let fd ← load (.stopEventPipe spe i)
  if fd ≠ -1 then
    perform (.close fd)
    store (.stopEventPipe spe i) (-1)

def stopEventPipeClose (spe : Spe) : Sys Int := do
  stopEventPipeCloseEnd spe 0
  stopEventPipeCloseEnd spe 1
  return 0

def stopEventPipeOpen (spe : Spe) : Sys Int := do
  match ← perform (.pipe spe) with
  | .error _ => return -1
  | .ok (r, w) =>
    -- the kernel stores both descriptors
    store (.stopEventPipe spe 0) r
    store (.stopEventPipe spe 1) w
    let fd ← load (.stopEventPipe spe 0)
    match ← perform (.fcntlGetfl fd) with
    | .ok _ =>
      let fd ← load (.stopEventPipe spe 0)
      match ← perform (.fcntlSetfl fd true) with
      | .ok _ => return 0
      | .error _ =>
        let _ ← stopEventPipeClose spe
        return -1
    | .error _ =>
      let _ ← stopEventPipeClose spe
      return -1

def stopEventPipeAcquire (spe : Spe) : Sys Int := do
  let count ← load (.stopEventHandlerCount spe)
  if count = 0 then
    if (← stopEventPipeOpen spe) = -1 then
      return -1
    -- invalidate the buffer
    store (.stopEventBufferCount spe) 0
  let count ← load (.stopEventHandlerCount spe)
  store (.stopEventHandlerCount spe) (count + 1)
  return 0

def stopEventPipeRelease (spe : Spe) : Sys Int := do
  let count ← load (.stopEventHandlerCount spe)
  store (.stopEventHandlerCount spe) (count - 1)
  let count ← load (.stopEventHandlerCount spe)
  if count = 0 then
    let _ ← stopEventPipeClose spe
  return 0

/-! ## Reading a stop info -/

/-- The rest of a read once its first bytes `got` are there: `poll` and `read` until `got` is a whole
stop info. The loop is left early (`rc == -1`) on an error other than `EINTR` of `poll` or `EAGAIN`
of `read`. The result is `rc == -1` and the bytes. -/
def stopInfoReadRest (fd : Fd) (got : List UInt8) : Sys (Bool × List UInt8) :=
  .repeats (fun got => do
    if got.length < stopInfoSize then
      match ← perform (.poll fd) with
      | .error .EINTR => return .inl got
      | .error _ => return .inr (true, got)
      | .ok n =>
        if n = 1 then
          match ← perform (.read fd (stopInfoSize - got.length)) with
          | .error .EAGAIN => return .inl got
          | .error _ => return .inr (true, got)
          | .ok bytes => return .inl (got ++ bytes)
        else return .inl got
    else return .inr (false, got)) got

/-- `_event_spe_stop_info_read`: the return code and, where it is `0`, the bytes in `*stopinfo`. -/
def eventSpeStopInfoRead (spe : Spe) : Sys (Int × List UInt8) := do
  stopEventLock spe
  let fd ← load (.stopEventPipe spe 0)
  if fd = -1 then
    -- no stop event handler
    let n ← load (.stopEventBufferCount spe)
    if n ≠ 0 then
      -- the last stop info, for backward compatibility
      let info ← perform (.loadBuffer spe)
      store (.stopEventBufferCount spe) (n - 1)
      stopEventUnlock spe
      return (0, info.bytes)
    else
      perform (.setErrno .EAGAIN)
      stopEventUnlock spe
      return (-1, [])
  else
    match ← perform (.read fd stopInfoSize) with
    | .error _ =>
      stopEventUnlock spe
      return (-1, [])
    | .ok bytes =>
      let (failed, got) ← stopInfoReadRest fd bytes
      if failed then
        stopEventUnlock spe
        return (-1, got)
      else
        perform (.noteStopInfo fd got)
        stopEventUnlock spe
        return (0, got)

/-! ## Registration -/

/-- The checks that register and deregister start with, and then `k` on the handler and context. -/
def withEventArgs (evhandler : Option Handler) (event : Option EventArg)
    (k : Handler → Spe → EventArg → Sys Int) : Sys Int :=
  match evhandler, event with
  | none, _ => fail .ESRCH
  | some _, none => fail .EINVAL
  | some h, some ev =>
    match ev.spe with
    | none => fail .EINVAL
    | some spe => do
      let fl ← perform (.flags spe)
      if fl &&& speEventsEnable = 0 then fail .ENOTSUP
      else if ev.events &&& ~~~speEventAll ≠ 0 then fail .ENOTSUP
      else k h spe ev

/-- One `if (event->events & SPE_EVENT_*) { … }` block; `false` is its `return -1`. -/
def ifEvent (events : UInt32) (k : EventType) (block : Sys Bool) : Sys Bool :=
  if events &&& k.bit ≠ 0 then block else return true

/-- A block and, unless it returned, the rest. -/
def andThen (block rest : Sys Bool) : Sys Bool := do
  if ← block then rest else return false

/-- Run the blocks of register or deregister under the context's lock. -/
def underContextLock (spe : Spe) (blocks : Sys Bool) : Sys Int := do
  eventSpeContextLock spe
  let ok ← blocks
  eventSpeContextUnlock spe
  return if ok then 0 else -1

/-- The block of register for a type whose events come from a spufs file. `check` is what happens
between the acquisition of the descriptor and the record. -/
def registerSource (h : Handler) (spe : Spe) (k : EventType) (fdesc : FdName) (out : Bool)
    (data : UInt64) (check : Sys Bool) : Sys Bool := do
  let fd ← baseSpeEventSourceAcquire spe fdesc
  if fd = -1 then return false
  else if ← check then
    perform (.storeRecord spe k k.bit data)
    match ← perform (.epollAdd h fd ⟨out, spe, k, data⟩) with
    | .ok _ => return true
    | .error _ => return false
  else return false

def registerOutIntrMbox (h : Handler) (spe : Spe) (data : UInt64) : Sys Bool :=
  registerSource h spe .outIntrMbox .ibox false data (return true)

def registerInMbox (h : Handler) (spe : Spe) (data : UInt64) : Sys Bool :=
  registerSource h spe .inMbox .wbox true data (return true)

/-- The tag-group block refuses a context with `SPE_MAP_PS`, after it acquired the descriptor. -/
def registerTagGroup (h : Handler) (spe : Spe) (data : UInt64) : Sys Bool :=
  registerSource h spe .tagGroup .mfc false data do
    let fl ← perform (.flags spe)
    if fl &&& speMapPs ≠ 0 then
      perform (.setErrno .ENOTSUP)
      return false
    else return true

def registerSpeStopped (h : Handler) (spe : Spe) (data : UInt64) : Sys Bool := do
  stopEventLock spe
  if (← stopEventPipeAcquire spe) = -1 then
    stopEventUnlock spe
    return false
  else
    let fd ← load (.stopEventPipe spe 0)
    perform (.storeRecord spe .speStopped EventType.speStopped.bit data)
    match ← perform (.epollAdd h fd ⟨false, spe, .speStopped, data⟩) with
    | .ok _ =>
      note (.registered spe)
      stopEventUnlock spe
      return true
    | .error _ =>
      let _ ← stopEventPipeRelease spe
      stopEventUnlock spe
      return false

/-- `_event_spe_event_handler_register`. -/
def eventSpeEventHandlerRegister (evhandler : Option Handler) (event : Option EventArg) : Sys Int :=
  withEventArgs evhandler event fun h spe ev =>
    underContextLock spe <|
      andThen (ifEvent ev.events .outIntrMbox (registerOutIntrMbox h spe ev.data)) <|
      andThen (ifEvent ev.events .inMbox (registerInMbox h spe ev.data)) <|
      andThen (ifEvent ev.events .tagGroup (registerTagGroup h spe ev.data)) <|
      ifEvent ev.events .speStopped (registerSpeStopped h spe ev.data)

/-! ## Deregistration -/

/-- The block of deregister for a type whose events come from a spufs file. -/
def deregisterSource (h : Handler) (spe : Spe) (k : EventType) (fdesc : FdName) : Sys Bool := do
  let fd ← baseSpeEventSourceAcquire spe fdesc
  if fd = -1 then return false
  else
    match ← perform (.epollDel h fd) with
    | .ok _ =>
      perform (.clearRecord spe k)
      return true
    | .error _ => return false

def deregisterOutIntrMbox (h : Handler) (spe : Spe) : Sys Bool :=
  deregisterSource h spe .outIntrMbox .ibox

def deregisterInMbox (h : Handler) (spe : Spe) : Sys Bool := deregisterSource h spe .inMbox .wbox

def deregisterTagGroup (h : Handler) (spe : Spe) : Sys Bool :=
  deregisterSource h spe .tagGroup .mfc

def deregisterSpeStopped (h : Handler) (spe : Spe) : Sys Bool := do
  stopEventLock spe
  let fd ← load (.stopEventPipe spe 0)
  match ← perform (.epollDel h fd) with
  | .ok _ =>
    perform (.clearRecord spe .speStopped)
    note (.deregistered spe)
    let _ ← stopEventPipeRelease spe
    stopEventUnlock spe
    return true
  | .error _ =>
    stopEventUnlock spe
    return false

/-- `_event_spe_event_handler_deregister`. -/
def eventSpeEventHandlerDeregister (evhandler : Option Handler) (event : Option EventArg) :
    Sys Int :=
  withEventArgs evhandler event fun h spe ev =>
    underContextLock spe <|
      andThen (ifEvent ev.events .outIntrMbox (deregisterOutIntrMbox h spe)) <|
      andThen (ifEvent ev.events .inMbox (deregisterInMbox h spe)) <|
      andThen (ifEvent ev.events .tagGroup (deregisterTagGroup h spe)) <|
      ifEvent ev.events .speStopped (deregisterSpeStopped h spe)

/-! ## Waiting for events -/

/-- Copy the record that each reported entry points to, under its context's lock. -/
def copyEvents (h : Handler) : List (Fd × EpollEntry) → Sys (List EventUnit)
  | [] => return []
  | (_, e) :: rest => do
    -- `ev->spe`, read before the lock
    let ev ← perform (.loadRecord e.spe e.type)
    eventSpeContextLock ev.spe
    let u ← perform (.loadRecord e.spe e.type)
    note (.delivered h e u)
    eventSpeContextUnlock ev.spe
    return u :: (← copyEvents h rest)

/-- `_event_spe_event_wait`: the return code and the units written to `events[]`. `events` says
whether that pointer is not `NULL`. -/
def eventSpeEventWait (evhandler : Option Handler) (events : Bool) (maxEvents timeout : Int) :
    Sys (Int × List EventUnit) :=
  match evhandler with
  | none => do return (← fail .ESRCH, [])
  | some h =>
    if !events || maxEvents ≤ 0 then do return (← fail .EINVAL, [])
    else do
      if ← perform .malloc then
        .repeats (fun _ => do
          match ← perform (.epollWait h maxEvents.toNat) with
          | .error .EINTR =>
            -- behave as timeout, or retry
            if timeout ≥ 0 then return .inr (0, []) else return .inl ()
          | .error _ => return .inr (-1, [])
          | .ok l =>
            let units ← copyEvents h l
            return .inr (l.length, units)) ()
      else return (-1, [])

/-! ## Running -/

/-- `_event_spe_context_run`; the stop info goes to the pipe, or to the buffer if there is none. -/
def eventSpeContextRun (spe : Spe) : Sys Int := do
  let (rc, stopinfo) ← perform (.baseRun spe)
  let errnoSaved ← perform .errno
  stopEventLock spe
  let fd ← load (.stopEventPipe spe 1)
  if fd = -1 then
    perform (.storeBuffer spe stopinfo)
    -- overwrite the buffer
    store (.stopEventBufferCount spe) 1
    stopEventUnlock spe
    return rc
  else
    -- to avoid closing the pipe after unlocked
    let _ ← stopEventPipeAcquire spe
    note (.runAcquired spe fd)
    stopEventUnlock spe
    let _ ← perform (.write fd stopinfo.bytes)
    stopEventLock spe
    note (.runReleased spe)
    let _ ← stopEventPipeRelease spe
    stopEventUnlock spe
    perform (.setErrno errnoSaved)
    return rc

/-! ## The system -/

/-- What a thread may call. -/
inductive EventCall where
  | register (h : Option Handler) (ev : Option EventArg)
  | deregister (h : Option Handler) (ev : Option EventArg)
  | wait (h : Option Handler) (events : Bool) (maxEvents timeout : Int)
  | stopInfoRead (spe : Spe)
  | run (spe : Spe)

/-- The contexts as `_base_spe_context_create` and `_event_spe_context_initialize` leave them, with
no descriptor of the library open. -/
structure EventInit (s : World) : Prop where
  closed : ∀ spe d, s.mem (.speFdsArray spe d) = -1
  pipe : ∀ spe i, s.mem (.stopEventPipe spe i) = -1
  count : ∀ spe, s.mem (.stopEventHandlerCount spe) = 0
  buffer : ∀ spe, s.mem (.stopEventBufferCount spe) = 0
  records : ∀ spe k, s.records spe k = ⟨0, spe, 0⟩
  owner : ∀ m, s.owner m = none
  fds : ∀ fd, s.fds fd = none
  nextPipe : s.nextPipe = 0
  epoll : ∀ h fd, s.epoll h fd = none
  hist : s.hist = .empty

theorem eventInit_boot : EventInit .boot := by
  constructor <;> intros <;> rfl

/-- Any number of threads calling into the event layer, on any contexts and handlers. -/
def eventSystem : Conc.System Cmd Ans Tid World where
  toMachine := machine
  Call := EventCall
  code _
    | .register h ev => do let _ ← eventSpeEventHandlerRegister h ev
    | .deregister h ev => do let _ ← eventSpeEventHandlerDeregister h ev
    | .wait h events maxEvents timeout => do let _ ← eventSpeEventWait h events maxEvents timeout
    | .stopInfoRead spe => do let _ ← eventSpeStopInfoRead spe
    | .run spe => do let _ ← eventSpeContextRun spe
  init := EventInit

end LibSpe2
