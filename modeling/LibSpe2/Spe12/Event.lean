import LibSpe2.Conc.Machine
import LibSpe2.Sys.World

/-!
# Events of SPE threads (`libspe12/spe.c`, `libspe12/spethreads.c`)

A thread of the old interface reports an event twice: it stores type and data into its `thread_store`, and
it writes the type into a pipe. `spe_get_event` looks at both.

* `Cmd`, `exec` — one access to a `thread_store` or a group, or one call of the system; every access is a
  step of its own.
* `doSpeRun`, `speKill`, `speGetEvent` — the functions.
* `generated`, `returned`, `inHand`, `generating` and `taker` are history, which no code looks at: the events
  that a thread has written and those that were handed to a caller, the messages read from the pipe for an
  event not yet handed over, and who is in the middle of generating or of taking one.

An SPE thread is named by the thread that runs it. The members of a group are those it has been given, and
their number is the length of its list. A thread that is cancelled is one that makes no further step.
-/

namespace LibSpe2.Spe12

open Conc Function

/-! ## Constants -/

/-- `SPE_EVENT_…`. -/
def speEventMailbox : UInt32 := 0x1
def speEventStop : UInt32 := 0x2
def speEventTagGroup : UInt32 := 0x4
def speEventDmaAlignment : UInt32 := 0x8
def speEventSpeError : UInt32 := 0x10
def speEventSpeDataSegment : UInt32 := 0x20
def speEventSpeDataStorage : UInt32 := 0x40
def speEventSpeTrapped : UInt32 := 0x80
def speEventThreadExit : UInt32 := 0x100
def speEventInvalidDmaCmd : UInt32 := 0x800

/-- The events for which the pipe is counted. -/
def countedEvents : UInt32 :=
  speEventStop ||| speEventDmaAlignment ||| speEventSpeError ||| speEventSpeDataSegment |||
    speEventSpeDataStorage ||| speEventSpeTrapped ||| speEventThreadExit

/-- The events for which the pipe is polled. -/
def polledEvents : UInt32 := countedEvents ||| speEventInvalidDmaCmd

/-! ## Data -/

abbrev Gid := Nat

/-- An event that was handed to a caller who had asked for those in `mask`. -/
structure Returned where
  mask : UInt32
  revents : UInt32
  data : UInt64
  deriving DecidableEq

/-- The members of a `struct thread_store` for events, and their history. -/
structure Events where
  event : UInt32
  evData : UInt64
  /-- What has been written to `ev_pipe[1]` and not yet been read from `ev_pipe[0]`. -/
  evPipe : List UInt32
  generated : List (UInt32 × UInt64)
  returned : List Returned
  inHand : List UInt32
  generating : Bool
  taker : Option Tid
  deriving DecidableEq

structure ThreadStore extends Events where
  /-- The thread that has `event_lock`. -/
  eventLock : Option Tid
  eventPending : Bool
  killed : Bool
  stop : Bool
  /-- `ev_pipe[0]`. -/
  pipeFd : Fd
  groupId : Gid

structure GroupStore where
  useEvents : Bool
  grpMembers : List Tid

structure World where
  threads : Tid → ThreadStore
  groups : Gid → GroupStore
  /-- The thread that has `grp_list.mutex`. -/
  grpLock : Option Tid

/-- The errors of `_base_spe_context_run` that are told apart. -/
inductive RunErrno where
  | eio | efault | other

/-- What `_base_spe_context_run` leaves: its result, `errno` and `stop_info`. -/
structure RunResult where
  ret : Int
  errno : RunErrno
  speRuntimeException : Int
  stopReason : UInt32

/-- The `int` members of a `struct thread_store` that are used as flags. -/
inductive Flag where
  | eventPending | killed | stop

/-! ## Accesses -/

inductive Cmd where
  | lockGroups
  | unlockGroups
  | lockEvent (th : Tid)
  | unlockEvent (th : Tid)
  /-- `pthread_cond_wait`, up to and from the moment at which it is waiting. A thread may wake up
  without a signal, so nothing depends on one. -/
  | condWait (th : Tid)
  | condWake (th : Tid)
  | condSignal (th : Tid)
  | cancel (th : Tid)
  | setErrno (e : Int)
  | loadFlag (th : Tid) (f : Flag)
  | storeFlag (th : Tid) (f : Flag) (v : Bool)
  /-- Whether the thread is in some group. -/
  | isMember (th : Tid)
  | grpMembers (gid : Gid)
  | useEvents (th : Tid)
  | contextRun (th : Tid)
  /-- A new event is stored; it is written from where it is stored. The write names the event `e` with
  the data `d` that it is for. -/
  | storeEvent (th : Tid) (v : UInt32)
  | storeData (th : Tid) (d : UInt64)
  | writePipe (th : Tid) (e : UInt32) (d : UInt64)
  | loadEvent (th : Tid)
  /-- `pevents[i].revents = thread->event`, for a caller who asks for `mask`. -/
  | takeEvent (th : Tid) (mask : UInt32)
  | loadData (th : Tid)
  /-- "Empty the pipe". -/
  | emptyPipe (th : Tid)
  /-- "Read pipe data if present". -/
  | readPipe (th : Tid) (mask : UInt32)
  | clearData (th : Tid)
  | clearEvent (th : Tid)
  /-- The caller is going to be handed this event of `th`. -/
  | handOver (th : Tid) (r : Returned)
  | pipeFd (th : Tid)
  | openIfClosed (th : Tid) (d : FdName)
  /-- `poll`: its result, and which of the descriptors have `revents`. -/
  | poll (fds : List Fd) (timeout : Int)
  /-- A `read` of four bytes from a mailbox or a tag-group file, if it gives them. -/
  | readFd (fd : Fd)

@[reducible] def Ans : Cmd → Type
  | .loadFlag _ _ | .isMember _ | .useEvents _ => Bool
  | .grpMembers _ => List Tid
  | .contextRun _ => RunResult
  | .loadEvent _ | .takeEvent _ _ | .emptyPipe _ | .readPipe _ _ => UInt32
  | .loadData _ => UInt64
  | .pipeFd _ | .openIfClosed _ _ => Fd
  | .poll _ _ => Int × List Bool
  | .readFd _ => Option Int
  | _ => Unit

def ThreadStore.flag (th : ThreadStore) : Flag → Bool
  | .eventPending => th.eventPending
  | .killed => th.killed
  | .stop => th.stop

def ThreadStore.setFlag (th : ThreadStore) (f : Flag) (v : Bool) : ThreadStore :=
  match f with
  | .eventPending => { th with eventPending := v }
  | .killed => { th with killed := v }
  | .stop => { th with stop := v }

namespace Events

variable (c : Events)

def store (v : UInt32) : Events := { c with event := v, generating := true }

def storeData (d : UInt64) : Events := { c with evData := d }

def write (e : UInt32) (d : UInt64) : Events :=
  { c with evPipe := c.evPipe ++ [c.event], generated := c.generated ++ [(e, d)], generating := false }

def take (t : Tid) : Events := { c with taker := some t }

/-- The first message of the pipe, if there is one, is read. -/
def read (m : UInt32) : Option Events :=
  match c.evPipe with
  | [] => none
  | m' :: rest => if m = m' then some { c with evPipe := rest, inHand := c.inHand ++ [m] } else none

def clear : Events := { c with event := 0 }

def handOver (r : Returned) : Events :=
  { c with returned := c.returned ++ [r], inHand := c.inHand.tail, taker := none }

end Events

namespace World

variable (s : World)

def setThread (th : Tid) (v : ThreadStore) : World := { s with threads := update s.threads th v }

def setEvents (th : Tid) (c : Events) : World := s.setThread th { s.threads th with toEvents := c }

end World

/-- `exec t c r s`: the state after `c` of thread `t` was answered `r` in `s`. -/
def exec (t : Tid) : (c : Cmd) → Ans c → World → Option World
  | .lockGroups, _, s => if s.grpLock = none then some { s with grpLock := some t } else none
  | .unlockGroups, _, s => if s.grpLock = some t then some { s with grpLock := none } else none
  | .lockEvent th, _, s | .condWake th, _, s =>
    if (s.threads th).eventLock = none then
      some (s.setThread th { s.threads th with eventLock := some t }) else none
  | .unlockEvent th, _, s | .condWait th, _, s =>
    if (s.threads th).eventLock = some t then
      some (s.setThread th { s.threads th with eventLock := none }) else none
  | .loadFlag th f, v, s => if v = (s.threads th).flag f then some s else none
  | .storeFlag th f v, _, s => some (s.setThread th ((s.threads th).setFlag f v))
  | .isMember _, _, s => some s
  | .grpMembers gid, ths, s => if ths = (s.groups gid).grpMembers then some s else none
  | .useEvents th, v, s => if v = (s.groups (s.threads th).groupId).useEvents then some s else none
  | .storeEvent th v, _, s => some (s.setEvents th ((s.threads th).store v))
  | .storeData th d, _, s => some (s.setEvents th ((s.threads th).storeData d))
  | .writePipe th e d, _, s => some (s.setEvents th ((s.threads th).write e d))
  | .loadEvent th, e, s => if e = (s.threads th).event then some s else none
  | .takeEvent th _, e, s =>
    if e = (s.threads th).event then some (s.setEvents th ((s.threads th).take t)) else none
  | .loadData th, d, s => if d = (s.threads th).evData then some s else none
  | .emptyPipe th, m, s => ((s.threads th).read m).map (s.setEvents th)
  | .readPipe th _, m, s => ((s.threads th).read m).map fun c => s.setEvents th (c.take t)
  | .clearData th, _, s => some (s.setEvents th ((s.threads th).storeData 0))
  | .clearEvent th, _, s => some (s.setEvents th (s.threads th).clear)
  | .handOver th r, _, s => some (s.setEvents th ((s.threads th).handOver r))
  | .pipeFd th, fd, s => if fd = (s.threads th).pipeFd then some s else none
  | _, _, s => some s

def machine : Machine Cmd Ans Tid World := ⟨exec⟩

abbrev Code := Prog Cmd Ans

abbrev perform (c : Cmd) : Code (Ans c) := Prog.perform c

/-! ## Running an SPE thread -/

/-- An event is stored and written to the pipe. -/
def generate (th : Tid) (e : UInt32) (d : UInt64) : Code Unit := do
  perform (.storeEvent th e)
  perform (.storeData th d)
  perform (.writePipe th e d)

/-- If a signal was sent to stop execution we pause and wait for a continue signal. -/
def pauseIfStopped (th : Tid) : Code Unit := do
  if ← perform (.loadFlag th .stop) then
    perform (.lockEvent th)
    perform (.condWait th)
    perform (.condWake th)
    perform (.unlockEvent th)
    perform (.storeFlag th .stop false)

/-- The event for a run that has failed with `EFAULT`. -/
def faultEvent (exception : Int) : UInt32 :=
  if exception = 4 then speEventSpeTrapped
  else if exception = 32 then speEventSpeError
  else .ofInt exception

/-- The `switch (errno)` of a failed run. -/
def reportError (th : Tid) (res : RunResult) : Code Unit :=
  match res.errno with
  | .eio => generate th (.ofInt res.speRuntimeException) (.ofInt res.speRuntimeException)
  | .efault => generate th (faultEvent res.speRuntimeException) (.ofInt res.speRuntimeException)
  | .other => return ()

/-- What is done about a stop-and-signal in a group with events. -/
def reportStop (th : Tid) (callnum : Int) : Code Unit := do
  generate th speEventStop (.ofInt callnum)
  perform (.storeFlag th .eventPending true)
  perform (.condWait th)
  perform (.condWake th)
  perform (.storeFlag th .eventPending false)

/-- What follows a run in the loop of `do_spe_run`: go round again, leave with the stop reason, or
return at once. -/
def afterRun (th : Tid) (res : RunResult) : Code (Unit ⊕ Option UInt32) := do
  if res.ret < 0 then
    perform (.lockEvent th)
    reportError th res
    perform (.unlockEvent th)
    perform (.storeFlag th .stop true)
    return .inr none
  else if res.ret = 0 then return .inr (some res.stopReason)
  else
    perform (.lockEvent th)
    if ← perform (.useEvents th) then
      reportStop th res.ret
      perform (.unlockEvent th)
      if ← perform (.loadFlag th .killed) then return .inr (some res.stopReason)
      else return .inl ()
    else
      perform (.unlockEvent th)
      return .inr none

/-- One round of the loop of `do_spe_run`. -/
def runOnce (th : Tid) : Code (Unit ⊕ Option UInt32) := do
  let res ← perform (.contextRun th)
  pauseIfStopped th
  afterRun th res

/-- `do_spe_run`. -/
def doSpeRun (th : Tid) : Code Unit := do
  match ← Prog.repeats (fun _ => runOnce th) () with
  | none => return ()
  | some stopReason =>
    if ← perform (.useEvents th) then
      generate th speEventThreadExit (.ofNat stopReason.toNat)

/-! ## Signals -/

inductive Sig where
  | cont | kill | stop | other

/-- `srch_thread`. -/
def srchThread (th : Tid) : Code Bool := do
  perform .lockGroups
  let found ← perform (.isMember th)
  perform .unlockGroups
  if found then return true
  else
    perform (.setErrno 3)
    return false

/-- `spe_kill`. -/
def speKill (th : Tid) (sig : Sig) : Code Int := do
  if ← srchThread th then
    match sig with
    | .cont =>
      perform (.lockEvent th)
      let stopped ← perform (.loadFlag th .eventPending)
      if (← perform (.loadFlag th .stop)) || stopped then perform (.condSignal th)
      perform (.unlockEvent th)
      return 0
    | .kill =>
      perform (.lockEvent th)
      perform (.storeFlag th .killed true)
      let stopped ← perform (.loadFlag th .eventPending)
      if stopped then perform (.condSignal th) else perform (.cancel th)
      perform (.unlockEvent th)
      return 0
    | .stop =>
      perform (.storeFlag th .stop true)
      return 0
    | .other =>
      perform (.setErrno 22)
      return -1
  else return -1

/-! ## Getting an event -/

/-- The output members of a `struct spe_event`. -/
structure SpeEvent where
  speid : Option Tid
  revents : UInt32
  data : UInt64

/-- "Clear output fields." -/
def noEvent : SpeEvent := ⟨none, 0, 0⟩

/-- `thread->event != 0 && thread->event & pevents[i].events`. -/
def hasEvent (th : Tid) (events : UInt32) : Code Bool := do
  let event ← perform (.loadEvent th)
  if event = 0 then return false
  else
    let event ← perform (.loadEvent th)
    return event &&& events ≠ 0

/-- "Found an event we're looking for." -/
def takeFound (th : Tid) (events : UInt32) : Code SpeEvent := do
  let revents ← perform (.takeEvent th events)
  let data ← perform (.loadData th)
  let _ ← perform (.emptyPipe th)
  perform (.clearData th)
  perform (.clearEvent th)
  perform (.handOver th ⟨events, revents, data⟩)
  return ⟨some th, revents, data⟩

/-- "Scan for present events in the thread structures of SPEs". -/
def scan (events : UInt32) : List Tid → Code (Option SpeEvent)
  | [] => return none
  | th :: ths => do
    if ← hasEvent th events then
      let found ← takeFound th events
      return some found
    else scan events ths

/-- What each thread adds to `numSPEsToPoll`. -/
def fdsToPoll (events : UInt32) : Nat :=
  (if events &&& speEventMailbox ≠ 0 then 1 else 0) + (if events &&& speEventTagGroup ≠ 0 then 1 else 0) +
    if events &&& countedEvents ≠ 0 then 1 else 0

/-- The `type` of a `struct poll_helper`. -/
inductive PollType where
  | mailbox | pipe | tagGroup

/-- A `struct pollfd` and its `struct poll_helper`. -/
structure PollEntry where
  fd : Fd
  thread : Tid
  type : PollType

def mailboxEntry (events : UInt32) (th : Tid) : Code (List PollEntry) :=
  if events &&& speEventMailbox ≠ 0 then do
    let fd ← perform (.openIfClosed th .ibox)
    return [⟨fd, th, .mailbox⟩]
  else return []

def pipeEntry (events : UInt32) (th : Tid) : Code (List PollEntry) :=
  if events &&& polledEvents ≠ 0 then do
    let fd ← perform (.pipeFd th)
    return [⟨fd, th, .pipe⟩]
  else return []

def tagGroupEntry (events : UInt32) (th : Tid) : Code (List PollEntry) :=
  if events &&& speEventTagGroup ≠ 0 then do
    let fd ← perform (.openIfClosed th .mfc)
    return [⟨fd, th, .tagGroup⟩]
  else return []

/-- "Set up all necessary fds to poll on and remeber what they are for." -/
def setupPoll (events : UInt32) : List Tid → Code (List PollEntry)
  | [] => return []
  | th :: ths => do
    let mailbox ← mailboxEntry events th
    let pipe ← pipeEntry events th
    let tagGroup ← tagGroupEntry events th
    let rest ← setupPoll events ths
    return mailbox ++ pipe ++ tagGroup ++ rest

/-- A mailbox or tag-group descriptor that `poll` has found: what it gives, if anything. -/
def readReady (e : PollEntry) (revents : UInt32) : Code (Option SpeEvent) := do
  match ← perform (.readFd e.fd) with
  | none => return none
  | some data => return some ⟨some e.thread, revents, .ofInt data⟩

/-- A pipe that `poll` has found. -/
def takePolled (th : Tid) (events : UInt32) : Code SpeEvent := do
  let revents ← perform (.readPipe th events)
  let data ← perform (.loadData th)
  perform (.clearData th)
  perform (.clearEvent th)
  perform (.handOver th ⟨events, revents, data⟩)
  return ⟨some th, revents, data⟩

/-- The `switch (phelper[i].type)`. -/
def readEntry (events : UInt32) (e : PollEntry) : Code (Option SpeEvent) :=
  match e.type with
  | .mailbox => readReady e speEventMailbox
  | .pipe => do
    let found ← takePolled e.thread events
    return some found
  | .tagGroup => readReady e speEventTagGroup

/-- The loop over the descriptors that were polled, with the `retfd` of the earlier ones; nothing more is read
once there is an event. The result is `ret_events` and the event. -/
def readEntries (events : UInt32) : List (PollEntry × Bool) → List Fd → Code (Int × SpeEvent)
  | [], _ => return (0, noEvent)
  | (e, ready) :: rest, retfds => do
    if ready && retfds.all (· ≠ e.fd) then
      match ← readEntry events e with
      | some found => return (1, found)
      | none => readEntries events rest (retfds ++ [-1])
    else readEntries events rest (retfds ++ [-1])

/-- What follows the scan: the descriptors are set up, polled and read. Where more are set up than were
counted, this is noticed when they have been written past the end of the arrays. -/
def pollEvent (events : UInt32) (timeout : Int) (members : List Tid) : Code (Int × SpeEvent) := do
  let entries ← setupPoll events members
  if entries.length ≠ members.length * fdsToPoll events then
    perform .unlockGroups
    perform (.setErrno 14)
    return (-1, noEvent)
  else
    perform .unlockGroups
    let (pollRet, ready) ← perform (.poll (entries.map (·.fd)) timeout)
    if pollRet = 0 then return (0, noEvent)
    else readEntries events (entries.zip ready) []

/-- `spe_get_event` of one event structure, which is all it fills in. -/
def speGetEvent (gid : Gid) (events : UInt32) (timeout : Int) : Code (Int × SpeEvent) := do
  perform .lockGroups
  let members ← perform (.grpMembers gid)
  match ← scan events members with
  | some found =>
    perform .unlockGroups
    return (1, found)
  | none =>
    if members.length * fdsToPoll events = 0 then
      perform .unlockGroups
      perform (.setErrno 22)
      return (-1, noEvent)
    else pollEvent events timeout members

/-! ## Runs -/

/-- What a thread does: it is an SPE thread, or calls one of the functions. -/
inductive Call where
  | speRun
  | kill (th : Tid) (sig : Sig)
  | getEvent (gid : Gid) (events : UInt32) (timeout : Int)

def Call.code (t : Tid) : Call → Code Unit
  | .speRun => doSpeRun t
  | .kill th sig => do
    let _ ← speKill th sig
  | .getEvent gid events timeout => do
    let _ ← speGetEvent gid events timeout

/-- No event yet. -/
def Events.empty : Events := ⟨0, 0, [], [], [], [], false, none⟩

def system : System Cmd Ans Tid World where
  toMachine := machine
  Call := Call
  code := Call.code
  init s := ∀ th, (s.threads th).toEvents = .empty

end LibSpe2.Spe12
