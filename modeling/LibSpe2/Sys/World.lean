import LibSpe2.Conc.Phase
import LibSpe2.Constants
import Mathlib.Algebra.Group.Int.Defs
import Mathlib.Algebra.Group.Nat.Defs
import Mathlib.Data.List.Nodup

/-!
# The world of the library

What the library's threads share: the `int` members of its two private records, the stop-info
buffer and the event records, the mutexes, and the part of the kernel and of the SPE that its calls
touch (descriptors, pipes, epoll sets, the mailboxes behind the problem-state mapping).

`Cmd` lists what a thread can do to it, one shared access or one system call at a time, and `exec`
is the meaning of each. The code itself is in `SpeBase/` and `SpeEvent/`, as `Sys` programs over
these commands.

`History` holds variables no code reads. They record what has happened so far (which registrations
succeeded, what was read from which pipe) so that properties of whole runs can be stated on the
state; `note` commands, and a few answers of the kernel, update them.
-/

namespace LibSpe2

/-- `spe_context_ptr_t`, not `NULL`. -/
abbrev Spe := Nat

abbrev Tid := Nat

abbrev Fd := Int

/-- `spe_event_handler_ptr_t`, not `NULL`: a handler is its epoll descriptor. -/
abbrev Handler := Nat

abbrev PipeId := Nat

abbrev Word := UInt32

/-- A pipe has ends `0` and `1`. -/
instance neZero_two : @NeZero Nat Zero.ofOfNat0 2 := ⟨Nat.succ_ne_zero 1⟩

/-- `enum fd_name`. -/
inductive FdName where
  | mbox | mboxStat | ibox | iboxNb | iboxStat | wbox | wboxNb | wboxStat | sig1 | sig2 | mfc | mss
  deriving DecidableEq

/-- `enum __spe_event_types`. -/
inductive EventType where
  | outIntrMbox | inMbox | tagGroup | speStopped
  deriving DecidableEq

/-- The values of `errno` that the modelled code tests or sets; `zero` is its reset. -/
inductive Errno where
  | zero | ESRCH | EINVAL | ENOTSUP | EAGAIN | EINTR | EIO | EBADF | EEXIST | ENOENT | ENOMEM | EMFILE
  deriving DecidableEq

/-! ## Data -/

/-- `sizeof(spe_stop_info_t)`. -/
def stopInfoSize : Nat := 24

/-- A `spe_stop_info_t` as `read` and `write` see it: the bytes of the object. -/
structure StopInfo where
  bytes : List UInt8
  length_bytes : bytes.length = stopInfoSize
  deriving DecidableEq

/-- A stop info that holds one byte throughout. -/
def StopInfo.fill (b : UInt8) : StopInfo := ⟨List.replicate stopInfoSize b, List.length_replicate⟩

/-- `spe_event_unit_t`; `data` is the 64-bit union `spe_event_data_t`. -/
structure EventUnit where
  events : UInt32
  spe : Spe
  data : UInt64
  deriving DecidableEq

/-- The `SPE_EVENT_*` bit of an event type. -/
def EventType.bit : EventType → UInt32
  | .outIntrMbox => 0x1
  | .inMbox => 0x2
  | .tagGroup => 0x4
  | .speStopped => 0x8

/-- The `int` members of `spe_context_base_priv` and `spe_context_event_priv`. -/
inductive Loc where
  | speFdsArray (spe : Spe) (d : FdName)
  | speFdsRefcount (spe : Spe) (d : FdName)
  | stopEventPipe (spe : Spe) (i : Fin 2)
  | stopEventHandlerCount (spe : Spe)
  | stopEventBufferCount (spe : Spe)
  deriving DecidableEq

/-- The mutexes: `fd_lock[]` of the base record, `lock` and `stop_event_lock` of the event record. -/
inductive Mutex where
  | fdLock (spe : Spe) (d : FdName)
  | lock (spe : Spe)
  | stopEventLock (spe : Spe)
  deriving DecidableEq

/-- Update a family over the slots (or the records) of all contexts at one of them. -/
def update₂ {κ α : Type} [DecidableEq κ] (f : Spe → κ → α) (spe : Spe) (d : κ) (v : α) :
    Spe → κ → α :=
  Function.update f spe (Function.update (f spe) d v)

@[simp] theorem update₂_self {κ α : Type} [DecidableEq κ] (f : Spe → κ → α) (spe : Spe) (d : κ)
    (v : α) : update₂ f spe d v spe d = v := by
  simp [update₂]

theorem update₂_of_ne {κ α : Type} [DecidableEq κ] (f : Spe → κ → α) {spe spe' : Spe} {d d' : κ}
    (v : α) (h : (spe', d') ≠ (spe, d)) : update₂ f spe d v spe' d' = f spe' d' := by
  by_cases hs : spe' = spe
  · subst hs
    have hd : d' ≠ d := fun hd => h (hd ▸ rfl)
    simp [update₂, hd]
  · simp [update₂, hs]

/-! ## The kernel's side -/

/-- What a descriptor of the process refers to. -/
inductive File where
  | spufs (spe : Spe) (d : FdName)
  | pipeR (p : PipeId)
  | pipeW (p : PipeId)
  deriving DecidableEq

/-- One pipe, from its creation on. -/
structure Pipe where
  /-- The context it was made for (history). -/
  spe : Spe
  nonblock : Bool
  queue : List UInt8
  /-- The stop infos written so far, in order (history). -/
  written : List StopInfo
  /-- What completed reads have returned so far, in order (history). -/
  returned : List (List UInt8)
  /-- How often the read end and the write end were closed (history). -/
  closedR : Nat
  closedW : Nat
  deriving DecidableEq

/-- A pipe as `pipe(2)` makes it. -/
def Pipe.fresh (spe : Spe) : Pipe := ⟨spe, false, [], [], [], 0, 0⟩

/-- An entry of an epoll interest set; `ptr` is `data.ptr`, a record of some context. -/
structure EpollEntry where
  /-- `EPOLLIN` is `false`, `EPOLLOUT` is `true`. -/
  out : Bool
  spe : Spe
  type : EventType
  /-- The user data given in the call that made the entry (history). -/
  reg : UInt64
  deriving DecidableEq

/-- The mailboxes of one SPE. -/
structure Mailboxes where
  /-- Outbound: words the SPU has pushed and nobody has read, and how many fit. -/
  outbound : List Word
  outDepth : Nat
  /-- Inbound: words written and not yet popped by the SPU, and how many fit. -/
  inbound : List Word
  inDepth : Nat
  deriving DecidableEq

/-! ## History -/

/-- One completed burst of a mailbox helper: the words it moved, what it returned, and its `count`. -/
structure Burst where
  words : List Word
  ret : Int
  count : Int
  deriving DecidableEq

/-- One event unit handed out by `spe_event_wait`: the epoll entry it was reported through and the
unit itself. -/
structure Delivery where
  handler : Handler
  entry : EpollEntry
  unit : EventUnit
  deriving DecidableEq

structure History where
  /-- Successful `SPE_EVENT_SPE_STOPPED` registrations and deregistrations of a context. -/
  registrations : Spe → Nat
  deregistrations : Spe → Nat
  /-- The runs of a context between their acquire and their release of the pipe. -/
  runs : Spe → List Tid
  /-- The pipe that a run saw open under the lock. -/
  saw : Tid → Option PipeId
  /-- References to the descriptor of a slot: taken by an open that has not returned yet, returned,
  and about to be dropped by a close. -/
  taking : Spe → FdName → List (Tid × Fd)
  held : Spe → FdName → List Fd
  dropping : Spe → FdName → List (Tid × Fd)
  /-- The threads whose `openat` failed and whose open has not returned yet. -/
  failed : Spe → FdName → List Tid
  /-- The descriptors obtained for a slot and those closed, in order. -/
  obtained : Spe → FdName → List Fd
  released : Spe → FdName → List Fd
  /-- The entries that `epoll_wait` reported to a thread and whose records it has not copied yet. -/
  pending : Tid → List EpollEntry
  delivered : List Delivery
  /-- Words pushed by the SPU / read from the outbound mailbox, and the bursts that read them. -/
  pushed : Spe → List Word
  popped : Spe → List Word
  outBursts : Spe → List Burst
  /-- Words written to / consumed by the SPU from the inbound mailbox, and the bursts that wrote. -/
  sent : Spe → List Word
  consumed : Spe → List Word
  inBursts : Spe → List Burst

def History.empty : History where
  registrations _ := 0
  deregistrations _ := 0
  runs _ := []
  saw _ := none
  taking _ _ := []
  held _ _ := []
  dropping _ _ := []
  failed _ _ := []
  obtained _ _ := []
  released _ _ := []
  pending _ := []
  delivered := []
  pushed _ := []
  popped _ := []
  outBursts _ := []
  sent _ := []
  consumed _ := []
  inBursts _ := []

/-- Everything the threads share. -/
structure World where
  mem : Loc → Int
  flags : Spe → UInt32
  buffer : Spe → StopInfo
  records : Spe → EventType → EventUnit
  owner : Mutex → Option Tid
  fds : Fd → Option File
  pipes : PipeId → Pipe
  nextPipe : PipeId
  epoll : Handler → Fd → Option EpollEntry
  mailboxes : Spe → Mailboxes
  errno : Tid → Errno
  hist : History

/-- The world before anything has happened; every context has `SPE_EVENTS_ENABLE`. -/
def World.boot : World where
  mem
    | .speFdsArray _ _ | .stopEventPipe _ _ => -1
    | _ => 0
  flags _ := speEventsEnable
  buffer _ := .fill 0
  records spe _ := ⟨0, spe, 0⟩
  owner _ := none
  fds _ := none
  pipes _ := .fresh 0
  nextPipe := 0
  epoll _ _ := none
  mailboxes _ := ⟨[], 1, [], 4⟩
  errno _ := .EINVAL
  hist := .empty

end LibSpe2
