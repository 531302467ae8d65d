import LibSpe2.Sys.World

/-!
# What a thread can do: commands and their meaning

`Cmd` is one access to shared memory, one mutex operation, one system call or one register access.
`Ans c` is the type of its answers, and `exec t c r s` its meaning (`none`: in `s` the command
cannot be answered like that, so a thread is blocked when it has no possible answer).

The kernel is free wherever the code has no say: any descriptor number that is not in use, any
failure, any short read of a pipe, `EAGAIN` at any time. It is strict where the code relies on it:

* a pipe delivers its bytes in order, and a stop info (24 bytes, less than `PIPE_BUF`) is written
  whole or not at all;
* `EPOLL_CTL_ADD` succeeds only on an open descriptor that the set does not hold,
  `EPOLL_CTL_DEL` only on one that it holds, and closing a descriptor removes it from every set;
* `epoll_wait` reports entries that are in the set at that moment.

What lies behind a spufs file is not part of the world: a read or write of one may move any number of
bytes. The mailboxes are those behind the problem-state mapping, which a context with `SPE_MAP_PS`
uses instead of the files.
-/

namespace LibSpe2

open Function (update)

/-- What is recorded in the history (`History`); no code corresponds to these. -/
inductive Note where
  | registered (spe : Spe)
  | deregistered (spe : Spe)
  | runAcquired (spe : Spe) (fd : Fd)
  | runReleased (spe : Spe)
  | opened (spe : Spe) (d : FdName) (fd : Fd)
  | openFailed (spe : Spe) (d : FdName)
  | openReturned (spe : Spe) (d : FdName) (fd : Fd)
  | closing (spe : Spe) (d : FdName) (fd : Fd)
  | closed (spe : Spe) (d : FdName) (fd : Fd)
  | delivered (h : Handler) (e : EpollEntry) (u : EventUnit)
  | outBurst (spe : Spe) (b : Burst)
  | inBurst (spe : Spe) (b : Burst)

/-- What one thread does in one step. -/
inductive Cmd where
  /-- `pthread_mutex_lock`, `pthread_mutex_unlock`. -/
  | lock (m : Mutex)
  | unlock (m : Mutex)
  /-- Loads and stores of members. -/
  | load (l : Loc)
  | store (l : Loc) (v : Int)
  | flags (spe : Spe)
  | loadBuffer (spe : Spe)
  | storeBuffer (spe : Spe) (info : StopInfo)
  | loadRecord (spe : Spe) (k : EventType)
  | storeRecord (spe : Spe) (k : EventType) (events : UInt32) (data : UInt64)
  | clearRecord (spe : Spe) (k : EventType)
  | errno
  | setErrno (e : Errno)
  /-- System calls. -/
  | openat (spe : Spe) (d : FdName)
  | close (fd : Fd)
  | pipe (spe : Spe)
  | fcntlGetfl (fd : Fd)
  | fcntlSetfl (fd : Fd) (nonblock : Bool)
  | read (fd : Fd) (n : Nat)
  | write (fd : Fd) (bytes : List UInt8)
  | poll (fd : Fd)
  | epollAdd (h : Handler) (fd : Fd) (e : EpollEntry)
  | epollDel (h : Handler) (fd : Fd)
  | epollWait (h : Handler) (maxEvents : Nat)
  | malloc
  /-- `_base_spe_context_run`, of which only the results matter here. -/
  | baseRun (spe : Spe)
  /-- Accesses to the problem-state registers of the mailboxes. -/
  | readMboxStat (spe : Spe)
  | readOutMbox (spe : Spe)
  | writeInMbox (spe : Spe) (w : Word)
  /-- What the SPU does: push a word into its outbound, pop one from its inbound mailbox. -/
  | spuPush (spe : Spe) (w : Word)
  | spuPop (spe : Spe)
  | note (n : Note)
  /-- A read of a pipe has completed with this stop info (history). -/
  | noteStopInfo (fd : Fd) (info : List UInt8)

/-- The answers of a command. -/
@[reducible] def Ans : Cmd → Type
  | .load _ => Int
  | .flags _ => UInt32
  | .loadBuffer _ => StopInfo
  | .loadRecord _ _ => EventUnit
  | .errno => Errno
  | .openat _ _ => Except Errno Fd
  | .pipe _ => Except Errno (Fd × Fd)
  | .fcntlGetfl _ => Except Errno Bool
  | .fcntlSetfl _ _ => Except Errno Unit
  | .read _ _ => Except Errno (List UInt8)
  | .write _ _ => Except Errno Nat
  | .poll _ => Except Errno Int
  | .epollAdd _ _ _ => Except Errno Unit
  | .epollDel _ _ => Except Errno Unit
  | .epollWait _ _ => Except Errno (List (Fd × EpollEntry))
  | .malloc => Bool
  | .baseRun _ => Int × StopInfo
  | .readMboxStat _ => Word
  | .readOutMbox _ => Word
  | .spuPop _ => Word
  | _ => Unit

/-- A program of the library. -/
abbrev Sys := Conc.Prog Cmd Ans

/-! ## State updates -/

namespace World

variable (s : World)

def setErrno (t : Tid) (e : Errno) : World := { s with errno := update s.errno t e }

def setMem (l : Loc) (v : Int) : World := { s with mem := update s.mem l v }

def setOwner (m : Mutex) (o : Option Tid) : World := { s with owner := update s.owner m o }

def setRecord (spe : Spe) (k : EventType) (u : EventUnit) : World :=
  { s with records := update₂ s.records spe k u }

def setPipe (p : PipeId) (x : Pipe) : World := { s with pipes := update s.pipes p x }

def setMailboxes (spe : Spe) (m : Mailboxes) : World :=
  { s with mailboxes := update s.mailboxes spe m }

/-- A new descriptor for `f`. -/
def openFd (fd : Fd) (f : File) : World := { s with fds := update s.fds fd (some f) }

/-- `close`: the number is free again and no epoll set holds it any more. -/
def closeFd (fd : Fd) : World :=
  { s with
    fds := update s.fds fd none
    epoll := fun h => update (s.epoll h) fd none }

/-- Record the closing of `fd` with what it refers to (history). -/
def noteClose (fd : Fd) : World :=
  match s.fds fd with
  | some (.pipeR p) => s.setPipe p { s.pipes p with closedR := (s.pipes p).closedR + 1 }
  | some (.pipeW p) => s.setPipe p { s.pipes p with closedW := (s.pipes p).closedW + 1 }
  | some (.spufs spe d) => { s with hist := { s.hist with
      released := update₂ s.hist.released spe d (s.hist.released spe d ++ [fd]) } }
  | none => s

/-- `pipe`: two new descriptors for the two ends of a new pipe. -/
def newPipe (spe : Spe) (r w : Fd) : World :=
  { s with
    fds := update (update s.fds r (some (.pipeR s.nextPipe))) w (some (.pipeW s.nextPipe))
    pipes := update s.pipes s.nextPipe (Pipe.fresh spe)
    nextPipe := s.nextPipe + 1 }

def setEpoll (h : Handler) (fd : Fd) (e : Option EpollEntry) : World :=
  { s with epoll := update s.epoll h (update (s.epoll h) fd e) }

/-- A number that a new descriptor may get. -/
def FreeFd (fd : Fd) : Prop := 0 ≤ fd ∧ s.fds fd = none

instance (fd : Fd) : Decidable (s.FreeFd fd) := inferInstanceAs (Decidable (_ ∧ _))

end World

/-! ## History updates -/

/-- The history after a note of thread `t`. -/
def Note.record (t : Tid) (s : World) (h : History) : Note → Option History
  | .registered spe =>
    some { h with registrations := update h.registrations spe (h.registrations spe + 1) }
  | .deregistered spe =>
    some { h with deregistrations := update h.deregistrations spe (h.deregistrations spe + 1) }
  | .runAcquired spe fd =>
    match s.fds fd with
    | some (.pipeW p) => some { h with
        runs := update h.runs spe (t :: h.runs spe)
        saw := update h.saw t (some p) }
    | _ => some { h with runs := update h.runs spe (t :: h.runs spe), saw := update h.saw t none }
  | .runReleased spe => some { h with runs := update h.runs spe ((h.runs spe).erase t) }
  | .opened spe d fd => some { h with
      taking := update₂ h.taking spe d ((t, fd) :: h.taking spe d) }
  | .openFailed spe d => some { h with
      failed := update₂ h.failed spe d (t :: h.failed spe d) }
  | .openReturned spe d fd => some { h with
      taking := update₂ h.taking spe d ((h.taking spe d).erase (t, fd))
      failed := update₂ h.failed spe d ((h.failed spe d).erase t)
      held := update₂ h.held spe d (if fd = -1 then h.held spe d else fd :: h.held spe d) }
  | .closing spe d fd =>
    if fd ∈ h.held spe d then some { h with
      held := update₂ h.held spe d ((h.held spe d).erase fd)
      dropping := update₂ h.dropping spe d ((t, fd) :: h.dropping spe d) }
    else none
  | .closed spe d fd => some { h with
      dropping := update₂ h.dropping spe d ((h.dropping spe d).erase (t, fd)) }
  | .delivered hd e u => some { h with
      pending := update h.pending t ((h.pending t).erase e)
      delivered := h.delivered ++ [⟨hd, e, u⟩] }
  | .outBurst spe b => some { h with
      outBursts := update h.outBursts spe (h.outBursts spe ++ [b]) }
  | .inBurst spe b => some { h with
      inBursts := update h.inBursts spe (h.inBursts spe ++ [b]) }

/-! ## Meaning -/

/-- `exec t c r s`: the world after thread `t` executed `c` in `s` and was answered `r`. -/
def exec (t : Tid) : (c : Cmd) → Ans c → World → Option World
  | .lock m, _, s => if s.owner m = none then some (s.setOwner m (some t)) else none
  | .unlock m, _, s => if s.owner m = some t then some (s.setOwner m none) else none
  | .load l, r, s => if r = s.mem l then some s else none
  | .store l v, _, s => some (s.setMem l v)
  | .flags spe, r, s => if r = s.flags spe then some s else none
  | .loadBuffer spe, r, s => if r = s.buffer spe then some s else none
  | .storeBuffer spe info, _, s => some { s with buffer := update s.buffer spe info }
  | .loadRecord spe k, r, s => if r = s.records spe k then some s else none
  | .storeRecord spe k events data, _, s =>
    some (s.setRecord spe k { s.records spe k with events := events, data := data })
  | .clearRecord spe k, _, s => some (s.setRecord spe k { s.records spe k with events := 0 })
  | .errno, r, s => if r = s.errno t then some s else none
  | .setErrno e, _, s => some (s.setErrno t e)
  | .openat spe d, .ok fd, s =>
    if s.FreeFd fd then
      some { s.openFd fd (.spufs spe d) with hist := { s.hist with
        obtained := update₂ s.hist.obtained spe d (s.hist.obtained spe d ++ [fd]) } }
    else none
  | .openat _ _, .error e, s => some (s.setErrno t e)
  | .close fd, _, s => some ((s.noteClose fd).closeFd fd)
  | .pipe spe, .ok (r, w), s =>
    if s.FreeFd r ∧ s.FreeFd w ∧ r ≠ w then some (s.newPipe spe r w) else none
  | .pipe _, .error e, s => some (s.setErrno t e)
  | .fcntlGetfl fd, .ok nonblock, s =>
    match s.fds fd with
    | some (.pipeR p) => if nonblock = (s.pipes p).nonblock then some s else none
    | _ => none
  | .fcntlGetfl _, .error e, s => some (s.setErrno t e)
  | .fcntlSetfl fd nonblock, .ok _, s =>
    match s.fds fd with
    | some (.pipeR p) => some (s.setPipe p { s.pipes p with nonblock := nonblock })
    | _ => none
  | .fcntlSetfl _ _, .error e, s => some (s.setErrno t e)
  | .read fd n, .ok bytes, s =>
    match s.fds fd with
    | some (.pipeR p) =>
      if 0 < bytes.length ∧ bytes.length ≤ n ∧ bytes <+: (s.pipes p).queue then
        some (s.setPipe p { s.pipes p with queue := (s.pipes p).queue.drop bytes.length })
      else none
    | some (.spufs _ _) => if bytes.length ≤ n then some s else none
    | _ => none
  | .read fd _, .error e, s =>
    match s.fds fd with
    | some (.pipeR p) =>
      -- an empty pipe blocks its reader unless `O_NONBLOCK` is set
      if e = .EAGAIN → (s.pipes p).nonblock = true then some (s.setErrno t e) else none
    | _ => some (s.setErrno t e)
  | .write fd bytes, .ok n, s =>
    match s.fds fd with
    | some (.pipeW p) =>
      if h : bytes.length = stopInfoSize ∧ n = bytes.length then
        some (s.setPipe p { s.pipes p with
          queue := (s.pipes p).queue ++ bytes
          written := (s.pipes p).written ++ [⟨bytes, h.1⟩] })
      else none
    | some (.spufs _ _) => if n ≤ bytes.length then some s else none
    | _ => none
  | .write _ _, .error e, s => some (s.setErrno t e)
  | .poll _, .ok n, s => if n = 1 then some s else none
  | .poll _, .error e, s => some (s.setErrno t e)
  | .epollAdd h fd e, .ok _, s =>
    if s.fds fd ≠ none ∧ s.epoll h fd = none then some (s.setEpoll h fd (some e)) else none
  | .epollAdd _ _ _, .error e, s => some (s.setErrno t e)
  | .epollDel h fd, .ok _, s =>
    if s.epoll h fd ≠ none then some (s.setEpoll h fd none) else none
  | .epollDel _ _, .error e, s => some (s.setErrno t e)
  | .epollWait h maxEvents, .ok l, s =>
    if l.length ≤ maxEvents ∧ (l.map Prod.fst).Nodup ∧ ∀ x ∈ l, s.epoll h x.1 = some x.2 then
      some { s with hist := { s.hist with
        pending := update s.hist.pending t (s.hist.pending t ++ l.map Prod.snd) } }
    else none
  | .epollWait _ _, .error e, s => some (s.setErrno t e)
  | .malloc, r, s => some (if r then s else s.setErrno t .ENOMEM)
  | .baseRun _, _, s => some s
  | .readMboxStat spe, r, s =>
    let m := s.mailboxes spe
    if (r &&& 0xFF).toNat = m.outbound.length ∧
        ((r >>> 8) &&& 0xFF).toNat = m.inDepth - m.inbound.length then some s else none
  | .readOutMbox spe, r, s =>
    match (s.mailboxes spe).outbound with
    | w :: ws => if r = w then
        some { s.setMailboxes spe { s.mailboxes spe with outbound := ws } with
          hist := { s.hist with popped := update s.hist.popped spe (s.hist.popped spe ++ [r]) } }
      else none
    -- an empty mailbox gives some word
    | [] => some { s with
        hist := { s.hist with popped := update s.hist.popped spe (s.hist.popped spe ++ [r]) } }
  | .writeInMbox spe w, _, s =>
    let m := s.mailboxes spe
    -- a full mailbox loses the word
    let m' := if m.inbound.length < m.inDepth then { m with inbound := m.inbound ++ [w] } else m
    some { s.setMailboxes spe m' with
      hist := { s.hist with sent := update s.hist.sent spe (s.hist.sent spe ++ [w]) } }
  | .spuPush spe w, _, s =>
    let m := s.mailboxes spe
    if m.outbound.length < m.outDepth then
      some { s.setMailboxes spe { m with outbound := m.outbound ++ [w] } with
        hist := { s.hist with pushed := update s.hist.pushed spe (s.hist.pushed spe ++ [w]) } }
    else none
  | .spuPop spe, r, s =>
    match (s.mailboxes spe).inbound with
    | w :: ws => if r = w then
        some { s.setMailboxes spe { s.mailboxes spe with inbound := ws } with
          hist := { s.hist with
            consumed := update s.hist.consumed spe (s.hist.consumed spe ++ [r]) } }
      else none
    | [] => none
  | .note n, _, s => (n.record t s s.hist).map fun h => { s with hist := h }
  | .noteStopInfo fd info, _, s =>
    match s.fds fd with
    | some (.pipeR p) =>
      some (s.setPipe p { s.pipes p with returned := (s.pipes p).returned ++ [info] })
    | _ => some s

/-- What an answer that needs `P` tells. -/
theorem of_guard {α : Type} {P : Prop} [Decidable P] {a b : α}
    (h : (if P then some a else none) = some b) : P ∧ a = b := by
  obtain ⟨hp, h⟩ := Option.ite_none_right_eq_some.mp h
  exact ⟨hp, Option.some.inj h⟩

/-- The machine the library's threads run on. -/
def machine : Conc.Machine Cmd Ans Tid World := ⟨exec⟩

/-- The world after thread `t` has executed a trace (or the same one, where it cannot). -/
def World.after (s : World) (t : Tid) (tr : List (Sigma Ans)) : World :=
  (machine.play t tr s).getD s

/-! ## Parts of a trace -/

/-- The accesses of a trace that satisfy a test. -/
def only (P : Cmd → Bool) (tr : List (Sigma Ans)) : List (Sigma Ans) := tr.filter fun x => P x.1

@[simp] theorem only_nil (P : Cmd → Bool) : only P [] = [] := rfl

@[simp] theorem only_cons (P : Cmd → Bool) (c : Cmd) (r : Ans c) (tr : List (Sigma Ans)) :
    only P (⟨c, r⟩ :: tr) = if P c then ⟨c, r⟩ :: only P tr else only P tr := by
  by_cases h : P c <;> simp [only, h]

@[simp] theorem only_append (P : Cmd → Bool) (tr₁ tr₂ : List (Sigma Ans)) :
    only P (tr₁ ++ tr₂) = only P tr₁ ++ only P tr₂ := List.filter_append ..

/-! ## Commands as programs -/

/-- One command as a program. -/
abbrev perform (c : Cmd) : Sys (Ans c) := Conc.Prog.perform c

abbrev lock (m : Mutex) : Sys Unit := perform (.lock m)

abbrev unlock (m : Mutex) : Sys Unit := perform (.unlock m)

abbrev load (l : Loc) : Sys Int := perform (.load l)

abbrev store (l : Loc) (v : Int) : Sys Unit := perform (.store l v)

abbrev note (n : Note) : Sys Unit := perform (.note n)

/-- Fail the way the library does: set `errno` and return `-1`. -/
def fail (e : Errno) : Sys Int := do
  perform (.setErrno e)
  return -1

end LibSpe2
