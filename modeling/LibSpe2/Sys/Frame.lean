import LibSpe2.Sys.Cmd

/-!
# What a command leaves alone

A protocol is about some parts of the world only, and most commands do not touch them. `Touches` says
which parts a command may change; `exec_same` is the one case analysis over all commands that shows
that it changes nothing else.
-/

namespace LibSpe2

/-- A part of the world that a protocol may be about, with the history that goes with it. -/
inductive Part where
  | owner | fds | records | epoll | reports | mailboxes | bursts | mem | buffer

/-- What is in a part. -/
def Part.Content : Part → Type
  | .owner => Mutex → Option Tid
  | .fds => Fd → Option File
  | .records => Spe → EventType → EventUnit
  | .epoll => Handler → Fd → Option EpollEntry
  | .reports => (Tid → List EpollEntry) × List Delivery
  | .mailboxes => (Spe → Mailboxes) × (Spe → List Word) × (Spe → List Word) × (Spe → List Word) ×
      (Spe → List Word)
  | .bursts => (Spe → List Burst) × (Spe → List Burst)
  | .mem => Loc → Int
  | .buffer => Spe → StopInfo

def Part.content : (p : Part) → World → p.Content
  | .owner, s => s.owner
  | .fds, s => s.fds
  | .records, s => s.records
  | .epoll, s => s.epoll
  | .reports, s => (s.hist.pending, s.hist.delivered)
  | .mailboxes, s => (s.mailboxes, s.hist.pushed, s.hist.popped, s.hist.sent, s.hist.consumed)
  | .bursts, s => (s.hist.outBursts, s.hist.inBursts)
  | .mem, s => s.mem
  | .buffer, s => s.buffer

/-- The parts that a command may change. -/
def Cmd.Touches : Cmd → Part → Prop
  | .lock _, .owner | .unlock _, .owner => True
  | .openat _ _, .fds | .pipe _, .fds | .close _, .fds => True
  | .storeRecord _ _ _ _, .records | .clearRecord _ _, .records => True
  | .epollAdd _ _ _, .epoll | .epollDel _ _, .epoll | .close _, .epoll => True
  | .epollWait _ _, .reports | .note (.delivered _ _ _), .reports => True
  | .readOutMbox _, .mailboxes | .writeInMbox _ _, .mailboxes => True
  | .spuPush _ _, .mailboxes | .spuPop _, .mailboxes => True
  | .note (.outBurst _ _), .bursts | .note (.inBurst _ _), .bursts => True
  | .store _ _, .mem => True
  | .storeBuffer _ _, .buffer => True
  | _, _ => False

section

variable {t : Tid} {s s' : World} {p : Part}

theorem content_noteClose (fd : Fd) : p.content (s.noteClose fd) = p.content s := by
  unfold World.noteClose
  split <;> cases p <;> rfl

theorem content_record {n : Note} {h : History} (hp : ¬ (Cmd.note n).Touches p)
    (hn : n.record t s s.hist = some h) : p.content { s with hist := h } = p.content s := by
  cases n with
  | delivered | outBurst | inBurst =>
    obtain rfl := Option.some.inj hn
    cases p <;> first | rfl | exact absurd trivial hp
  | closing =>
    obtain ⟨-, rfl⟩ := of_guard hn
    cases p <;> rfl
  | runAcquired =>
    simp only [Note.record] at hn
    split at hn <;>
    · obtain rfl := Option.some.inj hn
      cases p <;> rfl
  | _ =>
    obtain rfl := Option.some.inj hn
    cases p <;> rfl

/-- **The frame of a command.** -/
theorem exec_same {cmd : Cmd} (hp : ¬ cmd.Touches p) {r : Ans cmd} (he : exec t cmd r s = some s') :
    p.content s' = p.content s := by
  cases cmd with
  | lock | unlock | spuPush =>
    obtain ⟨-, rfl⟩ := of_guard he
    cases p <;> first | rfl | exact absurd trivial hp
  | load | flags | loadBuffer | loadRecord | errno | readMboxStat =>
    obtain ⟨-, rfl⟩ := of_guard he
    rfl
  | store | storeBuffer | storeRecord | clearRecord | setErrno | writeInMbox | baseRun =>
    obtain rfl := Option.some.inj he
    cases p <;> first | rfl | exact absurd trivial hp
  | malloc =>
    obtain rfl := Option.some.inj he
    split <;> cases p <;> rfl
  | close fd =>
    obtain rfl := Option.some.inj he
    refine Eq.trans ?_ (content_noteClose fd)
    cases p <;> first | rfl | exact absurd trivial hp
  | openat | pipe | poll | epollAdd | epollDel | epollWait =>
    cases r with
    | error =>
      obtain rfl := Option.some.inj he
      cases p <;> rfl
    | ok =>
      obtain ⟨-, rfl⟩ := of_guard he
      cases p <;> first | rfl | exact absurd trivial hp
  | fcntlGetfl | fcntlSetfl | write =>
    cases r with
    | error =>
      obtain rfl := Option.some.inj he
      cases p <;> rfl
    | ok =>
      simp only [exec] at he
      split at he <;> first
        | (obtain ⟨-, rfl⟩ := of_guard he; cases p <;> rfl)
        | (obtain rfl := Option.some.inj he; cases p <;> rfl)
        | (split at he <;> first | (obtain rfl := Option.some.inj he; cases p <;> rfl) | cases he)
        | cases he
  | read =>
    cases r <;> simp only [exec] at he <;> split at he <;> first
      | (obtain ⟨-, rfl⟩ := of_guard he; cases p <;> rfl)
      | (obtain rfl := Option.some.inj he; cases p <;> rfl)
      | cases he
  | readOutMbox | spuPop =>
    simp only [exec] at he
    split at he <;> first
      | (obtain ⟨-, rfl⟩ := of_guard he; cases p <;> first | rfl | exact absurd trivial hp)
      | (obtain rfl := Option.some.inj he; cases p <;> first | rfl | exact absurd trivial hp)
      | cases he
  | noteStopInfo =>
    simp only [exec] at he
    split at he <;>
    · obtain rfl := Option.some.inj he
      cases p <;> rfl
  | note n =>
    obtain ⟨h, hn, rfl⟩ := Option.map_eq_some_iff.mp he
    exact content_record hp hn

/-- A thread does not touch the `errno` of another one. -/
theorem exec_errno {cmd : Cmd} {r : Ans cmd} {u : Tid} (he : exec t cmd r s = some s') (hu : u ≠ t) :
    s'.errno u = s.errno u := by
  have hset (s : World) (e : Errno) : (s.setErrno t e).errno u = s.errno u :=
    Function.update_of_ne hu ..
  cases cmd with
  | lock | unlock | spuPush | load | flags | loadBuffer | loadRecord | errno | readMboxStat =>
    obtain ⟨-, rfl⟩ := of_guard he
    rfl
  | store | storeBuffer | storeRecord | clearRecord | writeInMbox | baseRun =>
    obtain rfl := Option.some.inj he
    rfl
  | setErrno =>
    obtain rfl := Option.some.inj he
    exact hset ..
  | malloc =>
    obtain rfl := Option.some.inj he
    split
    · rfl
    · exact hset ..
  | close fd =>
    obtain rfl := Option.some.inj he
    show (s.noteClose fd).errno u = _
    unfold World.noteClose
    split <;> rfl
  | openat | pipe | poll | epollAdd | epollDel | epollWait =>
    cases r with
    | error =>
      obtain rfl := Option.some.inj he
      exact hset ..
    | ok =>
      obtain ⟨-, rfl⟩ := of_guard he
      rfl
  | fcntlGetfl | fcntlSetfl | write =>
    cases r with
    | error =>
      obtain rfl := Option.some.inj he
      exact hset ..
    | ok =>
      simp only [exec] at he
      split at he <;> first
        | (obtain ⟨-, rfl⟩ := of_guard he; rfl)
        | (obtain rfl := Option.some.inj he; rfl)
        | (split at he <;> first | (obtain rfl := Option.some.inj he; rfl) | cases he)
        | cases he
  | read =>
    cases r <;> simp only [exec] at he <;> split at he <;> first
      | (obtain ⟨-, rfl⟩ := of_guard he; first | rfl | exact hset ..)
      | (obtain rfl := Option.some.inj he; first | rfl | exact hset ..)
      | cases he
  | readOutMbox | spuPop =>
    simp only [exec] at he
    split at he <;> first
      | (obtain ⟨-, rfl⟩ := of_guard he; rfl)
      | (obtain rfl := Option.some.inj he; rfl)
      | cases he
  | noteStopInfo =>
    simp only [exec] at he
    split at he <;>
    · obtain rfl := Option.some.inj he
      rfl
  | note n =>
    obtain ⟨h, hn, rfl⟩ := Option.map_eq_some_iff.mp he
    rfl

end

end LibSpe2
