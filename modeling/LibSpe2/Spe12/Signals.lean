import LibSpe2.Conc.Marked
import LibSpe2.Spe12.EventQueue

/-!
# Stopping and continuing an SPE thread

`SIGSTOP` sets a flag, which `do_spe_run` tests after a run of the SPE and clears when it has been woken up.
`SIGCONT` wakes up a thread that waits; the flag it leaves alone.

* `Story`, `see` — what has become of the stop requests and of the events of a thread, followed beside a run.
* `Met` — the `SIGCONT`s that find a thread in its pause, or find it not stopped.
* `Run`, `Sending`, `Fits` — how far the thread and the sender of a `SIGCONT` are, and what they rely on.

Main results:
* `sigcont_wakes` — an event that has been put into the pipe never waits for a `SIGCONT` that was sent behind
  it; and a stop request does not in the runs that meet the condition.
* `sigcont_lost` — a `SIGCONT` that comes before the thread waits is lost.
-/

namespace LibSpe2.Spe12

open Conc
open Function (update update_self update_of_ne update_eq_self)

namespace Signals

/-! ## What is observed -/

/-- What a thread waits for in `pthread_cond_wait`. -/
inductive Wait where
  | stop | event
  deriving DecidableEq

/-- What has become of an SPE thread. -/
structure Story where
  /-- It waits, and nobody has signalled since. -/
  waits : Option Wait
  /-- It is in its pause: from the wait until it clears the flag. -/
  pausing : Bool
  /-- A `SIGCONT` is being sent, and has looked at the flags. -/
  looked : Bool
  /-- Neither has there been a stop request since. -/
  decided : Bool
  /-- A `SIGCONT` has been sent since the latest stop request. -/
  sinceStop : Bool
  /-- A `SIGCONT` has been sent since the latest event was put into the pipe. -/
  sinceEvent : Bool
  deriving DecidableEq

namespace Story

variable (y : Story)

def start : Story := ⟨none, false, false, false, false, false⟩

/-- It waits because of a stop request, though it was told to go on. -/
def LostStop : Prop := y.waits = some .stop ∧ y.sinceStop = true

/-- It waits with an event, though it was told to go on. -/
def LostEvent : Prop := y.waits = some .event ∧ y.sinceEvent = true

def look : Story := { y with looked := true, decided := true }

def wait (eventPending : Bool) : Story :=
  if eventPending then { y with waits := some .event } else { y with waits := some .stop, pausing := true }

def wake : Story := { y with waits := none }

/-- The lock is released, and the signal is sent if there is one. -/
def waitOver : Story :=
  { y with
    looked := false, decided := false
    sinceStop := y.sinceStop || y.decided, sinceEvent := y.sinceEvent || y.looked }

def stop : Story := { y with decided := false, sinceStop := false }

def resume : Story := { y with pausing := false }

def put : Story := { y with sinceEvent := false }

end Story

abbrev Seen := Tid → Story

/-- What is seen of a command of thread `t` in `s`. -/
def see (t : Tid) : (c : Cmd) → Ans c → World → Seen → Seen
  -- only `spe_kill` looks at the flag under the lock
  | .loadFlag th .stop, _, s, x =>
    if (s.threads th).eventLock = some t then update x th (x th).look else x
  | .condSignal th, _, _, x => update x th (x th).wake
  | .condWait th, _, s, x => update x th ((x th).wait (s.threads th).eventPending)
  | .condWake th, _, _, x => update x th (x th).wake
  | .unlockEvent th, _, _, x => update x th (x th).waitOver
  | .storeFlag th .stop true, _, _, x => update x th (x th).stop
  | .storeFlag th .stop false, _, _, x => update x th (x th).resume
  | .writePipe th _ _, _, _, x => update x th (x th).put
  | _, _, _, x => x

def observer : Observer Cmd Ans Tid World Empty Seen := ⟨see, fun _ k => k.elim⟩

/-- A thread store comes from `calloc`. -/
structure Fresh (c : ThreadStore) : Prop where
  events : c.toEvents = .empty
  eventLock : c.eventLock = none
  eventPending : c.eventPending = false
  stop : c.stop = false

/-- SPE threads, callers and an observer. -/
def observedSystem : System (Marked Cmd Empty) (Marked.Ans Ans) Tid (World × Seen) where
  toMachine := machine.observed observer
  Call := Call
  code t c := (c.code t).marked
  init y := (∀ th, Fresh (y.1.threads th)) ∧ y.2 = fun _ => .start

/-- A `SIGCONT` that finds the stop flag set finds the thread in its pause. -/
def Met (t : Tid) : (c : Marked Cmd Empty) → Marked.Ans Ans c → World × Seen → Prop
  | .cmd (.loadFlag th .stop), v, y => v = true → (y.1.threads th).eventLock = some t → (y.2 th).pausing = true
  | _, _, _ => True

/-! ## Phases -/

/-- How far `do_spe_run` is. -/
inductive Run where
  /-- The stop flag was set. -/
  | tested
  | entering
  | pausing
  | woken
  | leaving
  /-- It has the lock because of what the run has returned. -/
  | held
  | put
  | pending
  | waiting
  | roused
  deriving DecidableEq

/-- How far `spe_kill` is under the lock. -/
inductive Sending where
  | held
  | loaded (eventPending : Bool)
  | asked (eventPending stop : Bool)

inductive Phase where
  | idle
  | run (r : Run)
  | send (th : Tid) (m : Sending)

namespace Phase

def run? : Phase → Option Run
  | run r => some r
  | _ => none

def send? (th : Tid) : Phase → Option Sending
  | send th' m => if th' = th then some m else none
  | _ => none

/-- Thread `t` is running, or sending something to, `th`. -/
def About (t th : Tid) : Phase → Prop
  | idle => True
  | run _ => t = th
  | send th' _ => th' = th

end Phase

/-- It has its lock. -/
def locked : Option Run → Bool
  | some .entering | some .woken | some .held | some .put | some .pending | some .roused => true
  | _ => false

def paused : Option Run → Bool
  | some .pausing | some .woken | some .leaving => true
  | _ => false

/-- The stop flag is set. -/
def stopped : Option Run → Bool
  | some .tested | some .entering | some .pausing | some .woken | some .leaving => true
  | _ => false

/-- `event_pending` is set. -/
def awaits : Option Run → Bool
  | some .pending | some .waiting | some .roused => true
  | _ => false

/-- It has put an event into the pipe and not yet waited. -/
def fresh : Option Run → Bool
  | some .put | some .pending => true
  | _ => false

/-- What a sender knows. -/
def Sending.Fits : Sending → ThreadStore → Story → Prop
  | .held, _, _ => True
  | .loaded eventPending, c, _ => eventPending = c.eventPending
  | .asked eventPending stop, _, y =>
    (eventPending = false → y.waits ≠ some .event) ∧ (stop = false → y.waits ≠ some .stop)

/-- A thread store and its story, with the thread itself at `r` and the senders at `send`. -/
structure Fits (strict : Prop) (th : Tid) (r : Option Run) (send : Tid → Option Sending) (c : ThreadStore)
    (y : Story) : Prop where
  lock : ∀ u, c.eventLock = some u ↔ (u = th ∧ locked r = true) ∨ (send u).isSome = true
  pending : c.eventPending = awaits r
  pausing : y.pausing = paused r
  flag : stopped r = true → c.stop = true
  waitsStop : y.waits = some .stop → r = some .pausing
  waitsEvent : y.waits = some .event → r = some .waiting
  unsent : fresh r = true → y.sinceEvent = false
  looked : y.looked = true → ∃ u p v, send u = some (.asked p v)
  decided : y.decided = true → y.looked = true
  sends : ∀ u m, send u = some m → m.Fits c y
  /-- A `SIGCONT` behind the latest stop request has met the thread in its pause. -/
  met : strict → c.stop = true → y.sinceStop = true ∨ y.decided = true → y.pausing = true
  stopMet : strict → ¬ y.LostStop
  eventMet : ¬ y.LostEvent

/-- Those who are sending something to `th`. -/
def senders (γ : Tid → Phase) (th : Tid) : Tid → Option Sending := fun u => (γ u).send? th

def Inv (strict : Prop) (γ : Tid → Phase) (y : World × Seen) : Prop :=
  ∀ th, Fits strict th (γ th).run? (senders γ th) (y.1.threads th) (y.2 th)

def proto (strict : Prop) : Proto (Marked Cmd Empty) Tid (World × Seen) Phase where
  idle := .idle
  inv := Inv strict

variable {strict : Prop} {t u th : Tid} {g g' : Phase} {γ : Tid → Phase} {s s' : World} {x x' : Seen}
  {r r' : Option Run} {send : Tid → Option Sending} {c c' : ThreadStore} {y y' : Story} {α β : Type}

/-- Thread `t` runs `p` safely. -/
abbrev Safe (strict : Prop) (t : Tid) (p : Prog (Marked Cmd Empty) (Marked.Ans Ans) α) (g : Phase)
    (Q : α → Phase → Prop) : Prop :=
  Proto.Safe (machine.observed observer) (fun t c r y => strict → Met t c r y) (proto strict) t p g Q

/-! ## The lock -/

theorem Fits.free (h : Fits strict th r send c y) (hlock : c.eventLock = none) :
    locked r = false ∧ ∀ u, send u = none := by
  have hfree (u : Tid) : ¬ ((u = th ∧ locked r = true) ∨ (send u).isSome = true) := by
    intro hu
    rw [(h.lock u).mpr hu] at hlock
    cases hlock
  constructor
  · exact Bool.eq_false_iff.mpr fun hr => hfree th (.inl ⟨rfl, hr⟩)
  · intro u
    exact Option.not_isSome_iff_eq_none.mp fun hu => hfree u (.inr hu)

/-- While the thread has its lock, nobody is sending. -/
theorem Fits.alone (h : Fits strict th r send c y) (hself : send th = none) (hr : locked r = true) :
    c.eventLock = some th ∧ (∀ u, send u = none) ∧ y.looked = false ∧ y.decided = false := by
  have hown : c.eventLock = some th := (h.lock th).mpr (.inl ⟨rfl, hr⟩)
  have hnone (u : Tid) : send u = none := by
    apply Option.not_isSome_iff_eq_none.mp
    intro hu
    have hlock := (h.lock u).mpr (.inr hu)
    rw [hown] at hlock
    obtain rfl := Option.some.inj hlock
    rw [hself] at hu
    cases hu
  have hlooked : y.looked = false := by
    apply Bool.eq_false_iff.mpr
    intro hy
    obtain ⟨u, p, v, hu⟩ := h.looked hy
    rw [hnone u] at hu
    cases hu
  refine ⟨hown, hnone, hlooked, ?_⟩
  exact Bool.eq_false_iff.mpr fun hy => Bool.false_ne_true (hlooked.symm.trans (h.decided hy))

/-- While somebody is sending, nobody else has the lock. -/
theorem Fits.sender (h : Fits strict th r send c y) (ht : (send t).isSome = true) (hr : t = th → r = none) :
    c.eventLock = some t ∧ locked r = false ∧ ∀ u, u ≠ t → send u = none := by
  have hown : c.eventLock = some t := (h.lock t).mpr (.inr ht)
  refine ⟨hown, Bool.eq_false_iff.mpr fun hl => ?_, fun u hu => ?_⟩
  · have hth := (h.lock th).mpr (.inl ⟨rfl, hl⟩)
    rw [hown] at hth
    obtain rfl := Option.some.inj hth
    rw [hr rfl] at hl
    cases hl
  · apply Option.not_isSome_iff_eq_none.mp
    intro hs
    have hlock := (h.lock u).mpr (.inr hs)
    rw [hown] at hlock
    exact hu (Option.some.inj hlock).symm

/-- What a sender knows of the flag and of the wait. -/
theorem Sending.Fits.congr {m : Sending} (h : m.Fits c y) (hc : c'.eventPending = c.eventPending)
    (hy : y'.waits = y.waits) : m.Fits c' y' := by
  cases m with
  | held => trivial
  | loaded p => exact Eq.trans h hc.symm
  | asked p v =>
    show (_ → y'.waits ≠ _) ∧ (_ → y'.waits ≠ _)
    rw [hy]
    exact h

theorem Fits.awake (h : Fits strict th r send c y) (hp : r ≠ some .pausing) (hw : r ≠ some .waiting) :
    y.waits = none := by
  cases hy : y.waits with
  | none => rfl
  | some w =>
    cases w with
    | stop => exact absurd (h.waitsStop hy) hp
    | event => exact absurd (h.waitsEvent hy) hw

/-! ## Steps of the thread itself -/

theorem fits_idle (hc : Fresh c) : Fits strict th none (fun _ => none) c .start := by
  constructor
  · intro u
    rw [hc.eventLock]
    exact iff_of_false nofun nofun
  · exact hc.eventPending
  · rfl
  all_goals nofun

/-- It finds the stop flag set. -/
theorem Fits.test (h : Fits strict th none send c y) (hstop : c.stop = true) :
    Fits strict th (some .tested) send c y :=
  { h with flag := fun _ => hstop
           waitsStop := fun hw => nomatch h.waitsStop hw
           waitsEvent := fun hw => nomatch h.waitsEvent hw }

/-- It takes its lock to pause, or because of what the run has returned. -/
theorem Fits.enter (h : Fits strict th r send c y) (hlock : c.eventLock = none)
    (hr : r = some .tested ∧ r' = some .entering ∨ r = none ∧ r' = some .held) :
    Fits strict th r' send { c with eventLock := some th } y := by
  obtain ⟨-, hsend⟩ := h.free hlock
  have hlocked : locked r' = true := by
    rcases hr with ⟨-, rfl⟩ | ⟨-, rfl⟩ <;> rfl
  obtain ⟨-, hpending, hpausing, hflag, hstop, hevent, -, hlooked, hdecided, -, hmet, hstopMet, heventMet⟩ := h
  constructor
  · intro u
    rw [hsend u, hlocked, Option.some.injEq]
    simp [eq_comm]
  all_goals
    rcases hr with ⟨rfl, rfl⟩ | ⟨rfl, rfl⟩ <;> simp_all [awaits, paused, stopped, fresh]

/-- It waits for a `SIGCONT`. -/
theorem Fits.pause (h : Fits strict th (some .entering) send c y) (hself : send th = none) :
    Fits strict th (some .pausing) send { c with eventLock := none } (y.wait c.eventPending) := by
  obtain ⟨-, hsend, hlooked, hdecided⟩ := h.alone hself rfl
  have hpending : c.eventPending = false := h.pending
  have hstop : c.stop = true := h.flag rfl
  have hnot : strict → y.sinceStop = false := by
    intro hs
    apply Bool.eq_false_iff.mpr
    intro hsince
    have hpausing := h.met hs hstop (.inl hsince)
    rw [h.pausing] at hpausing
    cases hpausing
  rw [hpending]
  constructor
  · intro u
    simp [hsend u, locked]
  all_goals simp_all [Story.wait, awaits, paused, stopped, fresh, Story.LostStop, Story.LostEvent]

/-- It waits with an event that it has put into the pipe. -/
theorem Fits.await (h : Fits strict th (some .pending) send c y) (hself : send th = none) :
    Fits strict th (some .waiting) send { c with eventLock := none } (y.wait c.eventPending) := by
  obtain ⟨-, hsend, hlooked, hdecided⟩ := h.alone hself rfl
  have hpending : c.eventPending = true := h.pending
  have hpausing : y.pausing = false := h.pausing
  have hsince : y.sinceEvent = false := h.unsent rfl
  have hmet := h.met
  rw [hpending]
  constructor
  · intro u
    simp [hsend u, locked]
  all_goals simp_all [Story.wait, awaits, paused, stopped, fresh, Story.LostStop, Story.LostEvent]

/-- It has its lock again. -/
theorem Fits.wake (h : Fits strict th r send c y) (hlock : c.eventLock = none)
    (hr : r = some .pausing ∧ r' = some .woken ∨ r = some .waiting ∧ r' = some .roused) :
    Fits strict th r' send { c with eventLock := some th } y.wake := by
  obtain ⟨-, hsend⟩ := h.free hlock
  have hlocked : locked r' = true := by
    rcases hr with ⟨-, rfl⟩ | ⟨-, rfl⟩ <;> rfl
  obtain ⟨-, hpending, hpausing, hflag, -, -, -, hlooked, hdecided, -, hmet, -, -⟩ := h
  constructor
  · intro u
    rw [hsend u, hlocked, Option.some.injEq]
    simp [eq_comm]
  all_goals
    rcases hr with ⟨rfl, rfl⟩ | ⟨rfl, rfl⟩ <;>
      simp_all [Story.wake, awaits, paused, stopped, fresh, Story.LostStop, Story.LostEvent]

/-- It releases its lock. -/
theorem Fits.leave (h : Fits strict th r send c y) (hself : send th = none)
    (hr : r = some .woken ∧ r' = some .leaving ∨ r = some .held ∧ r' = none) :
    Fits strict th r' send { c with eventLock := none } y.waitOver := by
  have hlocked : locked r = true ∧ locked r' = false := by
    rcases hr with ⟨rfl, rfl⟩ | ⟨rfl, rfl⟩ <;> exact ⟨rfl, rfl⟩
  obtain ⟨-, hsend, hlooked, hdecided⟩ := h.alone hself hlocked.1
  obtain ⟨-, hpending, hpausing, hflag, hstop, hevent, -, -, -, -, hmet, hstopMet, heventMet⟩ := h
  constructor
  · intro u
    simp [hsend u, hlocked.2]
  all_goals
    rcases hr with ⟨rfl, rfl⟩ | ⟨rfl, rfl⟩ <;>
      simp_all [Story.waitOver, awaits, paused, stopped, fresh, Story.LostStop, Story.LostEvent]

/-- It clears the stop flag. -/
theorem Fits.resume (h : Fits strict th (some .leaving) send c y) :
    Fits strict th none send { c with stop := false } y.resume := by
  have hwaits : y.waits = none := h.awake nofun nofun
  obtain ⟨hlock, hpending, -, -, -, -, -, hlooked, hdecided, hsends, -, -, -⟩ := h
  constructor
  · exact hlock
  · exact hpending
  · rfl
  · nofun
  · simp [Story.resume, hwaits]
  · simp [Story.resume, hwaits]
  · nofun
  · exact hlooked
  · exact hdecided
  · exact fun u m hm => (hsends u m hm).congr rfl rfl
  · nofun
  · simp [Story.resume, Story.LostStop, hwaits]
  · simp [Story.resume, Story.LostEvent, hwaits]

/-- It puts an event into the pipe, for which it is going to wait or not. -/
theorem Fits.put (h : Fits strict th r send c y)
    (hr : r = some .held ∧ (r' = some .put ∨ r' = some .held) ∨ r = none ∧ r' = none) :
    Fits strict th r' send c y.put := by
  have hwaits : y.waits = none := by
    rcases hr with ⟨rfl, -⟩ | ⟨rfl, -⟩ <;> exact h.awake nofun nofun
  have hsame : locked r' = locked r ∧ awaits r' = awaits r ∧ Signals.paused r' = Signals.paused r ∧
      stopped r' = false := by
    rcases hr with ⟨rfl, rfl | rfl⟩ | ⟨rfl, rfl⟩ <;> exact ⟨rfl, rfl, rfl, rfl⟩
  obtain ⟨hlocked, hawaits, hpaused, hstopped⟩ := hsame
  obtain ⟨hlock, hpending, hpausing, -, -, -, -, hlooked, hdecided, hsends, hmet, -, -⟩ := h
  constructor
  · rw [hlocked]
    exact hlock
  · exact hpending.trans hawaits.symm
  · exact hpausing.trans hpaused.symm
  · rw [hstopped]
    nofun
  · simp [Story.put, hwaits]
  · simp [Story.put, hwaits]
  · exact fun _ => rfl
  · exact hlooked
  · exact hdecided
  · exact fun u m hm => (hsends u m hm).congr rfl rfl
  · exact hmet
  · simp [Story.put, Story.LostStop, hwaits]
  · simp [Story.put, Story.LostEvent, hwaits]

/-- It shows that it is waiting, or no longer does. -/
theorem Fits.setPending (h : Fits strict th r send c y) (hself : send th = none)
    (hr : r = some .put ∧ r' = some .pending ∨ r = some .roused ∧ r' = some .held) :
    Fits strict th r' send { c with eventPending := awaits r' } y := by
  have hlocked : locked r = true ∧ locked r' = true := by
    rcases hr with ⟨rfl, rfl⟩ | ⟨rfl, rfl⟩ <;> exact ⟨rfl, rfl⟩
  have hwaits : y.waits = none := by
    rcases hr with ⟨rfl, -⟩ | ⟨rfl, -⟩ <;> exact h.awake nofun nofun
  obtain ⟨-, hsend, -, -⟩ := h.alone hself hlocked.1
  obtain ⟨hlock, -, hpausing, -, -, -, hunsent, hlooked, hdecided, -, hmet, hstopMet, heventMet⟩ := h
  constructor
  · intro u
    have hu := hlock u
    rw [hlocked.1] at hu
    rw [hlocked.2]
    exact hu
  · rfl
  · rcases hr with ⟨rfl, rfl⟩ | ⟨rfl, rfl⟩ <;> exact hpausing
  · rcases hr with ⟨-, rfl⟩ | ⟨-, rfl⟩ <;> nofun
  · simp [hwaits]
  · simp [hwaits]
  · rcases hr with ⟨rfl, rfl⟩ | ⟨-, rfl⟩
    · exact hunsent
    · nofun
  · exact hlooked
  · exact hdecided
  · simp [hsend]
  · exact hmet
  · exact hstopMet
  · exact heventMet

/-- Somebody asks it to stop, or it has failed. -/
theorem Fits.stop (h : Fits strict th r send c y) : Fits strict th r send { c with stop := true } y.stop := by
  obtain ⟨hlock, hpending, hpausing, -, hstop, hevent, hunsent, hlooked, -, hsends, -, -, heventMet⟩ := h
  constructor
  · exact hlock
  · exact hpending
  · exact hpausing
  · exact fun _ => rfl
  · exact hstop
  · exact hevent
  · exact hunsent
  · exact hlooked
  · nofun
  · exact fun u m hm => (hsends u m hm).congr rfl rfl
  · simp [Story.stop]
  · simp [Story.stop, Story.LostStop]
  · exact heventMet

/-! ## Steps of a sender -/

theorem Fits.grab (h : Fits strict th r send c y) (hlock : c.eventLock = none) :
    Fits strict th r (update send t (some .held)) { c with eventLock := some t } y := by
  obtain ⟨hfree, hsend⟩ := h.free hlock
  obtain ⟨-, hpending, hpausing, hflag, hstop, hevent, hunsent, hlooked, hdecided, -, hmet, hstopMet, heventMet⟩ := h
  have hother {u : Tid} (hu : u ≠ t) : update send t (some .held) u = none := by
    rw [update_of_ne hu, hsend]
  refine ⟨fun u => ?_, hpending, hpausing, hflag, hstop, hevent, hunsent, fun hy => ?_, hdecided, fun u m hm => ?_,
    hmet, hstopMet, heventMet⟩
  · by_cases hu : u = t
    · rw [hu, update_self]
      simp
    · rw [hother hu, hfree]
      simp [Ne.symm hu]
  · obtain ⟨u, p, v, hu⟩ := hlooked hy
    rw [hsend] at hu
    cases hu
  · by_cases hu : u = t
    · rw [hu, update_self] at hm
      obtain rfl := Option.some.inj hm
      trivial
    · rw [hother hu] at hm
      cases hm

theorem Fits.setSend {m : Sending} (h : Fits strict th r send c y) (ht : (send t).isSome = true)
    (hr : t = th → r = none) (hm : m.Fits c y) (hy : y.looked = true → ∃ p v, m = .asked p v) :
    Fits strict th r (update send t (some m)) c y := by
  obtain ⟨hown, hfree, hother⟩ := h.sender ht hr
  refine { h with lock := fun u => ?_, looked := fun hlooked => ?_, sends := fun u m' hm' => ?_ }
  · rw [h.lock u]
    by_cases hu : u = t
    · rw [hu, update_self, ht]
      rfl
    · rw [update_of_ne hu]
  · obtain ⟨p, v, rfl⟩ := hy hlooked
    exact ⟨t, p, v, update_self ..⟩
  · by_cases hu : u = t
    · rw [hu, update_self] at hm'
      obtain rfl := Option.some.inj hm'
      exact hm
    · rw [update_of_ne hu] at hm'
      exact h.sends u m' hm'

/-- It looks at the flags. -/
theorem Fits.look (h : Fits strict th r send c y) (ha : ∃ u p v, send u = some (.asked p v))
    (hmet : strict → c.stop = true → y.pausing = true) : Fits strict th r send c y.look :=
  { h with looked := fun _ => ha
           decided := fun _ => rfl
           sends := fun u m hm => (h.sends u m hm).congr rfl rfl
           met := fun hs hstop _ => hmet hs hstop }

/-- It signals. -/
theorem Fits.signal (h : Fits strict th r send c y) : Fits strict th r send c y.wake where
  lock := h.lock
  pending := h.pending
  pausing := h.pausing
  flag := h.flag
  waitsStop := nofun
  waitsEvent := nofun
  unsent := h.unsent
  looked := h.looked
  decided := h.decided
  sends u m hm := by
    cases m with
    | held => trivial
    | loaded p => exact h.sends u _ hm
    | asked p v => exact ⟨nofun, nofun⟩
  met := h.met
  stopMet := nofun
  eventMet := nofun

/-- It releases the lock; the thread was not waiting, if it has looked at the flags. -/
theorem Fits.release {m : Sending} (h : Fits strict th r send c y) (ht : send t = some m) (hr : t = th → r = none)
    (hy : y.looked = true → m = .asked false false) :
    Fits strict th r (update send t none) { c with eventLock := none } y.waitOver := by
  obtain ⟨hown, hfree, hother⟩ := h.sender (Option.isSome_of_eq_some ht) hr
  have hnone (u : Tid) : update send t none u = none := by
    by_cases hu : u = t
    · rw [hu, update_self]
    · rw [update_of_ne hu, hother u hu]
  have hwaits : y.looked = true → y.waits ≠ some .stop ∧ y.waits ≠ some .event := by
    intro hlooked
    obtain rfl := hy hlooked
    obtain ⟨hevent, hstop⟩ := h.sends t _ ht
    exact ⟨hstop rfl, hevent rfl⟩
  constructor
  · intro u
    rw [hnone u, hfree]
    simp
  · exact h.pending
  · exact h.pausing
  · exact h.flag
  · exact h.waitsStop
  · exact h.waitsEvent
  · intro hf
    have hlocked : locked r = true := by
      cases r with
      | none => exact hf
      | some r => cases r <;> first | rfl | exact hf
    rw [hfree] at hlocked
    cases hlocked
  · nofun
  · nofun
  · intro u m hm
    rw [hnone u] at hm
    cases hm
  · intro hs hstop hsince
    apply h.met hs hstop
    simpa [Story.waitOver] using hsince
  · rintro hs ⟨hwait, hsince⟩
    rcases (Bool.or_eq_true ..).mp hsince with hsince | hdecided
    · exact h.stopMet hs ⟨hwait, hsince⟩
    · exact (hwaits (h.decided hdecided)).1 hwait
  · rintro ⟨hwait, hsince⟩
    rcases (Bool.or_eq_true ..).mp hsince with hsince | hlooked
    · exact h.eventMet ⟨hwait, hsince⟩
    · exact (hwaits hlooked).2 hwait

/-! ## Steps of the system -/

/-- The phase of an SPE thread. -/
def own : Option Run → Phase
  | none => .idle
  | some r => .run r

/-- The phase of a sender. -/
def sending (th : Tid) : Option Sending → Phase
  | none => .idle
  | some m => .send th m

@[simp] theorem run?_own : (own r).run? = r := by cases r <;> rfl

@[simp] theorem send?_own : (own r).send? th = none := by cases r <;> rfl

@[simp] theorem run?_sending {m : Option Sending} : (sending th m).run? = none := by cases m <;> rfl

@[simp] theorem send?_sending {m : Option Sending} : (sending th m).send? th = m := by
  cases m with
  | none => rfl
  | some m => exact if_pos rfl

theorem about_own : (own r).About t t := by
  cases r with
  | none => trivial
  | some r => exact rfl

theorem about_sending {m : Option Sending} : (sending th m).About t th := by
  cases m with
  | none => trivial
  | some m => exact rfl

theorem Phase.About.other (hg : g.About t th) (hu : u ≠ th) : (t = u → g.run? = none) ∧ g.send? u = none := by
  cases g with
  | idle => exact ⟨fun _ => rfl, rfl⟩
  | run r =>
    obtain rfl : t = th := hg
    exact ⟨fun h => absurd h.symm hu, rfl⟩
  | send th' m =>
    obtain rfl : th' = th := hg
    exact ⟨fun _ => rfl, if_neg (Ne.symm hu)⟩

/-- What a command does to the thread stores and stories other than those of `th`. -/
structure Apart (th : Tid) (s s' : World) (x x' : Seen) : Prop where
  threads : ∀ u, u ≠ th → s'.threads u = s.threads u
  story : ∀ u, u ≠ th → x' u = x u

/-- A step that concerns `th` only. -/
theorem Inv.step (h : Inv strict γ (s, x)) (hγ : γ t = g) (hg : g.About t th) (hg' : g'.About t th)
    (hapart : Apart th s s' x x')
    (hth : Fits strict th (update γ t g' th).run? (senders (update γ t g') th) (s'.threads th) (x' th)) :
    Inv strict (update γ t g') (s', x') := by
  intro u
  by_cases hu : u = th
  · rw [hu]
    exact hth
  · show Fits strict u _ _ (s'.threads u) (x' u)
    rw [hapart.threads u hu, hapart.story u hu]
    have hrun : (update γ t g' u).run? = (γ u).run? := by
      by_cases ht : u = t
      · rw [ht, update_self, hγ, (hg.other hu).1 ht.symm, (hg'.other hu).1 ht.symm]
      · rw [update_of_ne ht]
    have hsend : senders (update γ t g') u = senders γ u := by
      funext v
      show (update γ t g' v).send? u = (γ v).send? u
      by_cases hv : v = t
      · rw [hv, update_self, hγ, (hg.other hu).2, (hg'.other hu).2]
      · rw [update_of_ne hv]
    rw [hrun, hsend]
    exact h u

/-- A step of an SPE thread. -/
theorem Inv.own (h : Inv strict γ (s, x)) (hγ : γ t = own r) (hapart : Apart t s s' x x')
    (hth : Fits strict t r (senders γ t) (s.threads t) (x t) → senders γ t t = none →
      Fits strict t r' (senders γ t) (s'.threads t) (x' t)) :
    Inv strict (update γ t (Signals.own r')) (s', x') := by
  have hself : senders γ t t = none := by rw [senders, hγ, send?_own]
  have hfits : Fits strict t r (senders γ t) (s.threads t) (x t) := by
    have ht := h t
    rwa [hγ, run?_own] at ht
  apply h.step hγ about_own about_own hapart
  have hsend : senders (update γ t (Signals.own r')) t = senders γ t := by
    funext v
    by_cases hv : v = t
    · rw [hv, hself, senders, update_self, send?_own]
    · rw [senders, update_of_ne hv, senders]
  rw [update_self, run?_own, hsend]
  exact hth hfits hself

/-- A step of a sender. -/
theorem Inv.sender {m m' : Option Sending} (h : Inv strict γ (s, x)) (hγ : γ t = sending th m)
    (hapart : Apart th s s' x x')
    (hth : ∀ r send, Fits strict th r send (s.threads th) (x th) → send t = m → (t = th → r = none) →
      Fits strict th r (update send t m') (s'.threads th) (x' th)) :
    Inv strict (update γ t (sending th m')) (s', x') := by
  have hrun : t = th → (γ th).run? = none := by
    rintro rfl
    rw [hγ, run?_sending]
  apply h.step hγ about_sending about_sending hapart
  have hsend : senders (update γ t (sending th m')) th = update (senders γ th) t m' := by
    funext v
    by_cases hv : v = t
    · rw [hv, update_self, senders, update_self, send?_sending]
    · rw [update_of_ne hv, senders, update_of_ne hv, senders]
  have hrun' : (update γ t (sending th m') th).run? = (γ th).run? := by
    by_cases ht : th = t
    · rw [hrun ht.symm, ht, update_self, run?_sending]
    · rw [update_of_ne ht]
  rw [hrun', hsend]
  exact hth _ _ (h th) (by rw [senders, hγ, send?_sending]) hrun

/-! ## Commands -/

/-- The flags and locks of all threads are the same. -/
structure SameFlags (s s' : World) : Prop where
  eventLock : ∀ u, (s'.threads u).eventLock = (s.threads u).eventLock
  eventPending : ∀ u, (s'.threads u).eventPending = (s.threads u).eventPending
  stop : ∀ u, (s'.threads u).stop = (s.threads u).stop

theorem Fits.congr (h : Fits strict th r send c y) (hlock : c'.eventLock = c.eventLock)
    (hpending : c'.eventPending = c.eventPending) (hstop : c'.stop = c.stop) : Fits strict th r send c' y :=
  { h with lock := by rw [hlock]; exact h.lock
           pending := hpending.trans h.pending
           flag := by rw [hstop]; exact h.flag
           sends := fun u m hm => (h.sends u m hm).congr hpending rfl
           met := by rw [hstop]; exact h.met }

/-- Nothing is seen of it, and it leaves flags and locks alone. -/
def Cmd.IsQuiet : Cmd → Prop
  | .lockEvent _ | .unlockEvent _ | .condWait _ | .condWake _ | .condSignal _ | .writePipe _ _ _ => False
  | .loadFlag _ .stop | .storeFlag _ .stop _ | .storeFlag _ .eventPending _ => False
  | _ => True

theorem sameFlags_setEvents {e : Events} : SameFlags s (s.setEvents th e) := by
  constructor
  all_goals
    intro u
    by_cases hu : u = th
    · rw [hu]
      simp [World.setEvents, World.setThread]
    · simp [World.setEvents, World.setThread, hu]

theorem exec_quiet {c : Cmd} {a : Ans c} (hc : Cmd.IsQuiet c) (he : exec t c a s = some s') :
    SameFlags s s' ∧ see t c a s x = x := by
  have hsame : SameFlags s s := ⟨fun _ => rfl, fun _ => rfl, fun _ => rfl⟩
  cases c with
  | lockEvent | unlockEvent | condWait | condWake | condSignal | writePipe => exact hc.elim
  | lockGroups | unlockGroups =>
    obtain ⟨-, he⟩ := Option.ite_none_right_eq_some.mp he
    obtain rfl := Option.some.inj he
    exact ⟨⟨fun _ => rfl, fun _ => rfl, fun _ => rfl⟩, rfl⟩
  | loadFlag th f =>
    obtain ⟨-, he⟩ := Option.ite_none_right_eq_some.mp he
    obtain rfl := Option.some.inj he
    refine ⟨hsame, ?_⟩
    cases f with
    | stop => exact hc.elim
    | _ => rfl
  | storeFlag th f v =>
    obtain rfl := Option.some.inj he
    cases f with
    | stop | eventPending => exact hc.elim
    | killed =>
      refine ⟨?_, rfl⟩
      constructor
      all_goals
        intro u
        by_cases hu : u = th
        · rw [hu]
          simp [World.setThread, ThreadStore.setFlag]
        · simp [World.setThread, hu]
  | grpMembers | useEvents | loadEvent | loadData | pipeFd =>
    obtain ⟨-, he⟩ := Option.ite_none_right_eq_some.mp he
    obtain rfl := Option.some.inj he
    exact ⟨hsame, rfl⟩
  | takeEvent =>
    obtain ⟨-, he⟩ := Option.ite_none_right_eq_some.mp he
    obtain rfl := Option.some.inj he
    exact ⟨sameFlags_setEvents, rfl⟩
  | storeEvent | storeData | clearData | clearEvent | handOver =>
    obtain rfl := Option.some.inj he
    exact ⟨sameFlags_setEvents, rfl⟩
  | emptyPipe | readPipe =>
    obtain ⟨c, -, rfl⟩ := Option.map_eq_some_iff.mp he
    exact ⟨sameFlags_setEvents, rfl⟩
  | cancel | setErrno | isMember | contextRun | openIfClosed | poll | readFd =>
    obtain rfl := Option.some.inj he
    exact ⟨hsame, rfl⟩

theorem safe_quiet {c : Cmd} (hc : Cmd.IsQuiet c) : Safe strict t (Prog.perform c).marked g fun _ g' => g' = g := by
  apply Proto.Safe.observed
  intro γ s x hi hg
  refine ⟨trivial, fun a s' _ he => ⟨g, fun u => ?_, rfl⟩⟩
  obtain ⟨hsame, hsee⟩ := exec_quiet (x := x) hc he
  rw [← hg, update_eq_self]
  show Fits strict u _ _ (s'.threads u) (see t c a s x u)
  rw [hsee]
  exact (hi u).congr (hsame.eventLock u) (hsame.eventPending u) (hsame.stop u)

theorem safe_quiet_all {p : Code α} (hp : p.All Cmd.IsQuiet) : Safe strict t p.marked g fun _ g' => g' = g :=
  .marked_all hp fun _ hc => safe_quiet hc

/-- A command of an SPE thread. -/
theorem safe_own {c : Cmd} (r' : Ans c → Option Run)
    (h : ∀ a s s' x send, exec t c a s = some s' → Fits strict t r send (s.threads t) (x t) → send t = none →
      Apart t s s' x (see t c a s x) ∧ Fits strict t (r' a) send (s'.threads t) (see t c a s x t)) :
    Safe strict t (Prog.perform c).marked (own r) fun a g' => g' = own (r' a) := by
  apply Proto.Safe.observed
  intro γ s x hi hγ
  have hself : senders γ t t = none := by rw [senders, hγ, send?_own]
  have hfits : Fits strict t r (senders γ t) (s.threads t) (x t) := by
    have ht := hi t
    rwa [hγ, run?_own] at ht
  refine ⟨trivial, fun a s' _ he => ⟨own (r' a), ?_, rfl⟩⟩
  obtain ⟨hapart, hth⟩ := h a s s' x _ he hfits hself
  exact hi.own hγ hapart fun _ _ => hth

/-- A command of a sender. -/
theorem safe_sender {c : Cmd} {m : Option Sending} (m' : Ans c → Option Sending)
    (h : ∀ a s s' x r send, exec t c a s = some s' → (strict → Met t (.cmd c) a (s, x)) →
      Fits strict th r send (s.threads th) (x th) → send t = m → (t = th → r = none) →
      Apart th s s' x (see t c a s x) ∧
        Fits strict th r (update send t (m' a)) (s'.threads th) (see t c a s x th)) :
    Safe strict t (Prog.perform c).marked (sending th m) fun a g' => g' = sending th (m' a) := by
  apply Proto.Safe.observed
  intro γ s x hi hγ
  refine ⟨trivial, fun a s' hok he => ⟨sending th (m' a), ?_, rfl⟩⟩
  have hrun : t = th → (γ th).run? = none := by
    rintro rfl
    rw [hγ, run?_sending]
  obtain ⟨hapart, -⟩ := h a s s' x _ _ he hok (hi th) (by rw [senders, hγ, send?_sending]) hrun
  exact hi.sender hγ hapart fun r send hf hs hr => (h a s s' x r send he hok hf hs hr).2

/-- The thread store of `th` and its story change. -/
theorem set_both {v : ThreadStore} (h : Fits strict th r send v y) :
    Apart th s (s.setThread th v) x (update x th y) ∧
      Fits strict th r send ((s.setThread th v).threads th) (update x th y th) := by
  refine ⟨⟨fun u hu => update_of_ne hu .., fun u hu => update_of_ne hu ..⟩, ?_⟩
  show Fits strict th r send (update s.threads th v th) (update x th y th)
  rwa [update_self, update_self]

/-- Only the thread store changes. -/
theorem set_store {v : ThreadStore} (h : Fits strict th r send v (x th)) :
    Apart th s (s.setThread th v) x x ∧ Fits strict th r send ((s.setThread th v).threads th) (x th) := by
  have hboth := set_both (s := s) (x := x) h
  rwa [update_eq_self] at hboth

/-- Only the story changes. -/
theorem set_story (h : Fits strict th r send (s.threads th) y) :
    Apart th s s x (update x th y) ∧ Fits strict th r send (s.threads th) (update x th y th) := by
  refine ⟨⟨fun _ _ => rfl, fun u hu => update_of_ne hu ..⟩, ?_⟩
  rwa [update_self]

theorem set_none (h : Fits strict th r send (s.threads th) (x th)) :
    Apart th s s x x ∧ Fits strict th r send (s.threads th) (x th) := ⟨⟨fun _ _ => rfl, fun _ _ => rfl⟩, h⟩

/-! ### Of the thread itself -/

theorem safe_loadStop : Safe strict t (perform (.loadFlag t .stop)).marked (own none) fun a g' =>
    g' = own (if a then some .tested else none) := by
  refine safe_own (r := none) (c := .loadFlag t .stop) (fun a : Bool => if a then some .tested else none) ?_
  intro a s s' x send he hf hself
  obtain ⟨ha, he⟩ := Option.ite_none_right_eq_some.mp he
  obtain rfl := Option.some.inj he
  have hunlocked : (s.threads t).eventLock ≠ some t := by
    intro hlock
    rcases (hf.lock t).mp hlock with ⟨-, hl⟩ | hs
    · cases hl
    · rw [hself] at hs
      cases hs
  have hsee : see t (.loadFlag t .stop) a s x = x := if_neg hunlocked
  rw [hsee]
  apply set_none
  cases a with
  | false => exact hf
  | true => exact hf.test ha.symm

theorem safe_lock (hr : r = some .tested ∧ r' = some .entering ∨ r = none ∧ r' = some .held) :
    Safe strict t (perform (.lockEvent t)).marked (own r) fun _ g' => g' = own r' := by
  refine safe_own (fun _ => r') ?_
  intro _ s s' x send he hf _
  obtain ⟨hfree, he⟩ := Option.ite_none_right_eq_some.mp he
  obtain rfl := Option.some.inj he
  exact set_store (hf.enter hfree hr)

theorem safe_condWait (hr : r = some .entering ∧ r' = some .pausing ∨ r = some .pending ∧ r' = some .waiting) :
    Safe strict t (perform (.condWait t)).marked (own r) fun _ g' => g' = own r' := by
  refine safe_own (fun _ => r') ?_
  intro _ s s' x send he hf hself
  obtain ⟨-, he⟩ := Option.ite_none_right_eq_some.mp he
  obtain rfl := Option.some.inj he
  apply set_both
  rcases hr with ⟨rfl, rfl⟩ | ⟨rfl, rfl⟩
  · exact hf.pause hself
  · exact hf.await hself

theorem safe_condWake (hr : r = some .pausing ∧ r' = some .woken ∨ r = some .waiting ∧ r' = some .roused) :
    Safe strict t (perform (.condWake t)).marked (own r) fun _ g' => g' = own r' := by
  refine safe_own (fun _ => r') ?_
  intro _ s s' x send he hf _
  obtain ⟨hfree, he⟩ := Option.ite_none_right_eq_some.mp he
  obtain rfl := Option.some.inj he
  exact set_both (hf.wake hfree hr)

theorem safe_unlock (hr : r = some .woken ∧ r' = some .leaving ∨ r = some .held ∧ r' = none) :
    Safe strict t (perform (.unlockEvent t)).marked (own r) fun _ g' => g' = own r' := by
  refine safe_own (fun _ => r') ?_
  intro _ s s' x send he hf hself
  obtain ⟨-, he⟩ := Option.ite_none_right_eq_some.mp he
  obtain rfl := Option.some.inj he
  exact set_both (hf.leave hself hr)

theorem safe_clearStop : Safe strict t (perform (.storeFlag t .stop false)).marked (own (some .leaving))
    fun _ g' => g' = own none := by
  refine safe_own (fun _ => none) ?_
  intro _ s s' x send he hf _
  obtain rfl := Option.some.inj he
  exact set_both hf.resume

theorem safe_setPending {v : Bool} (hv : v = awaits r')
    (hr : r = some .put ∧ r' = some .pending ∨ r = some .roused ∧ r' = some .held) :
    Safe strict t (perform (.storeFlag t .eventPending v)).marked (own r) fun _ g' => g' = own r' := by
  refine safe_own (fun _ => r') ?_
  intro _ s s' x send he hf hself
  obtain rfl := Option.some.inj he
  subst hv
  exact set_store (hf.setPending hself hr)

theorem safe_writePipe {e : UInt32} {d : UInt64}
    (hr : r = some .held ∧ (r' = some .put ∨ r' = some .held) ∨ r = none ∧ r' = none) :
    Safe strict t (perform (.writePipe t e d)).marked (own r) fun _ g' => g' = own r' := by
  refine safe_own (fun _ => r') ?_
  intro _ s s' x send he hf _
  obtain rfl := Option.some.inj he
  exact set_both ((hf.put hr).congr rfl rfl rfl)

/-- A request to stop, from anybody. -/
theorem safe_setStop : Safe strict t (perform (.storeFlag th .stop true)).marked g fun _ g' => g' = g := by
  apply Proto.Safe.observed
  intro γ s x hi hγ
  refine ⟨trivial, fun _ s' _ he => ⟨g, fun u => ?_, rfl⟩⟩
  obtain rfl := Option.some.inj he
  rw [← hγ, update_eq_self]
  show Fits strict u _ _ (update s.threads th _ u) (update x th _ u)
  by_cases hu : u = th
  · rw [hu, update_self, update_self]
    exact (hi th).stop
  · rw [update_of_ne hu, update_of_ne hu]
    exact hi u

/-! ### Of a sender -/

theorem safe_grab : Safe strict t (perform (.lockEvent th)).marked .idle fun _ g' => g' = .send th .held := by
  refine safe_sender (m := none) (fun _ => some .held) ?_
  intro _ s s' x r send he _ hf _ _
  obtain ⟨hfree, he⟩ := Option.ite_none_right_eq_some.mp he
  obtain rfl := Option.some.inj he
  exact set_store (hf.grab hfree)

theorem safe_loadPending : Safe strict t (perform (.loadFlag th .eventPending)).marked (.send th .held) fun a g' =>
    g' = .send th (.loaded a) := by
  refine safe_sender (m := some .held) (c := .loadFlag th .eventPending) (fun a : Bool => some (.loaded a)) ?_
  intro a s s' x r send he _ hf hs hr
  obtain ⟨ha, he⟩ := Option.ite_none_right_eq_some.mp he
  obtain rfl := Option.some.inj he
  have hsome := Option.isSome_of_eq_some hs
  apply set_none
  refine hf.setSend hsome hr ha fun hlooked => ?_
  obtain ⟨u, p, v, hu⟩ := hf.looked hlooked
  by_cases hut : u = t
  · rw [hut, hs] at hu
    cases hu
  · rw [(hf.sender hsome hr).2.2 u hut] at hu
    cases hu

/-- A `SIGCONT` looks at the stop flag. -/
theorem safe_ask {p : Bool} : Safe strict t (perform (.loadFlag th .stop)).marked (.send th (.loaded p)) fun a g' =>
    g' = .send th (.asked p a) := by
  refine safe_sender (m := some (.loaded p)) (c := .loadFlag th .stop) (fun a : Bool => some (.asked p a)) ?_
  intro a s s' x r send he hok hf hs hr
  obtain ⟨ha, he⟩ := Option.ite_none_right_eq_some.mp he
  obtain rfl := Option.some.inj he
  have hsome := Option.isSome_of_eq_some hs
  have hown := (hf.sender hsome hr).1
  have hsee : see t (.loadFlag th .stop) a s x = update x th (x th).look := if_pos hown
  rw [hsee]
  have hp : p = (s.threads th).eventPending := hf.sends t _ hs
  have ha : a = (s.threads th).stop := ha
  apply set_story
  have hasked : Sending.Fits (.asked p a) (s.threads th) (x th) := by
    constructor
    · rintro rfl hevent
      rw [hf.pending, hf.waitsEvent hevent] at hp
      cases hp
    · rintro rfl hstop
      rw [hf.flag (by rw [hf.waitsStop hstop]; rfl)] at ha
      cases ha
  refine (hf.setSend hsome hr hasked fun _ => ⟨p, a, rfl⟩).look ⟨t, p, a, update_self ..⟩ fun hs' hstop => ?_
  exact hok hs' (ha.trans hstop) hown

theorem safe_signal {p v : Bool} : Safe strict t (perform (.condSignal th)).marked (.send th (.asked p v))
    fun _ g' => g' = .send th (.asked false false) := by
  refine safe_sender (m := some (.asked p v)) (fun _ => some (.asked false false)) ?_
  intro _ s s' x r send he _ hf hs hr
  obtain rfl := Option.some.inj he
  apply set_story
  exact hf.signal.setSend (Option.isSome_of_eq_some hs) hr ⟨nofun, nofun⟩ fun _ => ⟨false, false, rfl⟩

/-- A `SIGKILL` signals. -/
theorem safe_signalKill {p : Bool} : Safe strict t (perform (.condSignal th)).marked (.send th (.loaded p))
    fun _ g' => g' = .send th (.loaded p) := by
  refine safe_sender (m := some (.loaded p)) (fun _ => some (.loaded p)) ?_
  intro _ s s' x r send he _ hf hs hr
  obtain rfl := Option.some.inj he
  apply set_story
  rw [← hs, update_eq_self]
  exact hf.signal

theorem safe_release {m : Sending} (hm : ∀ p v, m = .asked p v → p = false ∧ v = false) :
    Safe strict t (perform (.unlockEvent th)).marked (.send th m) fun _ g' => g' = .idle := by
  refine safe_sender (m := some m) (fun _ => none) ?_
  intro _ s s' x r send he _ hf hs hr
  obtain ⟨-, he⟩ := Option.ite_none_right_eq_some.mp he
  obtain rfl := Option.some.inj he
  apply set_both
  refine hf.release hs hr fun hlooked => ?_
  obtain ⟨u, p, v, hu⟩ := hf.looked hlooked
  by_cases hut : u = t
  · rw [hut, hs] at hu
    obtain rfl := Option.some.inj hu
    obtain ⟨rfl, rfl⟩ := hm p v rfl
    rfl
  · rw [(hf.sender (Option.isSome_of_eq_some hs) hr).2.2 u hut] at hu
    cases hu

/-! ## All interleavings -/

theorem generate_safe {e : UInt32} {d : UInt64}
    (hr : r = some .held ∧ (r' = some .put ∨ r' = some .held) ∨ r = none ∧ r' = none) :
    Safe strict t (generate t e d).marked (own r) fun _ g' => g' = own r' := by
  refine Proto.Safe.marked_bind (safe_quiet trivial) ?_
  rintro _ _ rfl
  refine Proto.Safe.marked_bind (safe_quiet trivial) ?_
  rintro _ _ rfl
  exact safe_writePipe hr

theorem pauseIfStopped_safe : Safe strict t (pauseIfStopped t).marked (own none) fun _ g' => g' = own none := by
  apply Proto.Safe.marked_bind safe_loadStop
  rintro stop _ rfl
  cases stop with
  | false => exact .ret rfl
  | true =>
    apply Proto.Safe.marked_bind (safe_lock (.inl ⟨rfl, rfl⟩))
    rintro _ _ rfl
    apply Proto.Safe.marked_bind (safe_condWait (.inl ⟨rfl, rfl⟩))
    rintro _ _ rfl
    apply Proto.Safe.marked_bind (safe_condWake (.inl ⟨rfl, rfl⟩))
    rintro _ _ rfl
    apply Proto.Safe.marked_bind (safe_unlock (.inl ⟨rfl, rfl⟩))
    rintro _ _ rfl
    exact safe_clearStop

theorem reportError_safe {res : RunResult} :
    Safe strict t (reportError t res).marked (own (some .held)) fun _ g' => g' = own (some .held) := by
  have hkeep : some Run.held = some .held ∧ (some Run.held = some .put ∨ some Run.held = some .held) ∨
      some Run.held = none ∧ some Run.held = none := .inl ⟨rfl, .inr rfl⟩
  unfold reportError
  split
  · exact generate_safe hkeep
  · exact generate_safe hkeep
  · exact .ret rfl

theorem reportStop_safe {callnum : Int} :
    Safe strict t (reportStop t callnum).marked (own (some .held)) fun _ g' => g' = own (some .held) := by
  apply Proto.Safe.marked_bind (generate_safe (.inl ⟨rfl, .inl rfl⟩))
  rintro _ _ rfl
  apply Proto.Safe.marked_bind (safe_setPending rfl (.inl ⟨rfl, rfl⟩))
  rintro _ _ rfl
  apply Proto.Safe.marked_bind (safe_condWait (.inr ⟨rfl, rfl⟩))
  rintro _ _ rfl
  apply Proto.Safe.marked_bind (safe_condWake (.inr ⟨rfl, rfl⟩))
  rintro _ _ rfl
  exact safe_setPending rfl (.inr ⟨rfl, rfl⟩)

theorem afterRun_safe {res : RunResult} :
    Safe strict t (afterRun t res).marked (own none) fun _ g' => g' = own none := by
  unfold afterRun
  split
  · apply Proto.Safe.marked_bind (safe_lock (.inr ⟨rfl, rfl⟩))
    rintro _ _ rfl
    apply Proto.Safe.marked_bind reportError_safe
    rintro _ _ rfl
    apply Proto.Safe.marked_bind (safe_unlock (.inr ⟨rfl, rfl⟩))
    rintro _ _ rfl
    apply Proto.Safe.marked_bind safe_setStop
    rintro _ _ rfl
    exact .ret rfl
  split
  · exact .ret rfl
  · apply Proto.Safe.marked_bind (safe_lock (.inr ⟨rfl, rfl⟩))
    rintro _ _ rfl
    refine Proto.Safe.marked_bind (safe_quiet trivial) ?_
    rintro events _ rfl
    split
    · apply Proto.Safe.marked_bind reportStop_safe
      rintro _ _ rfl
      apply Proto.Safe.marked_bind (safe_unlock (.inr ⟨rfl, rfl⟩))
      rintro _ _ rfl
      refine Proto.Safe.marked_bind (safe_quiet trivial) ?_
      rintro killed _ rfl
      split <;> exact .ret rfl
    · apply Proto.Safe.marked_bind (safe_unlock (.inr ⟨rfl, rfl⟩))
      rintro _ _ rfl
      exact .ret rfl

theorem doSpeRun_safe : Safe strict t (doSpeRun t).marked (own none) fun _ g' => g' = own none := by
  have hround : Safe strict t (runOnce t).marked (own none) fun _ g' => g' = own none := by
    refine Proto.Safe.marked_bind (safe_quiet trivial) ?_
    rintro res _ rfl
    apply Proto.Safe.marked_bind pauseIfStopped_safe
    rintro _ _ rfl
    exact afterRun_safe
  have hloop : Safe strict t (Prog.repeats (fun _ => runOnce t) ()).marked (own none)
      fun _ g' => g' = own none := by
    rw [Prog.marked_repeats]
    apply Proto.Safe.repeats (fun _ g' => g' = own none) rfl
    rintro _ _ rfl
    apply hround.mono
    rintro (_ | _) _ rfl <;> rfl
  apply Proto.Safe.marked_bind hloop
  rintro stopReason _ rfl
  cases stopReason with
  | none => exact .ret rfl
  | some stopReason =>
    refine Proto.Safe.marked_bind (safe_quiet trivial) ?_
    rintro events _ rfl
    split
    · exact generate_safe (.inr ⟨rfl, rfl⟩)
    · exact .ret rfl

theorem srchThread_quiet : (srchThread th).All Cmd.IsQuiet := by
  refine .bind (.perform trivial) fun _ => .bind (.perform trivial) fun found => .bind (.perform trivial) fun _ => ?_
  split
  · trivial
  · exact .bind (.perform trivial) fun _ => trivial

theorem speKill_safe {sig : Sig} : Safe strict t (speKill th sig).marked .idle fun _ g' => g' = .idle := by
  have hrelease (m : Sending) (hm : ∀ p v, m = .asked p v → p = false ∧ v = false) :
      Safe strict t (do
        perform (.unlockEvent th)
        return (0 : Int) : Code Int).marked (.send th m) fun _ g' => g' = .idle := by
    apply Proto.Safe.marked_bind (safe_release hm)
    rintro _ _ rfl
    exact .ret rfl
  apply Proto.Safe.marked_bind (safe_quiet_all srchThread_quiet)
  rintro found _ rfl
  split
  · cases sig with
    | cont =>
      apply Proto.Safe.marked_bind safe_grab
      rintro _ _ rfl
      apply Proto.Safe.marked_bind safe_loadPending
      rintro p _ rfl
      apply Proto.Safe.marked_bind safe_ask
      rintro v _ rfl
      cases p <;> cases v
      · exact hrelease _ (by rintro _ _ ⟨⟩; exact ⟨rfl, rfl⟩)
      all_goals
        apply Proto.Safe.marked_bind safe_signal
        rintro _ _ rfl
        exact hrelease _ (by rintro _ _ ⟨⟩; exact ⟨rfl, rfl⟩)
    | kill =>
      apply Proto.Safe.marked_bind safe_grab
      rintro _ _ rfl
      refine Proto.Safe.marked_bind (safe_quiet trivial) ?_
      rintro _ _ rfl
      apply Proto.Safe.marked_bind safe_loadPending
      rintro p _ rfl
      cases p with
      | true =>
        apply Proto.Safe.marked_bind safe_signalKill
        rintro _ _ rfl
        exact hrelease _ (by simp)
      | false =>
        refine Proto.Safe.marked_bind (safe_quiet trivial) ?_
        rintro _ _ rfl
        exact hrelease _ (by simp)
    | stop =>
      apply Proto.Safe.marked_bind safe_setStop
      rintro _ _ rfl
      exact .ret rfl
    | other =>
      refine Proto.Safe.marked_bind (safe_quiet trivial) ?_
      rintro _ _ rfl
      exact .ret rfl
  · exact .ret rfl

/-! ### `spe_get_event` has nothing to do with it -/

theorem hasEvent_quiet {events : UInt32} : (hasEvent th events).All Cmd.IsQuiet := by
  refine .bind (.perform trivial) fun event => ?_
  split
  · trivial
  · exact .bind (.perform trivial) fun _ => trivial

theorem takeFound_quiet {events : UInt32} : (takeFound th events).All Cmd.IsQuiet :=
  .bind (.perform trivial) fun _ => .bind (.perform trivial) fun _ => .bind (.perform trivial) fun _ =>
    .bind (.perform trivial) fun _ => .bind (.perform trivial) fun _ => .bind (.perform trivial) fun _ => trivial

theorem scan_quiet {events : UInt32} {members : List Tid} : (scan events members).All Cmd.IsQuiet := by
  induction members with
  | nil => trivial
  | cons th ths ih =>
    refine .bind hasEvent_quiet fun has => ?_
    split
    · exact .bind takeFound_quiet fun _ => trivial
    · exact ih

theorem entry_quiet {asked : Prop} [Decidable asked] {c : Cmd} (hc : Cmd.IsQuiet c) (f : Ans c → List PollEntry) :
    (if asked then (do return f (← perform c)) else return [] : Code (List PollEntry)).All Cmd.IsQuiet := by
  split
  · exact .bind (.perform hc) fun _ => trivial
  · trivial

theorem setupPoll_quiet {events : UInt32} {members : List Tid} : (setupPoll events members).All Cmd.IsQuiet := by
  induction members with
  | nil => trivial
  | cons th ths ih =>
    have hmailbox : (mailboxEntry events th).All Cmd.IsQuiet := entry_quiet (c := .openIfClosed th .ibox) trivial _
    have hpipe : (pipeEntry events th).All Cmd.IsQuiet := entry_quiet (c := .pipeFd th) trivial _
    have htagGroup : (tagGroupEntry events th).All Cmd.IsQuiet := entry_quiet (c := .openIfClosed th .mfc) trivial _
    exact .bind hmailbox fun _ => .bind hpipe fun _ => .bind htagGroup fun _ => .bind ih fun _ => trivial

theorem readEntry_quiet {events : UInt32} {e : PollEntry} : (readEntry events e).All Cmd.IsQuiet := by
  have ready {revents : UInt32} : (readReady e revents).All Cmd.IsQuiet := by
    refine .bind (.perform trivial) fun data => ?_
    split <;> trivial
  unfold readEntry
  split
  · exact ready
  · refine .bind ?_ fun _ => trivial
    exact .bind (.perform trivial) fun _ => .bind (.perform trivial) fun _ => .bind (.perform trivial) fun _ =>
      .bind (.perform trivial) fun _ => .bind (.perform trivial) fun _ => trivial
  · exact ready

theorem readEntries_quiet {events : UInt32} {entries : List (PollEntry × Bool)} {retfds : List Fd} :
    (readEntries events entries retfds).All Cmd.IsQuiet := by
  induction entries generalizing retfds with
  | nil => trivial
  | cons entry rest ih =>
    unfold readEntries
    split
    · refine .bind readEntry_quiet fun found => ?_
      split
      · trivial
      · exact ih
    · exact ih

theorem pollEvent_quiet {events : UInt32} {timeout : Int} {members : List Tid} :
    (pollEvent events timeout members).All Cmd.IsQuiet := by
  refine .bind setupPoll_quiet fun entries => ?_
  split
  · exact .bind (.perform trivial) fun _ => .bind (.perform trivial) fun _ => trivial
  · refine .bind (.perform trivial) fun _ => .bind (.perform trivial) fun ret => ?_
    obtain ⟨pollRet, ready⟩ := ret
    show (if pollRet = 0 then _ else _ : Code (Int × SpeEvent)).All Cmd.IsQuiet
    split
    · trivial
    · exact readEntries_quiet

theorem speGetEvent_quiet {gid : Gid} {events : UInt32} {timeout : Int} :
    (speGetEvent gid events timeout).All Cmd.IsQuiet := by
  refine .bind (.perform trivial) fun _ => .bind (.perform trivial) fun members => .bind scan_quiet fun found => ?_
  split
  · exact .bind (.perform trivial) fun _ => trivial
  split
  · exact .bind (.perform trivial) fun _ => .bind (.perform trivial) fun _ => trivial
  · exact pollEvent_quiet

theorem code_safe (strict : Prop) (t : Tid) (c : Call) :
    Safe strict t (c.code t).marked .idle fun _ g' => g' = .idle := by
  cases c with
  | speRun => exact doSpeRun_safe
  | kill th sig =>
    apply Proto.Safe.marked_bind speKill_safe
    exact fun _ _ h => .ret h
  | getEvent gid events timeout =>
    exact safe_quiet_all (.bind speGetEvent_quiet fun _ => trivial)

theorem init_inv {z : World × Seen} (h : observedSystem.init z) : Inv strict (fun _ => .idle) z := by
  intro th
  rw [h.2]
  exact fits_idle (h.1 th)

/-- `Met`, to be run. -/
def met (t : Tid) : (c : Marked Cmd Empty) → Marked.Ans Ans c → World × Seen → Bool
  | .cmd (.loadFlag th .stop), v, y => !v || (y.1.threads th).eventLock != some t || (y.2 th).pausing
  | _, _, _ => true

theorem met_iff {t : Tid} {c : Marked Cmd Empty} {r : Marked.Ans Ans c} {y : World × Seen} :
    met t c r y = true ↔ Met t c r y := by
  unfold met Met
  split
  · simp [imp_iff_not_or, or_assoc]
  · simp

instance (t : Tid) (c : Marked Cmd Empty) (r : Marked.Ans Ans c) (y : World × Seen) : Decidable (Met t c r y) :=
  decidable_of_iff _ met_iff

end Signals

end LibSpe2.Spe12
