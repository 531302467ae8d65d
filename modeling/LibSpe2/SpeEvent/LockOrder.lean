import LibSpe2.Conc.Locks
import LibSpe2.Data.Words
import LibSpe2.Sys.Frame
import LibSpe2.SpeBase.Mbox
import LibSpe2.SpeEvent.StopDelivery

/-!
# The order of the mutexes

A register or deregister keeps the `lock` of its context while it takes `stop_event_lock` or an `fd_lock` of the
same context; nothing is taken while one of these is in hand. A read of a stop info keeps `stop_event_lock` while
it reads and polls the pipe; no other system call that may block is made with a mutex in hand. So no interleaving
of calls of the event layer, the mailboxes and the descriptor cache can get stuck on the mutexes alone.

* `librarySystem` — all these calls, and the SPUs at the other end of the mailboxes.
* `Blocking` — the system calls that may block; nothing is said about when they return, or whether they do.
* `mutexes` — what commands do to mutexes; a system call that may block is not counted on to return.
* `WorkedOff` — each call has returned, is in a system call that may block, or is held up behind a reader.

## Main results

* `library_works_off` — the other calls make finitely many steps, and then everything is worked off.
-/

namespace LibSpe2.LockOrder

open Conc (Prog Config MutexOp Mutexes Tidy Gives Closing)

/-! ## The system -/

inductive LibraryCall where
  | event (c : EventCall)
  | mbox (c : MboxCall)
  | openIfClosed (spe : Spe) (d : FdName)
  | closeIfOpen (spe : Spe) (d : FdName)

/-- The status register has a byte for each count. -/
structure MboxFits (m : Mailboxes) : Prop where
  outbound : m.outbound.length ≤ m.outDepth
  outDepth : m.outDepth ≤ 255
  inDepth : m.inDepth ≤ 255

/-- No mutex is owned. -/
structure LibraryInit (s : World) : Prop where
  owner : ∀ m, s.owner m = none
  mailboxes : ∀ spe, MboxFits (s.mailboxes spe)

/-- Any number of threads that make any of these calls, and the SPUs. -/
def librarySystem : Conc.System Cmd Ans Tid World where
  toMachine := machine
  Call := LibraryCall
  code t
    | .event c => eventSystem.code t c
    | .mbox c => mboxSystem.code t c
    | .openIfClosed spe d => do let _ ← baseSpeOpenIfClosed spe d false
    | .closeIfOpen spe d => baseSpeCloseIfOpen spe d
  init := LibraryInit

/-! ## The mutexes -/

/-- The `lock` of a context comes before its other mutexes. -/
def mutexBefore : Mutex → Mutex → Prop
  | .lock spe, .stopEventLock spe' => spe = spe'
  | .lock spe, .fdLock spe' _ => spe = spe'
  | _, _ => False

theorem wellFounded_mutexBefore : WellFounded fun m m' => mutexBefore m' m := by
  let depth : Mutex → Nat
    | .lock _ => 1
    | _ => 0
  refine Subrelation.wf (fun {m m'} (h : mutexBefore m' m) => ?_) (measure depth).wf
  cases m' with
  | lock spe => cases m <;> first | exact Nat.zero_lt_one | exact h.elim
  | fdLock spe d => exact h.elim
  | stopEventLock spe => exact h.elim

/-- The system calls that may block, the run of an SPE, and an SPU at its end of a mailbox. -/
def Blocking : Cmd → Prop
  | .read _ _ | .write _ _ | .poll _ | .epollWait _ _ | .baseRun _ | .spuPush _ _ | .spuPop _ => True
  | _ => False

def IsStopEventLock : Mutex → Prop
  | .stopEventLock _ => True
  | _ => False

/-- What a command does to the mutexes. Only reads and polls may block with a mutex in hand, and closes need not be
paired. -/
def mutexOp : Cmd → MutexOp Mutex
  | .lock m => .take m
  | .unlock m => .give m
  | .read _ _ | .poll _ => .blocks IsStopEventLock
  | .write _ _ | .epollWait _ _ | .baseRun _ | .spuPush _ _ | .spuPop _ => .blocks fun _ => False
  | .note (.closing _ _ _) => .never
  | _ => .other

/-- What may block is given no answer, all else any. -/
def offer (c : Cmd) (_ : Ans c) : Prop := ¬ Blocking c

section

variable {t : Tid} {s s' : World} {c : Cmd}

theorem owner_other {r : Ans c} (htake : ∀ m, c ≠ .lock m) (hgive : ∀ m, c ≠ .unlock m)
    (he : machine.exec t c r s = some s') : s'.owner = s.owner := by
  refine exec_same (p := .owner) ?_ he
  cases c with
  | lock m => exact absurd rfl (htake m)
  | unlock m => exact absurd rfl (hgive m)
  | note n => cases n <;> exact id
  | _ => exact id

theorem mboxFits_exec {r : Ans c} (hs : ∀ spe, MboxFits (s.mailboxes spe)) (he : exec t c r s = some s') :
    ∀ spe, MboxFits (s'.mailboxes spe) := by
  have hsame (h : ¬ c.Touches .mailboxes) : ∀ spe, MboxFits (s'.mailboxes spe) := by
    have hcontent := exec_same (p := .mailboxes) h he
    have hmailboxes : s'.mailboxes = s.mailboxes := congrArg Prod.fst hcontent
    rw [hmailboxes]
    exact hs
  have hset {u : World} {spe : Spe} {m : Mailboxes} (hu : u.mailboxes = Function.update s.mailboxes spe m)
      (hm : MboxFits m) : ∀ spe, MboxFits (u.mailboxes spe) := by
    intro spe'
    rw [hu]
    by_cases hspe : spe' = spe
    · subst hspe
      rwa [Function.update_self]
    · rw [Function.update_of_ne hspe]
      exact hs spe'
  cases c with
  | readOutMbox spe =>
    simp only [exec] at he
    split at he
    next w ws hout =>
      obtain ⟨-, rfl⟩ := of_guard he
      refine hset rfl ⟨?_, (hs spe).outDepth, (hs spe).inDepth⟩
      have hlen := (hs spe).outbound
      rw [hout] at hlen
      exact (Nat.le_succ _).trans hlen
    next =>
      obtain rfl := Option.some.inj he
      exact hs
  | writeInMbox spe w =>
    obtain rfl := Option.some.inj he
    refine hset rfl ?_
    split
    · exact ⟨(hs spe).outbound, (hs spe).outDepth, (hs spe).inDepth⟩
    · exact hs spe
  | spuPush spe w =>
    obtain ⟨hlen, rfl⟩ := of_guard he
    refine hset rfl ⟨?_, (hs spe).outDepth, (hs spe).inDepth⟩
    simpa using hlen
  | spuPop spe =>
    simp only [exec] at he
    split at he
    · obtain ⟨-, rfl⟩ := of_guard he
      exact hset rfl ⟨(hs spe).outbound, (hs spe).outDepth, (hs spe).inDepth⟩
    · cases he
  | note n => exact hsame (by cases n <;> exact id)
  | _ => exact hsame id

/-- A word with these two bytes. -/
theorem exists_stat {a b : Nat} (ha : a ≤ 255) (hb : b ≤ 255) :
    ∃ r : Word, (r &&& 0xFF).toNat = a ∧ ((r >>> 8) &&& 0xFF).toNat = b := by
  have hr : (UInt32.ofNat (a + 256 * b)).toNat = a + 256 * b := by
    rw [UInt32.toNat_ofNat']
    omega
  refine ⟨UInt32.ofNat (a + 256 * b), ?_, ?_⟩
  · rw [Words.toNat_and_low (n := 8) rfl, hr]
    omega
  · rw [Words.toNat_and_low (n := 8) rfl, Words.toNat_shiftRight (by decide), hr]
    simp only [UInt32.reduceToNat]
    omega

theorem answers {r : Ans c} (hoff : offer c r) (h : (exec t c r s).isSome = true) :
    ∃ r s', offer c r ∧ exec t c r s = some s' := by
  obtain ⟨s', hs'⟩ := Option.isSome_iff_exists.mp h
  exact ⟨r, s', hoff, hs'⟩

/-- A command that is no mutex operation has an answer that can be counted on. -/
theorem can_other (hs : ∀ spe, MboxFits (s.mailboxes spe)) (hop : mutexOp c = .other) :
    ∃ r s', offer c r ∧ exec t c r s = some s' := by
  cases c with
  | lock | unlock | read | write | poll | epollWait | baseRun | spuPush | spuPop => cases hop
  | load l => exact ⟨s.mem l, s, id, if_pos rfl⟩
  | flags spe => exact ⟨s.flags spe, s, id, if_pos rfl⟩
  | loadBuffer spe => exact ⟨s.buffer spe, s, id, if_pos rfl⟩
  | loadRecord spe k => exact ⟨s.records spe k, s, id, if_pos rfl⟩
  | errno => exact ⟨s.errno t, s, id, if_pos rfl⟩
  | store | storeBuffer | storeRecord | clearRecord | setErrno | close | writeInMbox => exact ⟨(), _, id, rfl⟩
  | openat | pipe | fcntlGetfl | fcntlSetfl | epollAdd | epollDel => exact ⟨.error Errno.EIO, _, id, rfl⟩
  | malloc => exact ⟨false, _, id, rfl⟩
  | readMboxStat spe =>
    obtain ⟨hout, hdepth, hin⟩ := hs spe
    obtain ⟨r, hr⟩ := exists_stat (hout.trans hdepth) ((Nat.sub_le (s.mailboxes spe).inDepth
      (s.mailboxes spe).inbound.length).trans hin)
    exact ⟨r, s, id, if_pos hr⟩
  | readOutMbox spe =>
    cases hout : (s.mailboxes spe).outbound with
    | nil => exact answers (r := (0 : Word)) id (by simp [exec, hout])
    | cons w ws => exact answers (r := w) id (by simp [exec, hout])
  | note n =>
    cases n with
    | closing => cases hop
    | runAcquired spe fd =>
      refine answers (r := ()) id ?_
      simp only [exec, Note.record, Option.isSome_map]
      split <;> rfl
    | _ => exact ⟨(), _, id, rfl⟩
  | noteStopInfo fd info =>
    refine answers (r := ()) id ?_
    simp only [exec]
    split <;> rfl

/-- The mutexes of the library. -/
def mutexes : Mutexes machine Mutex where
  op := mutexOp
  owner s := s.owner
  before := mutexBefore
  offer := offer
  valid s := ∀ spe, MboxFits (s.mailboxes spe)
  irrefl m := by cases m <;> exact id
  wf := wellFounded_mutexBefore
  take {t c m r s s'} hop he := by
    cases c with
    | lock m' =>
      obtain rfl : m' = m := by injection hop
      obtain ⟨hfree, rfl⟩ := of_guard he
      exact ⟨hfree, rfl⟩
    | note n => cases n <;> cases hop
    | _ => cases hop
  give {t c m r s s'} hop he := by
    cases c with
    | unlock m' =>
      obtain rfl : m' = m := by injection hop
      obtain ⟨-, rfl⟩ := of_guard he
      rfl
    | note n => cases n <;> cases hop
    | _ => cases hop
  other hop he := by
    refine owner_other ?_ ?_ he <;> rintro m rfl <;> cases hop
  blocks hop he := by
    refine owner_other ?_ ?_ he <;> rintro m rfl <;> cases hop
  keeps hs he := mboxFits_exec hs he
  can_take {t c m s} hop hm := by
    cases c with
    | lock m' =>
      obtain rfl : m' = m := by injection hop
      exact ⟨(), _, id, if_pos hm⟩
    | note n => cases n <;> cases hop
    | _ => cases hop
  can_give {t c m s} hop hm := by
    cases c with
    | unlock m' =>
      obtain rfl : m' = m := by injection hop
      exact ⟨(), _, id, if_pos hm⟩
    | note n => cases n <;> cases hop
    | _ => cases hop
  can_other hs hop := can_other hs hop

end

/-! ## The code -/

/-- `p` takes mutexes in order and gives them all back. -/
abbrev Tidied {α : Type} (H : List Mutex) (p : Sys α) : Prop := Tidy mutexes.op mutexes.before mutexes.offer H p H

/-- Nothing is in hand but the `lock` of the context. -/
def Shallow (spe : Spe) (H : List Mutex) : Prop := ∀ x ∈ H, x = .lock spe

theorem shallow_nil {spe : Spe} : Shallow spe [] := nofun

theorem shallow_lock {spe : Spe} : Shallow spe [.lock spe] := by simp [Shallow]

theorem Shallow.fdLock {spe : Spe} {d : FdName} {H : List Mutex} (hH : Shallow spe H) :
    ∀ x ∈ H, mutexBefore x (.fdLock spe d) := by
  intro x hx
  rw [hH x hx]
  rfl

theorem Shallow.stopEventLock {spe : Spe} {H : List Mutex} (hH : Shallow spe H) :
    ∀ x ∈ H, mutexBefore x (.stopEventLock spe) := by
  intro x hx
  rw [hH x hx]
  rfl

/-- A system call is made with nothing in hand. -/
theorem nothing_kept {kept : Mutex → Prop} : ∀ m ∈ ([] : List Mutex), kept m := nofun

section

variable {α : Type} {H : List Mutex} {spe : Spe} {d : FdName} {h : Handler} {k : EventType} {data : UInt64}
  {block rest : Sys Bool}

theorem tidied_fail {e : Errno} : Tidied H (fail e) := .other rfl fun _ => .ret

theorem tidied_openIfClosed (hH : Shallow spe H) : Tidied H (baseSpeOpenIfClosed spe d false) := by
  refine .take rfl hH.fdLock fun _ => ?_
  refine .other rfl fun fd => ?_
  have hrest : Tidy mutexes.op mutexes.before mutexes.offer H (do
      baseSpeContextUnlock spe d
      let fd ← load (.speFdsArray spe d)
      note (.openReturned spe d fd)
      return fd) (.fdLock spe d :: H) :=
    .give rfl fun _ => .other rfl fun _ => .other rfl fun _ => .ret
  by_cases hfd : fd = -1
  case neg =>
    simp only [ne_eq, hfd, not_false_eq_true, ↓reduceIte]
    exact .other rfl fun _ => .other rfl fun _ => .other rfl fun _ => hrest
  case pos =>
    simp only [ne_eq, hfd, not_true_eq_false, ↓reduceIte]
    refine .other rfl fun x => ?_
    have hcount : Tidy mutexes.op mutexes.before mutexes.offer H (do
        let fd ← load (.speFdsArray spe d)
        if fd > 0 then
          let n ← load (.speFdsRefcount spe d)
          store (.speFdsRefcount spe d) (toInt32 (n + 1))
        baseSpeContextUnlock spe d
        let fd ← load (.speFdsArray spe d)
        note (.openReturned spe d fd)
        return fd) (.fdLock spe d :: H) := by
      refine .other rfl fun fd => ?_
      dsimp only
      split
      · exact .other rfl fun _ => .other rfl fun _ => hrest
      · exact hrest
    cases x <;> exact .other rfl fun _ => .other rfl fun _ => hcount

theorem tidied_closeIfOpen (hH : Shallow spe H) : Tidied H (baseSpeCloseIfOpen spe d) := by
  refine .take rfl hH.fdLock fun _ => .other rfl fun fd => .other rfl fun n => ?_
  have hrest : Tidy mutexes.op mutexes.before mutexes.offer H (do
      note (.closed spe d fd)
      baseSpeContextUnlock spe d) (.fdLock spe d :: H) :=
    .other rfl fun _ => .last (.give rfl fun _ => .ret)
  dsimp only
  split
  · exact .other rfl fun _ => .other rfl fun _ => .other rfl fun _ => hrest
  · split
    · exact .other rfl fun _ => hrest
    · exact hrest

/-! ### The event layer -/

theorem tidied_pipeClose : Tidied H (stopEventPipeClose spe) := by
  have hend (i : Fin 2) : Tidied H (stopEventPipeCloseEnd spe i) := by
    refine .other rfl fun fd => ?_
    split
    · exact .other rfl fun _ => .last (.other rfl fun _ => .ret)
    · exact .ret
  exact .bind (hend 0) fun _ => .bind (hend 1) fun _ => .ret

theorem tidied_pipeOpen : Tidied H (stopEventPipeOpen spe) := by
  refine .other rfl fun x => ?_
  cases x with
  | error e => exact .ret
  | ok x =>
    refine .other rfl fun _ => .other rfl fun _ => .other rfl fun _ => .other rfl fun x => ?_
    cases x with
    | error e => exact .bind tidied_pipeClose fun _ => .ret
    | ok nonblock =>
      refine .other rfl fun _ => .other rfl fun x => ?_
      cases x with
      | error e => exact .bind tidied_pipeClose fun _ => .ret
      | ok u => exact .ret

theorem tidied_pipeAcquire : Tidied H (stopEventPipeAcquire spe) := by
  have hcount : Tidied H (do
      let count ← load (.stopEventHandlerCount spe)
      store (.stopEventHandlerCount spe) (count + 1)
      return (0 : Int)) := .other rfl fun _ => .other rfl fun _ => .ret
  refine .other rfl fun n => ?_
  dsimp only
  split
  · refine .bind tidied_pipeOpen fun rc => ?_
    split
    · exact .ret
    · exact .other rfl fun _ => hcount
  · exact hcount

theorem tidied_pipeRelease : Tidied H (stopEventPipeRelease spe) := by
  refine .other rfl fun _ => .other rfl fun _ => .other rfl fun n => ?_
  dsimp only
  split
  · exact .bind tidied_pipeClose fun _ => .ret
  · exact .ret

/-- A command that blocks is given no answer, so a loop ends there. -/
theorem gives_blocking {c : Cmd} {f : Ans c → Sys α} {Φ : α → Prop} (hc : Blocking c) :
    Gives mutexes.offer ((Prog.perform c).bind f) Φ :=
  .perform fun _ hoff => absurd hc hoff

/-- The rest of a stop info is waited for with `stop_event_lock` in hand. -/
theorem tidied_stopInfoReadRest {fd : Fd} {got : List UInt8} :
    Tidied [.stopEventLock spe] (stopInfoReadRest fd got) := by
  have hkept : ∀ m ∈ [Mutex.stopEventLock spe], IsStopEventLock m := by simp [IsStopEventLock]
  refine .repeats (fun got => ?_) (.once fun got => ?_)
  · split
    · refine .blocks rfl hkept fun x => ?_
      cases x with
      | error e => cases e <;> exact .ret
      | ok n =>
        dsimp only
        split
        · refine .blocks rfl hkept fun x => ?_
          cases x with
          | error e => cases e <;> exact .ret
          | ok bytes => exact .ret
        · exact .ret
    · exact .ret
  · split
    · exact gives_blocking trivial
    · exact .ret rfl

theorem tidied_stopInfoRead : Tidied [] (eventSpeStopInfoRead spe) := by
  refine .take rfl nofun fun _ => .other rfl fun fd => ?_
  split
  · refine .other rfl fun n => ?_
    split
    · exact .other rfl fun _ => .other rfl fun _ => .give rfl fun _ => .ret
    · exact .other rfl fun _ => .give rfl fun _ => .ret
  · refine .blocks rfl (by simp [IsStopEventLock]) fun x => ?_
    cases x with
    | error e => exact .give rfl fun _ => .ret
    | ok bytes =>
      refine .bind tidied_stopInfoReadRest fun x => ?_
      dsimp only
      split
      · exact .give rfl fun _ => .ret
      · exact .other rfl fun _ => .give rfl fun _ => .ret

theorem tidied_contextRun : Tidied [] (eventSpeContextRun spe) := by
  refine .blocks rfl nothing_kept fun x => .other rfl fun e => .take rfl nofun fun _ => .other rfl fun fd => ?_
  split
  · exact .other rfl fun _ => .other rfl fun _ => .give rfl fun _ => .ret
  · refine .bind tidied_pipeAcquire fun _ => .other rfl fun _ => .give rfl fun _ => ?_
    refine .blocks rfl nothing_kept fun _ => ?_
    refine .take rfl nofun fun _ => .other rfl fun _ => .bind tidied_pipeRelease fun _ => ?_
    exact .give rfl fun _ => .other rfl fun _ => .ret

theorem tidied_registerSource {out : Bool} {check : Sys Bool} (hcheck : Tidied [.lock spe] check) :
    Tidied [.lock spe] (registerSource h spe k d out data check) := by
  refine .bind (tidied_openIfClosed shallow_lock) fun fd => ?_
  split
  · exact .ret
  refine .bind hcheck fun ok => ?_
  split
  · refine .other rfl fun _ => .other rfl fun x => ?_
    cases x <;> exact .ret
  · exact .ret

theorem tidied_deregisterSource : Tidied [.lock spe] (deregisterSource h spe k d) := by
  refine .bind (tidied_openIfClosed shallow_lock) fun fd => ?_
  split
  · exact .ret
  refine .other rfl fun x => ?_
  cases x with
  | error e => exact .ret
  | ok u => exact .other rfl fun _ => .ret

theorem tidied_registerSpeStopped : Tidied [.lock spe] (registerSpeStopped h spe data) := by
  refine .take rfl shallow_lock.stopEventLock fun _ => .bind tidied_pipeAcquire fun rc => ?_
  split
  · exact .give rfl fun _ => .ret
  · refine .other rfl fun fd => .other rfl fun _ => .other rfl fun x => ?_
    cases x with
    | ok u => exact .other rfl fun _ => .give rfl fun _ => .ret
    | error e => exact .bind tidied_pipeRelease fun _ => .give rfl fun _ => .ret

theorem tidied_deregisterSpeStopped : Tidied [.lock spe] (deregisterSpeStopped h spe) := by
  refine .take rfl shallow_lock.stopEventLock fun _ => .other rfl fun fd => .other rfl fun x => ?_
  cases x with
  | ok u =>
    exact .other rfl fun _ => .other rfl fun _ => .bind tidied_pipeRelease fun _ => .give rfl fun _ => .ret
  | error e => exact .give rfl fun _ => .ret

theorem tidied_ifEvent {events : UInt32} (hblock : Tidied H block) : Tidied H (ifEvent events k block) := by
  unfold ifEvent
  split
  · exact hblock
  · exact .ret

/-- A block, and the rest of the blocks. -/
theorem tidied_andThen {events : UInt32} (hblock : Tidied H block) (hrest : Tidied H rest) :
    Tidied H (andThen (ifEvent events k block) rest) := by
  refine .bind (tidied_ifEvent hblock) fun ok => ?_
  cases ok with
  | true => exact hrest
  | false => exact .ret

/-- A call of register or deregister whose blocks are tidy. -/
theorem tidied_call {evhandler : Option Handler} {event : Option EventArg}
    {blocks : Handler → Spe → EventArg → Sys Bool}
    (hblocks : ∀ h spe ev, Tidied [.lock spe] (blocks h spe ev)) :
    Tidied [] (withEventArgs evhandler event fun h spe ev => underContextLock spe (blocks h spe ev)) := by
  unfold withEventArgs
  split
  · exact tidied_fail
  · exact tidied_fail
  · split
    · exact tidied_fail
    · refine .other rfl fun fl => ?_
      split
      · exact tidied_fail
      split
      · exact tidied_fail
      · exact .take rfl nofun fun _ => .bind (hblocks ..) fun ok => .give rfl fun _ => .ret

theorem tidied_register {evhandler : Option Handler} {event : Option EventArg} :
    Tidied [] (eventSpeEventHandlerRegister evhandler event) := by
  refine tidied_call fun h spe ev => ?_
  refine tidied_andThen (tidied_registerSource .ret) (tidied_andThen (tidied_registerSource .ret) ?_)
  refine tidied_andThen (tidied_registerSource ?_) (tidied_ifEvent tidied_registerSpeStopped)
  refine .other rfl fun fl => ?_
  split
  · exact .other rfl fun _ => .ret
  · exact .ret

theorem tidied_deregister {evhandler : Option Handler} {event : Option EventArg} :
    Tidied [] (eventSpeEventHandlerDeregister evhandler event) := by
  refine tidied_call fun h spe ev => ?_
  refine tidied_andThen tidied_deregisterSource (tidied_andThen tidied_deregisterSource ?_)
  exact tidied_andThen tidied_deregisterSource (tidied_ifEvent tidied_deregisterSpeStopped)

theorem tidied_copyEvents {l : List (Fd × EpollEntry)} : Tidied [] (copyEvents h l) := by
  induction l with
  | nil => exact .ret
  | cons x l ih =>
    refine .other rfl fun ev => .take rfl nofun fun _ => .other rfl fun u => .other rfl fun _ => ?_
    exact .give rfl fun _ => .bind ih fun _ => .ret

theorem tidied_wait {evhandler : Option Handler} {events : Bool} {maxEvents timeout : Int} :
    Tidied [] (eventSpeEventWait evhandler events maxEvents timeout) := by
  unfold eventSpeEventWait
  cases evhandler with
  | none => exact .bind tidied_fail fun _ => .ret
  | some h =>
    dsimp only
    split
    · exact .bind tidied_fail fun _ => .ret
    refine .other rfl fun ok => ?_
    split
    · refine .repeats (fun _ => .blocks rfl nothing_kept fun x => ?_) (.once fun _ => gives_blocking trivial)
      cases x with
      | error e =>
        cases e with
        | EINTR =>
          dsimp only
          split <;> exact .ret
        | _ => exact .ret
      | ok l => exact .bind tidied_copyEvents fun _ => .ret
    · exact .ret

/-! ### The mailboxes -/

theorem tidied_fetchWords {n : Nat} {got : List Word} : Tidied H (fetchWords spe n got) := by
  induction n generalizing got with
  | zero => exact .ret
  | succ n ih => exact .other rfl fun _ => ih

theorem tidied_storeWords {n : Nat} {aux sent : List Word} : Tidied H (storeWords spe n aux sent) := by
  induction n generalizing aux sent with
  | zero => exact .ret
  | succ n ih => exact .other rfl fun _ => ih

theorem gives_fetchWords {n : Nat} {got : List Word} :
    Gives mutexes.offer (fetchWords spe n got) fun got' => got'.length = got.length + n := by
  induction n generalizing got with
  | zero => exact .ret rfl
  | succ n ih =>
    refine .perform fun w _ => ?_
    have hlen : (got ++ [w]).length + n = got.length + (n + 1) := by
      rw [List.length_append, List.length_singleton, Nat.add_assoc, Nat.add_comm 1]
    exact hlen ▸ ih

theorem gives_storeWords {n : Nat} {aux sent : List Word} :
    Gives mutexes.offer (storeWords spe n aux sent) fun x => x.2.length = sent.length + n := by
  induction n generalizing aux sent with
  | zero => exact .ret rfl
  | succ n ih =>
    refine .perform fun _ _ => ?_
    have hlen : (sent ++ [aux.headD 0]).length + n = sent.length + (n + 1) := by
      rw [List.length_append, List.length_singleton, Nat.add_assoc, Nat.add_comm 1]
    exact hlen ▸ ih

/-- As long as there are words to move, each round moves some of them. -/
theorem burst_nearer {count total : Int} {n : Nat} (hlt : total < count) {entries : Int} (hentries : entries ≠ 0)
    (hpos : 0 ≤ entries) (hn : n = (if entries > count - total then count - total else entries).toNat) :
    (count - (total + n)).toNat < (count - total).toNat := by
  split at hn <;> omega

theorem tidied_outMboxReadPs {count : Int} (hH : Shallow spe H) : Tidied H (baseSpeOutMboxReadPs spe count) := by
  refine .take rfl hH.fdLock fun _ => .bind (.repeats (fun got => ?_) ?_) fun got => ?_
  · dsimp only
    split
    · refine .other rfl fun stat => ?_
      split
      · exact .ret
      · exact .bind tidied_fetchWords fun _ => .ret
    · exact .ret
  · refine ⟨InvImage (· < ·) fun got => (count - (got.length : Int)).toNat, InvImage.wf _ wellFounded_lt,
      fun got => ?_⟩
    dsimp only
    split
    next hlt =>
      refine .perform fun stat _ => ?_
      split
      · exact .ret nofun
      next hentries =>
        refine .bind gives_fetchWords fun got' hlen => .ret ?_
        rintro _ ⟨⟩
        have hnearer := burst_nearer hlt hentries (Int.natCast_nonneg _) rfl
        rwa [← Int.natCast_add, ← hlen] at hnearer
    · exact .ret nofun
  · exact .other rfl fun _ => .give rfl fun _ => .ret

theorem tidied_inMboxWritePs {mboxData : List Word} {count : Int} (hH : Shallow spe H) :
    Tidied H (baseSpeInMboxWritePs spe mboxData count) := by
  refine .take rfl hH.fdLock fun _ => .bind (.repeats (fun x => ?_) ?_) fun x => ?_
  · dsimp only
    split
    · refine .other rfl fun stat => ?_
      split
      · exact .ret
      · exact .bind tidied_storeWords fun _ => .ret
    · exact .ret
  · refine ⟨InvImage (· < ·) fun x => (count - (x.2.length : Int)).toNat, InvImage.wf _ wellFounded_lt,
      fun x => ?_⟩
    dsimp only
    split
    next hlt =>
      refine .perform fun stat _ => ?_
      split
      · exact .ret nofun
      next hspace =>
        refine .bind gives_storeWords fun x' hlen => .ret ?_
        rintro _ ⟨⟩
        have hnearer := burst_nearer hlt hspace (Int.natCast_nonneg _) rfl
        rwa [← Int.natCast_add, ← hlen] at hnearer
    · exact .ret nofun
  · exact .other rfl fun _ => .give rfl fun _ => .ret

theorem tidied_outMboxRead {mboxData : Option (List UInt8)} {count : Int} :
    Tidied [] (baseSpeOutMboxRead spe mboxData count) := by
  unfold baseSpeOutMboxRead
  cases mboxData with
  | none => exact .bind tidied_fail fun _ => .ret
  | some buf =>
    dsimp only
    split
    · exact .bind tidied_fail fun _ => .ret
    refine .other rfl fun fl => ?_
    split
    · exact .bind (tidied_outMboxReadPs shallow_nil) fun _ => .ret
    · refine .bind (tidied_openIfClosed shallow_nil) fun fd => .blocks rfl nothing_kept fun x => ?_
      cases x with
      | ok bytes => exact .ret
      | error e => cases e <;> first | exact .ret | exact .other rfl fun _ => .ret

theorem tidied_pollWbox : Tidied [] (pollWbox spe) := by
  refine .bind (tidied_openIfClosed shallow_nil) fun fd => .blocks rfl nothing_kept fun x => ?_
  cases x <;> exact .ret

theorem gives_pollWbox {Φ : Bool → Prop} : Gives mutexes.offer (pollWbox spe) Φ :=
  .bind .any fun _ _ => gives_blocking trivial

theorem tidied_writeAllPs {mboxData : List Word} {count : Int} : Tidied [] (inMboxWriteAllPs spe mboxData count) := by
  refine .repeats (fun total => ?_) (.once fun total => ?_)
  · refine .bind (tidied_inMboxWritePs shallow_nil) fun n => ?_
    dsimp only
    split
    · refine .bind tidied_pollWbox fun ok => ?_
      cases ok <;> exact .ret
    · exact .ret
  · refine .bind .any fun n _ => ?_
    dsimp only
    split
    · exact .bind (gives_pollWbox (Φ := fun _ => False)) fun _ => False.elim
    · exact .ret rfl

theorem tidied_writeAnyPs {mboxData : List Word} {count : Int} : Tidied [] (inMboxWriteAnyPs spe mboxData count) := by
  refine .repeats (fun _ => ?_) (.once fun _ => ?_)
  · refine .bind (tidied_inMboxWritePs shallow_nil) fun n => ?_
    split
    · refine .bind tidied_pollWbox fun ok => ?_
      cases ok <;> exact .ret
    · exact .ret
  · refine .bind .any fun n _ => ?_
    split
    · exact .bind (gives_pollWbox (Φ := fun _ => False)) fun _ => False.elim
    · exact .ret rfl

theorem tidied_writeAllFile {mboxData : List Word} {count : Int} :
    Tidied [] (inMboxWriteAllFile spe mboxData count) := by
  refine .repeats (fun total => ?_) (.once fun total => ?_)
  · split
    · refine .bind (tidied_openIfClosed shallow_nil) fun fd => .blocks rfl nothing_kept fun x => ?_
      cases x <;> exact .ret
    · exact .ret
  · split
    · exact .bind .any fun _ _ => gives_blocking trivial
    · exact .ret rfl

theorem tidied_writeFile {mboxData : List Word} {count : Int} :
    Tidied [] (inMboxWriteFile spe d mboxData count) := by
  refine .bind (tidied_openIfClosed shallow_nil) fun fd => .blocks rfl nothing_kept fun x => ?_
  cases x <;> exact .ret

theorem tidied_inMboxWrite {mboxData : Option (List Word)} {count behaviorFlag : Int} :
    Tidied [] (baseSpeInMboxWrite spe mboxData count behaviorFlag) := by
  unfold baseSpeInMboxWrite
  cases mboxData with
  | none => exact tidied_fail
  | some mboxData =>
    dsimp only
    split
    · exact tidied_fail
    split
    · refine .other rfl fun fl => ?_
      split
      · exact tidied_writeAllPs
      · refine .bind tidied_writeAllFile fun total => ?_
        cases total with
        | none => exact tidied_fail
        | some total => exact .ret
    split
    · refine .other rfl fun fl => ?_
      split
      · exact tidied_writeAnyPs
      · refine .bind tidied_writeFile fun x => ?_
        cases x with
        | ok total => exact .ret
        | error e => exact tidied_fail
    split
    · refine .other rfl fun fl => ?_
      split
      · exact tidied_inMboxWritePs shallow_nil
      · refine .bind tidied_writeFile fun x => ?_
        cases x with
        | ok total => exact .ret
        | error e => cases e <;> first | exact tidied_fail | exact .other rfl fun _ => .ret
    · exact tidied_fail

theorem tidied_intrReadAll {buf : List UInt8} {count : Int} : Tidied [] (outIntrMboxReadAll spe buf count) := by
  refine .repeats (fun x => ?_) (.once fun x => ?_)
  · dsimp only
    split
    · refine .bind (tidied_openIfClosed shallow_nil) fun fd => .blocks rfl nothing_kept fun x => ?_
      cases x <;> exact .ret
    · exact .ret
  · dsimp only
    split
    · exact .bind .any fun _ _ => gives_blocking trivial
    · exact .ret rfl

theorem tidied_intrReadOnce {buf : List UInt8} {count : Int} : Tidied [] (outIntrMboxReadOnce spe d buf count) := by
  refine .bind (tidied_openIfClosed shallow_nil) fun fd => .blocks rfl nothing_kept fun x => ?_
  cases x <;> exact .ret

theorem tidied_outIntrMboxRead {mboxData : Option (List UInt8)} {count behaviorFlag : Int} :
    Tidied [] (baseSpeOutIntrMboxRead spe mboxData count behaviorFlag) := by
  have hfail {e : Errno} {buf : List UInt8} : Tidied [] (do return (← fail e, buf)) := .bind tidied_fail fun _ => .ret
  unfold baseSpeOutIntrMboxRead
  cases mboxData with
  | none => exact hfail
  | some buf =>
    dsimp only
    split
    · exact hfail
    split
    · refine .bind tidied_intrReadAll fun x => ?_
      obtain ⟨total, buf⟩ := x
      cases total with
      | none => exact hfail
      | some total => exact .ret
    split
    · refine .bind tidied_intrReadOnce fun x => ?_
      obtain ⟨x, buf⟩ := x
      cases x with
      | ok total => exact .ret
      | error e => exact hfail
    split
    · refine .bind tidied_intrReadOnce fun x => ?_
      obtain ⟨x, buf⟩ := x
      cases x with
      | ok total => exact .ret
      | error e => cases e <;> first | exact hfail | exact .other rfl fun _ => .ret
    · exact hfail

end

/-! ## Results -/

/-- The thread is in a system call that may block. -/
def InSystemCall (t : Tid) (cfg : Config Cmd Ans Tid World) : Prop :=
  ∃ c k, cfg.threads t = some (.cmd c k) ∧ Blocking c

/-- The thread is in a `read` or a `poll`. -/
def Reading (t : Tid) (cfg : Config Cmd Ans Tid World) : Prop :=
  (∃ fd n k, cfg.threads t = some (.cmd (.read fd n) k)) ∨ ∃ fd k, cfg.threads t = some (.cmd (.poll fd) k)

/-- The thread is about to lock a mutex that `u` owns. -/
def WaitsFor (t : Tid) (m : Mutex) (u : Tid) (cfg : Config Cmd Ans Tid World) : Prop :=
  (∃ k, cfg.threads t = some (.cmd (.lock m) k)) ∧ cfg.shared.owner m = some u

/-- Each call has returned, is in a system call that may block, or waits for a mutex. Those are owned by readers
of a stop info, and by threads that wait for such a reader. -/
structure WorkedOff (cfg : Config Cmd Ans Tid World) : Prop where
  threads : ∀ t, cfg.threads t = none ∨ InSystemCall t cfg ∨ ∃ m u, WaitsFor t m u cfg
  stopEventLock : ∀ spe t, cfg.shared.owner (.stopEventLock spe) = some t → Reading t cfg
  lock : ∀ spe t, cfg.shared.owner (.lock spe) = some t → ∃ u, WaitsFor t (.stopEventLock spe) u cfg
  fdLock : ∀ spe d, cfg.shared.owner (.fdLock spe d) = none

section

variable {t u : Tid} {m : Mutex} {cfg : Config Cmd Ans Tid World}

theorem waitsFor_iff : Mutexes.WaitsFor (S := librarySystem) mutexes t m u cfg ↔ WaitsFor t m u cfg := by
  constructor
  · rintro ⟨⟨c, k, hc, hop⟩, hown⟩
    refine ⟨?_, hown⟩
    cases c with
    | lock m' =>
      obtain rfl : m' = m := by injection hop
      exact ⟨k, hc⟩
    | note n => cases n <;> cases hop
    | _ => cases hop
  · rintro ⟨⟨k, hk⟩, hown⟩
    exact ⟨⟨_, k, hk, rfl⟩, hown⟩

theorem blocking_of_op {c : Cmd} {kept : Mutex → Prop} (hop : mutexOp c = .blocks kept) : Blocking c := by
  cases c with
  | note n => cases n <;> cases hop
  | _ => first | exact trivial | cases hop

/-- Whoever keeps a mutex in a system call keeps a `stop_event_lock` while reading. -/
theorem reading_of_op {c : Cmd} {kept : Mutex → Prop} {k : Ans c → Sys Unit} (hop : mutexOp c = .blocks kept)
    (hc : cfg.threads t = some (.cmd c k)) (hm : kept m) : IsStopEventLock m ∧ Reading t cfg := by
  cases c with
  | read fd n =>
    obtain rfl : IsStopEventLock = kept := by injection hop
    exact ⟨hm, .inl ⟨fd, n, k, hc⟩⟩
  | poll fd =>
    obtain rfl : IsStopEventLock = kept := by injection hop
    exact ⟨hm, .inr ⟨fd, k, hc⟩⟩
  | write | epollWait | baseRun | spuPush | spuPop =>
    obtain rfl : (fun _ => False) = kept := by injection hop
    exact hm.elim
  | note n => cases n <;> cases hop
  | _ => cases hop

end

/-- Every call is tidy. -/
theorem tidied_code (t : Tid) (c : LibraryCall) : Tidied [] (librarySystem.code t c) := by
  cases c with
  | event c =>
    cases c with
    | register h ev => exact .bind tidied_register fun _ => .ret
    | deregister h ev => exact .bind tidied_deregister fun _ => .ret
    | wait h events maxEvents timeout => exact .bind tidied_wait fun _ => .ret
    | stopInfoRead spe => exact .bind tidied_stopInfoRead fun _ => .ret
    | run spe => exact .bind tidied_contextRun fun _ => .ret
  | mbox c =>
    cases c with
    | outMboxRead spe data count => exact .bind tidied_outMboxRead fun _ => .ret
    | inMboxWrite spe data count behavior => exact .bind tidied_inMboxWrite fun _ => .ret
    | outIntrMboxRead spe data count behavior => exact .bind tidied_outIntrMboxRead fun _ => .ret
    | spuPush spe w => exact .last (.blocks rfl nothing_kept fun _ => .ret)
    | spuPop spe => exact .blocks rfl nothing_kept fun _ => .ret
  | openIfClosed spe d => exact .bind (tidied_openIfClosed shallow_nil) fun _ => .ret
  | closeIfOpen spe d => exact tidied_closeIfOpen shallow_nil

theorem workedOff_of_stuck {cfg : Config Cmd Ans Tid World} (hr : librarySystem.Reachable cfg)
    (hend : ∀ cfg', ¬ librarySystem.Work offer cfg cfg') : WorkedOff cfg := by
  have hinit : ∀ s, librarySystem.init s → ∀ m, mutexes.owner s m = none := fun s hs => hs.owner
  obtain ⟨hthreads, howned⟩ := Mutexes.works_off (S := librarySystem) mutexes hinit (fun s hs => hs.mailboxes)
    tidied_code hr hend
  -- whoever owns a mutex reads a stop info, or waits for a mutex that comes later
  have hcause {m : Mutex} {t : Tid} (hm : cfg.shared.owner m = some t) :
      IsStopEventLock m ∧ Reading t cfg ∨ ∃ m' u, WaitsFor t m' u cfg ∧ mutexBefore m m' := by
    cases howned m t hm with
    | parked h =>
      obtain ⟨c, k, kept, hc, hop⟩ := h
      have hkept : kept m := Mutexes.kept_of_parked (S := librarySystem) mutexes hinit tidied_code hr hc hop hm
      exact .inl (reading_of_op hop hc hkept)
    | @waits _ u m' h hu =>
      have hbefore := Mutexes.before_of_waitsFor (S := librarySystem) mutexes hinit tidied_code hr h hm
      exact .inr ⟨m', u, waitsFor_iff.mp h, hbefore⟩
  have hfree (spe : Spe) (d : FdName) : cfg.shared.owner (.fdLock spe d) = none := by
    by_contra hm
    obtain ⟨t, ht⟩ := Option.ne_none_iff_exists'.mp hm
    rcases hcause ht with ⟨hlock, -⟩ | ⟨m', u, -, hbefore⟩
    · exact hlock
    · exact hbefore
  refine ⟨fun t => ?_, fun spe t hm => ?_, fun spe t hm => ?_, hfree⟩
  · refine (hthreads t).imp_right fun hup => ?_
    cases hup with
    | parked h =>
      obtain ⟨c, k, kept, hc, hop⟩ := h
      exact .inl ⟨c, k, hc, blocking_of_op hop⟩
    | @waits _ u m h hu => exact .inr ⟨m, u, waitsFor_iff.mp h⟩
  · rcases hcause hm with ⟨-, hread⟩ | ⟨m', u, -, hbefore⟩
    · exact hread
    · exact hbefore.elim
  · rcases hcause hm with ⟨hlock, -⟩ | ⟨m', u, hwait, hbefore⟩
    · exact hlock.elim
    · cases m' with
      | lock spe' => exact hbefore.elim
      | fdLock spe' d =>
        have hnone := hwait.2
        rw [hfree spe' d] at hnone
        cases hnone
      | stopEventLock spe' =>
        obtain rfl : spe = spe' := hbefore
        exact ⟨u, hwait⟩

theorem reach_of_work {cfg cfg' : Config Cmd Ans Tid World} (hr : librarySystem.Reachable cfg)
    (hsteps : Relation.ReflTransGen (librarySystem.Work offer) cfg cfg') : librarySystem.Reachable cfg' := by
  induction hsteps with
  | refl => exact hr
  | tail _ hwork ih => exact hwork.reach ih

/-- **No interleaving gets stuck on the mutexes.** From every configuration that threads making these calls can
reach, and with no system call that may block being answered, the calls make finitely many steps, whatever the
schedule and the other answers; and when no call can make a step, everything is worked off. -/
theorem library_works_off {cfg : Config Cmd Ans Tid World} (hr : librarySystem.Reachable cfg) :
    Acc (fun b a => librarySystem.Work offer a b) cfg ∧
    ∀ cfg', Relation.ReflTransGen (librarySystem.Work offer) cfg cfg' →
      (∀ cfg'', ¬ librarySystem.Work offer cfg' cfg'') → WorkedOff cfg' := by
  refine ⟨Mutexes.work_acc (S := librarySystem) mutexes tidied_code hr, fun cfg' hsteps hend => ?_⟩
  exact workedOff_of_stuck (reach_of_work hr hsteps) hend

theorem libraryInit_boot : LibraryInit .boot where
  owner _ := rfl
  mailboxes _ := ⟨Nat.zero_le _, (by decide : 1 ≤ 255), (by decide : 4 ≤ 255)⟩

/-- While thread `2` reads a stop info of context `0`, thread `1` waits for it in a deregister, and thread `3` for
thread `1` in a register. -/
theorem reader_reach : ∃ cfg : Config Cmd Ans Tid World, librarySystem.Reachable cfg ∧
    (∀ t, t ∉ [1, 2, 3] → cfg.threads t = none) ∧ (∃ fd n k, cfg.threads 2 = some (.cmd (.read fd n) k)) ∧
    WaitsFor 1 (.stopEventLock 0) 2 cfg ∧ WaitsFor 3 (.lock 0) 1 cfg := by
  have h₀ : librarySystem.Reachable ⟨.boot, fun _ => none⟩ := .init libraryInit_boot
  let register : librarySystem.Call := LibraryCall.event (.register (some 7) (some ⟨8, some 0, 5⟩))
  let deregister : librarySystem.Call := LibraryCall.event (.deregister (some 7) (some ⟨8, some 0, 5⟩))
  let stopInfoRead : librarySystem.Call := LibraryCall.event (.stopInfoRead 0)
  have h₁ : librarySystem.Reachable ⟨World.boot.after 1 registerTrace, fun _ => none⟩ := by
    refine h₀.solo (t := 1) (c := register) rfl ?_ (show machine.play 1 registerTrace _ = some _ from rfl)
      (by repeat' constructor)
    repeat first | exact .ret | refine .cmd ?_
  have h₂ := h₁.begins (t := 2) (c := stopInfoRead) (p := do
      stopEventLock 0
      load (.stopEventPipe 0 0)) (a := (3 : Int)) rfl rfl (by repeat first | exact .ret | refine .cmd ?_)
    (show machine.play 2 [⟨.lock (.stopEventLock 0), ()⟩, ⟨.load (.stopEventPipe 0 0), (3 : Int)⟩] _ = some _ from rfl)
    (by repeat' constructor)
  have h₃ := h₂.begins (t := 1) (c := deregister) (p := perform (.flags 0)) rfl rfl (.cmd .ret)
    (show machine.play 1 [⟨.flags 0, speEventsEnable⟩] _ = some _ from rfl) (by repeat' constructor)
  have h₄ := Conc.System.Reach.play (p := eventSpeContextLock 0) h₃ (.cmd .ret)
    (show machine.play 1 [⟨.lock (.lock 0), ()⟩] _ = some _ from rfl) (by repeat' constructor)
  have h₅ := h₄.begins (t := 3) (c := register) (p := perform (.flags 0)) rfl rfl (.cmd .ret)
    (show machine.play 3 [⟨.flags 0, speEventsEnable⟩] _ = some _ from rfl) (by repeat' constructor)
  refine ⟨_, h₅, fun t ht => ?_, ⟨_, _, _, rfl⟩, ⟨⟨_, rfl⟩, rfl⟩, ⟨_, rfl⟩, rfl⟩
  simp only [List.mem_cons, List.not_mem_nil, or_false, not_or] at ht
  simp [ht]

theorem WaitsFor.stuck {t u : Tid} {m : Mutex} {cfg : Config Cmd Ans Tid World} (h : WaitsFor t m u cfg) :
    ∃ c k, cfg.threads t = some (.cmd c k) ∧ ∀ r, offer c r → librarySystem.exec t c r cfg.shared = none := by
  obtain ⟨⟨k, hk⟩, hown⟩ := h
  refine ⟨_, k, hk, fun r _ => if_neg ?_⟩
  simp [hown]

/-- There a reader of a stop info holds up two threads, and all is worked off. -/
theorem library_works_off_reader : ∃ cfg : Config Cmd Ans Tid World, Reading 2 cfg ∧
    WaitsFor 1 (.stopEventLock 0) 2 cfg ∧ WaitsFor 3 (.lock 0) 1 cfg ∧ WorkedOff cfg := by
  obtain ⟨cfg, hr, hidle, ⟨fd, n, k, hread⟩, hwait₁, hwait₃⟩ := reader_reach
  refine ⟨cfg, .inl ⟨fd, n, k, hread⟩, hwait₁, hwait₃, ?_⟩
  refine (library_works_off hr).2 cfg .refl fun cfg'' => Conc.not_work_of_stuck fun t => ?_
  by_cases ht : t ∈ [1, 2, 3]
  · have hcases : t = 1 ∨ t = 2 ∨ t = 3 := by simpa using ht
    obtain rfl | rfl | rfl := hcases
    · exact .inr hwait₁.stuck
    · exact .inr ⟨_, k, hread, fun r hoff => absurd trivial hoff⟩
    · exact .inr hwait₃.stuck
  · exact .inl (hidle t ht)

end LibSpe2.LockOrder
