import LibSpe2.Context.Released

/-!
# A context without an event record

The old interface creates its contexts with `_base_spe_context_create`, for events and without an event record,
and calls the base layer on them. The code of the base layer does not ask for that record, so what is known of a
context that has one holds of such a context too.

* `Cmd.Bare` — the commands that do not look at `event_private`.
* `Use` — what the base layer is called for on a context.

Main results: `keeps_bare`, `keeps_load` and `keeps_use`, the invariant of a context is kept.
-/

namespace LibSpe2.Ctx

open Conc Function

variable {l : Life} {spe : Spe} {s s' : Proc} {α : Type}

/-! ## Commands -/

/-- The process, the context having an event record. -/
def Proc.withEvent (s : Proc) : Proc := { s with eventPrivate := true }

/-- There is no event record: for what would be its members nothing is open and nobody is counted. -/
def Proc.withoutEvent (s : Proc) : Proc :=
  { s with mem := fun
      | .stopEventPipe _ _ => -1
      | .stopEventHandlerCount _ => 0
      | l => s.mem l }

/-- The commands of the base layer. -/
def Cmd.Bare : Cmd → Prop
  | .eventPrivate | .setEventPrivate _ => False
  | _ => True

theorem release_withEvent {r : Resource} : s.withEvent.release r = (s.release r).withEvent := by
  unfold Proc.release
  split
  · next h =>
    rw [if_pos (show r ∈ s.live from h)]
    rfl
  · next h =>
    rw [if_neg (show r ∉ s.live from h)]
    rfl

theorem noteWrite_withEvent {fd : Fd} {bytes : List UInt8} {r : Except Errno Nat} :
    s.withEvent.noteWrite fd bytes r = (s.noteWrite fd bytes r).withEvent := by
  unfold Proc.noteWrite
  split <;> rfl

theorem noteAccess_withEvent {a : PsArea} : s.withEvent.noteAccess a = (s.noteAccess a).withEvent := by
  unfold Proc.noteAccess
  split
  · next h =>
    rw [if_pos (show s.base.area a = none from h)]
    rfl
  · next h => rw [if_neg (show ¬s.base.area a = none from h)]

/-- **Step**: a command of the base layer does the same. -/
theorem exec_withEvent {c : Cmd} {r : Ans c} (hc : c.Bare) (h : exec () c r s = some s') :
    exec () c r s.withEvent = some s'.withEvent := by
  cases c with
  | eventPrivate => exact hc.elim
  | setEventPrivate => exact hc.elim
  | munmap | close =>
    obtain rfl := Option.some.inj h
    exact congrArg some release_withEvent
  | write =>
    obtain rfl := Option.some.inj h
    exact congrArg some noteWrite_withEvent
  | access =>
    obtain rfl := Option.some.inj h
    exact congrArg some noteAccess_withEvent
  | spuCreate | openat | pipe =>
    cases r with
    | error =>
      obtain rfl := Option.some.inj h
      rfl
    | ok =>
      obtain ⟨hfree, rfl⟩ := of_guard h
      exact if_pos hfree
  | mmap =>
    cases r with
    | none =>
      obtain rfl := Option.some.inj h
      rfl
    | some =>
      obtain ⟨hfree, rfl⟩ := of_guard h
      exact if_pos hfree
  | load | base =>
    obtain ⟨hr, rfl⟩ := of_guard h
    exact if_pos hr
  | _ =>
    obtain rfl := Option.some.inj h
    rfl

theorem play_withEvent {tr : List (Sigma Ans)} (hc : ∀ e ∈ tr, e.1.Bare)
    (h : machine.play () tr s = some s') : machine.play () tr s.withEvent = some s'.withEvent := by
  induction tr generalizing s with
  | nil =>
    obtain rfl := Option.some.inj h
    rfl
  | cons e tr ih =>
    obtain ⟨hce, hctr⟩ := List.forall_mem_cons.mp hc
    obtain ⟨s₁, h₁, h⟩ := Option.bind_eq_some_iff.mp h
    exact Option.bind_eq_some_iff.mpr ⟨_, exec_withEvent hce h₁, ih hctr h⟩

/-- What is kept in a context with an event record is kept in one without. -/
theorem keeps_bare {p : Code α} (hk : CtxKeeps l spe p) (hp : p.All Cmd.Bare)
    (hs : Inv l spe s.withEvent) : Solo machine () p s fun _ _ s' => Inv l spe s'.withEvent := by
  intro tr a s' hends hplay
  exact ((hk _ hs hs.calm).1 tr a _ hends (play_withEvent (hp.ends hends) hplay)).1

/-! ## One context of several -/

/-- The private records of a context are in order, whatever else the process holds. -/
def Fit (spe : Spe) (s : Proc) : Prop :=
  ∃ l, l.event = true ∧ Inv l spe { s.withEvent with live := l.others + s.owned spe l.event }

/-- The invariant says of the rest of the process only that it is there. -/
theorem Inv.relive (h : Inv l spe s) (others : Multiset Resource) :
    Inv { l with others } spe { s with live := others + s.owned spe l.event } where
  live := rfl
  faults := h.faults
  slots := h.slots
  ends := h.ends
  flags := h.flags
  event := h.event
  hasEvent := h.hasEvent
  isolate := h.isolate
  areas := h.areas
  counted := h.counted

theorem Fit.inv {others : Multiset Resource} (h : Fit spe s) (hlive : s.live = others + s.owned spe true) :
    ∃ l, l.event = true ∧ l.others = others ∧ Inv l spe s.withEvent := by
  obtain ⟨l, he, hinv⟩ := h
  have heq : { s.withEvent with live := others + s.owned spe l.event } = s.withEvent := by
    rw [he, ← hlive]
    rfl
  have hothers : Inv { l with others } spe { s.withEvent with live := others + s.owned spe l.event } :=
    hinv.relive others
  rw [heq] at hothers
  exact ⟨{ l with others }, he, rfl, hothers⟩

theorem Inv.fit (h : Inv l spe s.withEvent) (he : l.event = true) : Fit spe s :=
  ⟨l, he, h.relive l.others⟩

/-- A context that has just been created. -/
theorem Created.fit {flags : UInt32} (h : Created spe (contextFlags flags) s s')
    (he : flags &&& speEventsEnable ≠ 0) : Fit spe s'.withoutEvent ∧
      s'.live = s.live + s'.withoutEvent.owned spe true := by
  have hevent : (s.lifeOf flags False).event = true := decide_eq_true he
  have hinv : Inv (s.lifeOf flags False) spe s'.withoutEvent.withEvent := by
    have hslots (d : FdName) : s'.withoutEvent.mem (.speFdsArray spe d) = s'.mem (.speFdsArray spe d) := rfl
    have hinv := h.inv False.elim hslots fun _ _ => rfl
    rw [hevent] at hinv
    exact hinv
  refine ⟨hinv.fit hevent, ?_⟩
  have hlive := hinv.live
  rw [hevent] at hlive
  exact hlive

/-- Destroying a context leaves what else the process holds. -/
theorem Inv.destroy (h : Inv l spe s.withEvent) (he : l.event = true) :
    Solo machine () (baseSpeContextDestroy spe) s fun _ _ s' => s'.live = l.others + s.pipeFds spe := by
  have hlive : s.live = s.base.owned + s.slotFds spe fdNames + (l.others + s.pipeFds spe) := by
    have hlive : s.live = l.others + s.owned spe l.event := h.live
    rw [hlive, he]
    unfold Proc.owned
    simp only [↓reduceIte]
    abel
  intro tr a s' hends hplay
  exact ((post_freeSpeContext (w := s.watch) hlive s.calm).1 tr a s' hends hplay).1

/-! ## Loading and running -/

theorem bare_modifyBase {f : BasePriv → BasePriv} : (modifyBase f).All Cmd.Bare :=
  .bind (.perform trivial) fun _ => .perform trivial

theorem Cmd.Inner.bare {c : Cmd} (hc : c.Inner) : c.Bare := by
  cases c with
  | eventPrivate | setEventPrivate => exact hc.elim
  | _ => trivial

theorem bare_sys (p : Sys α) : (sys p).All Cmd.Bare := (inner_sys p).imp fun _ => Cmd.Inner.bare

theorem bare_programLoadComplete : baseSpeProgramLoadComplete.All Cmd.Bare :=
  inner_programLoadComplete.imp fun _ => Cmd.Inner.bare

theorem bare_startIsolatedApp {handle : ProgramHandle} : (speStartIsolatedApp spe handle).All Cmd.Bare := by
  have hfail {e : Int} : (failNeg e).All Cmd.Bare := .bind (.perform trivial) fun _ => trivial
  refine .bind (.perform trivial) fun r => ?_
  dsimp only
  split
  · exact hfail
  split
  · exact hfail
  refine .bind ((inner_writeIsolatedLoadParams ..).imp fun _ => Cmd.Inner.bare) fun rc => ?_
  split
  · exact hfail
  · trivial

theorem bare_loadProgram {flags : UInt32} {handle : ProgramHandle} :
    (loadProgram spe flags handle).All Cmd.Bare := by
  unfold loadProgram
  split
  · exact .bind bare_startIsolatedApp fun _ => trivial
  split
  · refine .bind (.perform trivial) fun r => ?_
    split
    · trivial
    split
    · trivial
    · exact .bind bare_startIsolatedApp fun _ => trivial
  · refine .bind (.perform trivial) fun r => ?_
    dsimp only
    split
    · exact .bind bare_programLoadComplete fun _ => trivial
    · trivial

/-- **Loading** keeps the invariant. -/
theorem keeps_load {handle : ProgramHandle} (hs : Inv l spe s.withEvent) :
    Solo machine () (baseSpeProgramLoad spe handle) s fun _ _ s' => Inv l spe s'.withEvent := by
  have hbare : (baseSpeProgramLoad spe handle).All Cmd.Bare := by
    refine .bind bare_modifyBase fun _ => .bind (.perform trivial) fun priv => ?_
    refine .bind bare_loadProgram fun r => ?_
    dsimp only
    split
    · trivial
    · exact .bind (.perform trivial) fun _ => .bind bare_modifyBase fun _ => trivial
  have hkeeps : CtxKeeps l spe (speProgramLoad spe (some handle)) := keeps_programLoad
  exact keeps_bare hkeeps hbare hs

theorem bare_contextRun {args : Run.Args} : (baseSpeContextRun spe args).All Cmd.Bare := by
  refine .bind (.perform trivial) fun priv => .bind ?_ fun res => ?_
  · refine (Prog.all_true _).interp fun c _ => ?_
    cases c with
    | programLoadComplete => exact bare_programLoadComplete
    | storeRunCntl => exact .bind (.perform trivial) fun _ => .perform trivial
    | _ => exact .perform trivial
  · exact .bind bare_modifyBase fun _ => trivial

/-! ## Calls -/

/-- A call that has to do with neither events nor programs. -/
def Op.Base : Op → Prop
  | .programLoad _ | .contextRun _ | .stopInfoRead | .eventHandlerRegister _ _ | .eventHandlerDeregister _ _ => False
  | _ => True

/-- What the base layer is called for on a context that has been created. -/
inductive Use where
  | call (op : Op) (base : op.Base)
  | run (args : Run.Args)
  /-- `__base_spe_event_source_acquire` and `__base_spe_event_source_release`. -/
  | acquire (fdesc : FdName)
  | release (fdesc : FdName)

def Use.code (spe : Spe) : Use → Code Unit
  | .call op _ => op.code spe
  | .run args => do let _ ← baseSpeContextRun spe args
  | .acquire fdesc => do let _ ← openIfClosed spe fdesc
  | .release fdesc => sys (baseSpeCloseIfOpen spe fdesc)

theorem bare_hasFlag {bit : UInt32} {f : Bool → Code α} (hf : ∀ b, (f b).All Cmd.Bare) :
    ((hasFlag bit).bind f).All Cmd.Bare :=
  .bind (.bind (.perform trivial) fun _ => trivial) hf

theorem bare_mboxStatus {fdesc : FdName} {field : Word → Int} :
    (mboxStatus spe fdesc field).All Cmd.Bare := by
  refine bare_hasFlag fun b => ?_
  split
  · exact .bind (.perform trivial) fun _ => .bind (.perform trivial) fun _ => trivial
  · refine .bind (bare_sys _) fun fd => .bind (.perform trivial) fun r => ?_
    split <;> trivial

theorem bare_signalWrite {reg : UInt32} {data : Word} : (baseSpeSignalWrite spe reg data).All Cmd.Bare := by
  have hfile {fdesc : FdName} : (signalWriteFile spe fdesc data).All Cmd.Bare := by
    refine .bind (bare_sys _) fun fd => .bind (.perform trivial) fun r => ?_
    exact .bind (bare_sys _) fun _ => trivial
  have hfail : (do perform (.setErrno einval); return (-1 : Int) : Code Int).All Cmd.Bare :=
    .bind (.perform trivial) fun _ => trivial
  refine bare_hasFlag fun b => ?_
  split
  · split
    · exact .bind (.perform trivial) fun _ => trivial
    split
    · exact .bind (.perform trivial) fun _ => trivial
    · exact hfail
  split
  · exact hfile
  split
  · exact hfile
  · exact hfail

theorem bare_mssyncStart : (baseSpeMssyncStart spe).All Cmd.Bare := by
  refine bare_hasFlag fun b => ?_
  split
  · exact .bind (.perform trivial) fun _ => trivial
  · refine .bind (bare_sys _) fun fd => ?_
    split
    · refine .bind (.perform trivial) fun r => ?_
      split <;> trivial
    · trivial

theorem bare_mssyncStatus : (baseSpeMssyncStatus spe).All Cmd.Bare := by
  refine bare_hasFlag fun b => ?_
  split
  · exact .bind (.perform trivial) fun _ => .bind (.perform trivial) fun _ => trivial
  · refine .bind (bare_sys _) fun fd => ?_
    split
    · refine .bind (.perform trivial) fun r => ?_
      split <;> trivial
    · trivial

theorem bare_psAreaGet {area : PsArea} : (baseSpePsAreaGet area).All Cmd.Bare := by
  refine .bind (.perform trivial) fun priv => ?_
  split
  · exact .bind (.perform trivial) fun _ => trivial
  · trivial

theorem bare_dmaCode {c : Dma.Call} : (dmaCode spe c).All Cmd.Bare := by
  refine .bind (.perform trivial) fun priv => (Prog.all_true _).interp fun c _ => ?_
  cases c with
  | openIfClosed => exact bare_sys _
  | readQStatus | writeLSA | writeEAH | writeEAL | writeSizeTag | writeClassIdCmd | readCmdStatus
  | writeQueryMask | readTagStatus => exact .bind (.perform trivial) fun _ => .perform trivial
  | _ => exact .perform trivial

theorem bare_op {op : Op} (hop : op.Base) : (op.code spe).All Cmd.Bare := by
  cases op with
  | outMboxRead | inMboxWrite | outIntrMboxRead => exact .bind (bare_sys _) fun _ => trivial
  | inMboxStatus | outMboxStatus | outIntrMboxStatus => exact .bind bare_mboxStatus fun _ => trivial
  | signalWrite => exact .bind bare_signalWrite fun _ => trivial
  | mfcio => exact bare_dmaCode
  | mssyncStart => exact .bind bare_mssyncStart fun _ => trivial
  | mssyncStatus => exact .bind bare_mssyncStatus fun _ => trivial
  | psAreaGet => exact .bind bare_psAreaGet fun _ => trivial
  | programLoad | contextRun | stopInfoRead | eventHandlerRegister | eventHandlerDeregister => exact hop.elim

/-- **Using** a context keeps the invariant. -/
theorem keeps_use {u : Use} (hs : Inv l spe s.withEvent) :
    Solo machine () (u.code spe) s fun _ _ s' => Inv l spe s'.withEvent := by
  cases u with
  | call op base => exact keeps_bare keeps_op (bare_op base) hs
  | run args =>
    exact keeps_bare (keeps_baseRun.bind fun _ _ => .ret trivial) (.bind bare_contextRun fun _ => trivial) hs
  | acquire d =>
    exact keeps_bare (keeps_openIfClosed.keeps.bind fun _ _ => .ret trivial) (.bind (bare_sys _) fun _ => trivial) hs
  | release d => exact keeps_bare keeps_closeIfOpen.keeps (bare_sys _) hs

end LibSpe2.Ctx
