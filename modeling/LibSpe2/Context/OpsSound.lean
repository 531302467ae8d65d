import LibSpe2.Context.Rules
import LibSpe2.Context.Sound

/-!
# Every call keeps the ledger

Each call on a context keeps `Inv` (`keeps_op`), and so do calls one after the other (`keeps_ops`),
whatever the kernel answers. A call that goes through the problem state does so only in a context with
`SPE_MAP_PS`, which is where the invariant vouches for the areas.

* `keepsRules` — most calls follow the rules of `Rules.lean`; loading and running are followed here.
-/

namespace LibSpe2.Ctx

open Conc Function

variable {l : Life} {w : Watch} {spe : Spe} {s s' : Proc} {α β : Type} {run : Code (Int × StopInfo)}

/-! ## The process's own commands -/

/-- A program of the process keeps the invariant. -/
abbrev CtxKeeps (l : Life) (spe : Spe) (p : Code α) (Φ : α → Prop := fun _ => True) : Prop :=
  Keeps machine () l.watch.Calm (Inv l spe) p Φ

theorem SysKeeps.keeps {p : Sys α} {Φ : α → Prop} (h : SysKeeps run l spe p Φ) :
    CtxKeeps l spe (p.interp (implSys run)) Φ := h

theorem keeps_still {c : Cmd} (h : ∀ r s s', exec () c r s = some s' → s' = s) :
    CtxKeeps l spe (perform c) :=
  Keeps.perform (fun _ hs => hs.calm) fun s r s' hs he => ⟨h r s s' he ▸ hs, trivial⟩

theorem keeps_base : CtxKeeps l spe (perform .base) fun b => b.flags = l.flags := by
  apply Keeps.perform fun _ hs => Inv.calm hs
  intro s b s' hs he
  obtain ⟨rfl, rfl⟩ := of_guard he
  exact ⟨hs, hs.flags⟩

theorem keeps_setErrno {e : Int} : CtxKeeps l spe (perform (.setErrno e)) :=
  keeps_still fun _ _ _ he => (Option.some.inj he).symm

theorem keeps_sysCmd {c : LibSpe2.Cmd} : CtxKeeps l spe (perform (.sys c)) :=
  keeps_still fun _ _ _ he => (Option.some.inj he).symm

theorem keeps_someWord : CtxKeeps l spe (perform .someWord) :=
  keeps_still fun _ _ _ he => (Option.some.inj he).symm

theorem keeps_eventPrivate : CtxKeeps l spe (perform .eventPrivate) fun v => v = l.event := by
  apply Keeps.perform fun _ hs => Inv.calm hs
  intro s v s' hs he
  obtain ⟨rfl, rfl⟩ := of_guard he
  exact ⟨hs, hs.event⟩

theorem keeps_access {a : PsArea} (h : l.flags &&& speMapPs ≠ 0) :
    CtxKeeps l spe (perform (.access a)) := fun _ hs =>
  (post_access hs h).mono fun _ _ hs' => ⟨hs', trivial⟩

/-- Stores to members that are not in the ledger. -/
theorem keeps_modifyBase {f : BasePriv → BasePriv} (hflags : ∀ b, (f b).flags = b.flags)
    (howned : ∀ b, (f b).owned = b.owned) (harea : ∀ b, (f b).area = b.area) :
    CtxKeeps l spe (modifyBase f) := by
  intro s hs
  apply post_step (c := .base) trivial
  intro b s₁ h₁
  obtain ⟨rfl, rfl⟩ := of_guard h₁
  apply post_perform (c := .setBase _) trivial
  intro _ s' h
  obtain rfl := Option.some.inj h
  refine ⟨hs.same ?_, trivial⟩
  exact ⟨rfl, rfl, rfl, rfl, hflags _, howned _, harea _, fun _ => rfl, fun _ => rfl, rfl⟩

theorem release_acquire {r : Resource} : (s.acquire r).release r = s := by
  rw [Proc.release, if_pos (by simp [Proc.acquire])]
  simp [Proc.acquire]

theorem noteWrite_acquire {r : Resource} {fd : Fd} {bytes : List UInt8} {n : Except Errno Nat} :
    (s.acquire r).noteWrite fd bytes n = (s.noteWrite fd bytes n).acquire r := by
  unfold Proc.noteWrite
  split <;> rfl

/-- The kernel knows the file behind a new descriptor. -/
def Proc.setFile (s : Proc) (fd : Fd) (filename : String) : Proc :=
  { s with files := update s.files fd filename }

theorem same_setFile {fd : Fd} {filename : String} : Same spe s (s.setFile fd filename) := by
  constructor <;> intros <;> rfl

/-- A new descriptor, or nothing. -/
theorem post_openat {dir : Fd} {filename : String} {mode : Mode} :
    CtxPost w (perform (.openat dir filename mode)) s fun r s' =>
      match r with
      | .error _ => s' = s
      | .ok fd => s' = (s.setFile fd filename).acquire (.fd fd) := by
  apply post_perform (c := .openat ..) trivial
  rintro (e | fd) s' h
  · exact (Option.some.inj h).symm
  · exact (of_guard h).2.symm

/-- A descriptor is written to and closed, after which nothing of it is left. -/
theorem post_writeClose {fd : Fd} {bytes : List UInt8} {f : Unit → Code α} {Q : α → Proc → Prop}
    (h : ∀ r, CtxPost w (f ()) (s.noteWrite fd bytes r) Q) :
    CtxPost w ((perform (.write fd bytes)).bind fun _ => (perform (.close fd)).bind f)
      (s.acquire (.fd fd)) Q := by
  apply post_step (c := .write fd bytes) trivial
  intro r s₁ h₁
  obtain rfl := Option.some.inj h₁
  rw [show (s.acquire (.fd fd)).noteWrite fd bytes r = _ from noteWrite_acquire]
  apply post_release (c := .close fd) (fun _ _ he => (Option.some.inj he).symm)
    (Multiset.mem_cons_self ..)
  intro _
  rw [release_acquire]
  exact h r

theorem keeps_programLoadComplete : CtxKeeps l spe baseSpeProgramLoadComplete := by
  refine keeps_base.bind fun priv _ => ?_
  split
  · exact .ret trivial
  intro s hs
  refine post_openat.bind ?_
  rintro (e | fd) s₁ h₁
  · obtain rfl := h₁
    exact .ret ⟨hs, trivial⟩
  · obtain rfl := h₁
    refine post_writeClose (f := .ret) fun w => .ret ⟨?_, trivial⟩
    exact (hs.same same_setFile).same same_noteWrite

/-! ## Most calls -/

/-- Keeping the ledger can be followed through a call. -/
theorem keepsRules : Rules l.flags spe fun _ p => CtxKeeps l spe p where
  ret _ := .ret trivial
  bind hp hf := hp.bind fun a _ => hf a
  repeats hb := .repeats fun j => (hb j).mono fun x _ => by cases x <;> trivial
  base hf := keeps_base.bind hf
  load _ := keeps_still fun _ _ _ he => (of_guard he).2.symm
  sys _ := keeps_sysCmd
  dma _ := keeps_still fun _ _ _ he => (Option.some.inj he).symm
  access _ hps := keeps_access hps
  setErrno _ := keeps_setErrno
  someWord := keeps_someWord
  openIfClosed _ := keeps_openIfClosed.keeps
  closeIfOpen _ := keeps_closeIfOpen.keeps
  acquire hev s hs := (keeps_pipeAcquire (hs.hasEvent hev)).keeps s hs
  release hev s hs := (keeps_pipeRelease (hs.hasEvent hev)).keeps s hs

/-! ## Reading the stop info -/

theorem quiet_stopInfoReadRest {fd : Fd} {got : List UInt8} :
    (stopInfoReadRest fd got).All (Quiet l.flags spe) := by
  apply Prog.all_repeats.mpr
  intro got
  split
  · refine .bind (.perform trivial) fun r => ?_
    split
    · trivial
    · trivial
    split
    · refine .bind (.perform trivial) fun r => ?_
      split <;> trivial
    · trivial
  · trivial

theorem keeps_stopInfoRead : SysKeeps run l spe (eventSpeStopInfoRead spe) := by
  refine .bind (sysKeeps_quiet trivial) fun _ _ => ?_
  refine .bind (sysKeeps_quiet trivial) fun fd _ => ?_
  split
  · refine .bind (sysKeeps_quiet trivial) fun n _ => ?_
    split
    · refine .bind (sysKeeps_quiet trivial) fun info _ => ?_
      refine .bind (sysKeeps_quiet trivial) fun _ _ => ?_
      exact .bind (sysKeeps_quiet trivial) fun _ _ => .ret trivial
    · refine .bind (sysKeeps_quiet trivial) fun _ _ => ?_
      exact .bind (sysKeeps_quiet trivial) fun _ _ => .ret trivial
  · refine .bind (sysKeeps_quiet trivial) fun r _ => ?_
    split
    · exact .bind (sysKeeps_quiet trivial) fun _ _ => .ret trivial
    · refine .bind (.of_all quiet_stopInfoReadRest) fun x _ => ?_
      dsimp only
      split
      · exact .bind (sysKeeps_quiet trivial) fun _ _ => .ret trivial
      · refine .bind (sysKeeps_quiet trivial) fun _ _ => ?_
        exact .bind (sysKeeps_quiet trivial) fun _ _ => .ret trivial

/-! ## Loading -/

theorem keeps_writeWords {fd : Fd} {ws : List Word} : CtxKeeps l spe (writeWords fd ws) := by
  induction ws with
  | nil => exact .ret trivial
  | cons w ws ih =>
    refine keeps_sysCmd.bind fun r _ => ?_
    split
    · split
      · exact ih
      · exact .ret trivial
    · exact .ret trivial

theorem keeps_failNeg {e : Int} : CtxKeeps l spe (failNeg e) :=
  keeps_setErrno.bind fun _ _ => .ret trivial

theorem keeps_startIsolatedApp {program : ProgramHandle} :
    CtxKeeps l spe (speStartIsolatedApp spe program) := by
  have hparse : CtxKeeps l spe (perform (.parseIsolatedElf program)) :=
    keeps_still fun _ _ _ he => (Option.some.inj he).symm
  refine hparse.bind fun r _ => ?_
  dsimp only
  split
  · exact keeps_failNeg
  split
  · exact keeps_failNeg
  refine Keeps.bind (Φ := fun _ => True) ?_ fun rc _ => ?_
  · refine keeps_openIfClosed.keeps.bind fun fd _ => ?_
    split
    · exact .ret trivial
    · exact keeps_writeWords
  · split
    · exact keeps_failNeg
    · exact .ret trivial

theorem keeps_loadProgram {flags : UInt32} {program : ProgramHandle} :
    CtxKeeps l spe (loadProgram spe flags program) := by
  have hload : CtxKeeps l spe (perform (.loadSpeElf program)) :=
    keeps_still fun _ _ _ he => (Option.some.inj he).symm
  have hloader : CtxKeeps l spe (perform .loadEmulatedLoader) :=
    keeps_still fun _ _ _ he => (Option.some.inj he).symm
  unfold loadProgram
  split
  · exact keeps_startIsolatedApp.bind fun _ _ => .ret trivial
  split
  · refine hloader.bind fun r _ => ?_
    split
    · exact .ret trivial
    split
    · exact .ret trivial
    · exact keeps_startIsolatedApp.bind fun _ _ => .ret trivial
  · refine hload.bind fun r _ => ?_
    dsimp only
    split
    · exact keeps_programLoadComplete.bind fun _ _ => .ret trivial
    · exact .ret trivial

theorem keeps_programLoad {program : Option ProgramHandle} :
    CtxKeeps l spe (speProgramLoad spe program) := by
  cases program with
  | none => exact keeps_setErrno.bind fun _ _ => .ret trivial
  | some program =>
    have hstore : CtxKeeps l spe (modifyBase fun priv =>
        { priv with loadedProgram := some program }) :=
      keeps_modifyBase (fun _ => rfl) (fun _ => rfl) fun _ => rfl
    have hentry (e : UInt32) : CtxKeeps l spe (modifyBase fun priv =>
        { priv with entry := e, emulatedEntry := e }) :=
      keeps_modifyBase (fun _ => rfl) (fun _ => rfl) fun _ => rfl
    refine hstore.bind fun _ _ => ?_
    refine keeps_base.bind fun priv _ => ?_
    refine keeps_loadProgram.bind fun r _ => ?_
    dsimp only
    split
    · exact .ret trivial
    · refine keeps_someWord.bind fun garbage _ => ?_
      exact (hentry _).bind fun _ _ => .ret trivial

/-! ## Running -/

/-- The control register is written only in a context with `SPE_ISOLATE`. -/
def RunQuiet (flags : UInt32) : Run.Cmd → Prop
  | .storeRunCntl _ => flags &&& speIsolate ≠ 0
  | _ => True

theorem keeps_implRun (hiso : l.flags &&& speIsolate ≠ 0 → l.flags &&& speMapPs ≠ 0)
    {c : Run.Cmd} (hc : RunQuiet l.flags c) : CtxKeeps l spe (implRun c) := by
  cases c with
  | programLoadComplete => exact keeps_programLoadComplete
  | storeRunCntl v =>
    exact (keeps_access (hiso hc)).bind fun _ _ =>
      keeps_still fun _ _ _ he => (Option.some.inj he).symm
  | _ => exact keeps_still fun _ _ _ he => (Option.some.inj he).symm

section

variable {ctx : Run.Context} {f : Run.Frame}

theorem runQuiet_failWith {e : Int} : (Run.failWith f e).All (RunQuiet ctx.flags) :=
  .bind (.perform trivial) fun _ => trivial

theorem runQuiet_issueIsolatedExit (hiso : Run.has ctx.flags speIsolate = true) :
    (Run.issueIsolatedExit ctx).All (RunQuiet ctx.flags) := by
  have hiso : ctx.flags &&& speIsolate ≠ 0 := of_decide_eq_true hiso
  unfold Run.issueIsolatedExit
  split
  · trivial
  · exact .bind (.perform hiso) fun _ => trivial

theorem runQuiet_stopped {runflags : UInt32} {r : Run.SpuRun} :
    (Run.stopped ctx runflags r f).All (RunQuiet ctx.flags) := by
  unfold Run.stopped
  dsimp only
  split
  · refine .bind (.perform trivial) fun rc => ?_
    split
    · exact runQuiet_failWith
    · trivial
  split
  · split
    · next hiso =>
      refine .bind (runQuiet_issueIsolatedExit hiso) fun rc => ?_
      split <;> trivial
    · trivial
  split
  · split
    · exact .bind (.perform trivial) fun _ => trivial
    · exact runQuiet_failWith
  split <;> trivial

theorem runQuiet_doRun {runflags : UInt32} :
    (Run.doRun ctx runflags f).All (RunQuiet ctx.flags) := by
  refine .bind (.perform trivial) fun _ => .bind (.perform trivial) fun r => ?_
  refine .bind (.perform trivial) fun _ => .bind (.perform trivial) fun _ => ?_
  dsimp only
  split
  · split
    · trivial
    · exact runQuiet_failWith
  split
  · exact runQuiet_failWith
  split
  · exact runQuiet_failWith
  split
  · exact runQuiet_stopped
  split
  · exact runQuiet_failWith
  split
  · exact runQuiet_failWith
  split <;> exact runQuiet_failWith

theorem runQuiet_contextRun {entry emulatedEntry runflags : UInt32} {argp envp : UInt64} :
    (Run.contextRun ctx entry emulatedEntry runflags argp envp).All (RunQuiet ctx.flags) := by
  refine .bind ?_ fun r => ?_
  · unfold Run.setupArguments
    split
    · refine .bind ?_ fun regs => .bind (.perform trivial) fun _ => trivial
      unfold Run.startRegs
      dsimp only
      split
      · exact .bind (.perform trivial) fun _ => trivial
      · trivial
    · trivial
  · dsimp only
    split
    · exact .bind (.perform trivial) fun _ => trivial
    · refine .bind (.perform trivial) fun _ => .bind ?_ fun res => ?_
      · exact Prog.all_repeats.mpr fun _ => runQuiet_doRun
      · exact .bind (.perform trivial) fun _ => .bind (.perform trivial) fun _ => trivial

end

theorem keeps_baseRun {args : Run.Args} : CtxKeeps l spe (baseSpeContextRun spe args) := by
  intro s hs
  refine (keeps_base.bind fun priv hflags => ?_) s hs
  have hrun : CtxKeeps l spe ((Run.contextRun (priv.runContext spe) args.entry priv.emulatedEntry
      args.runflags args.argp args.envp).interp implRun) :=
    .interp runQuiet_contextRun fun c hc => keeps_implRun hs.isolate (hflags ▸ hc)
  have hentry (e : UInt32) : CtxKeeps l spe (modifyBase fun priv => { priv with emulatedEntry := e }) :=
    keeps_modifyBase (fun _ => rfl) (fun _ => rfl) fun _ => rfl
  exact hrun.bind fun res _ => (hentry _).bind fun _ _ => .ret trivial

/-- A run that the event layer wraps. -/
theorem sysKeeps_baseRun {args : Run.Args} :
    SysKeeps (baseRun spe args) l spe (LibSpe2.perform (.baseRun spe)) := by
  intro s hs
  have hrun : CtxKeeps l spe (baseRun spe args) :=
    keeps_baseRun.bind fun _ _ => keeps_sysCmd.bind fun _ _ => .ret trivial
  exact sysPost_perform (hrun.post hs)

theorem keeps_eventRun (he : l.event = true) {args : Run.Args} :
    SysKeeps (baseRun spe args) l spe (eventSpeContextRun spe) := by
  refine .bind sysKeeps_baseRun fun r _ => ?_
  refine .bind (sysKeeps_quiet trivial) fun errno _ => ?_
  refine .bind (sysKeeps_quiet trivial) fun _ _ => ?_
  refine .bind (sysKeeps_quiet trivial) fun fd _ => ?_
  split
  · refine .bind (sysKeeps_quiet trivial) fun _ _ => ?_
    refine .bind (sysKeeps_quiet trivial) fun _ _ => ?_
    exact .bind (sysKeeps_quiet trivial) fun _ _ => .ret trivial
  · refine .bind (keeps_pipeAcquire he) fun _ _ => ?_
    refine .bind (sysKeeps_quiet trivial) fun _ _ => ?_
    refine .bind (sysKeeps_quiet trivial) fun _ _ => ?_
    refine .bind (sysKeeps_quiet trivial) fun _ _ => ?_
    refine .bind (sysKeeps_quiet trivial) fun _ _ => ?_
    refine .bind (sysKeeps_quiet trivial) fun _ _ => ?_
    refine .bind (keeps_pipeRelease he) fun _ _ => ?_
    refine .bind (sysKeeps_quiet trivial) fun _ _ => ?_
    exact .bind (sysKeeps_quiet trivial) fun _ _ => .ret trivial

theorem keeps_contextRun {args : Run.Args} : CtxKeeps l spe (speContextRun spe args) := by
  refine keeps_eventPrivate.bind fun event hevent => ?_
  split
  · next he => exact (keeps_eventRun (hevent ▸ he)).keeps
  · exact keeps_baseRun

theorem keeps_speStopInfoRead : CtxKeeps l spe (speStopInfoRead spe) := by
  refine keeps_eventPrivate.bind fun event _ => ?_
  split
  · exact keeps_stopInfoRead.keeps.bind fun _ _ => .ret trivial
  · exact keeps_setErrno.bind fun _ _ => .ret trivial

/-! ## All calls -/

/-- **Step**: a call keeps the invariant. -/
theorem keeps_op {op : Op} : CtxKeeps l spe (op.code spe) := by
  cases op with
  | programLoad => exact keeps_programLoad.bind fun _ _ => .ret trivial
  | contextRun => exact keeps_contextRun.bind fun _ _ => .ret trivial
  | stopInfoRead => exact keeps_speStopInfoRead.bind fun _ _ => .ret trivial
  | _ => exact keepsRules.op trivial

/-- **Run**: so do calls one after the other. -/
theorem keeps_ops {calls : List Op} : CtxKeeps l spe (ops spe calls) := by
  induction calls with
  | nil => exact .ret trivial
  | cons op rest ih => exact keeps_op.bind fun _ _ => ih

end LibSpe2.Ctx
