import LibSpe2.Data.Words
import LibSpe2.SpeBase.RunResult
import Mathlib.Data.List.Chain

/-!
# Where a run resumes (`spebase/run.c`)

The npc of a run is a local variable that the kernel, the library callbacks and the branches of
`do_run` update; between calls it lives in `*entry`, or in the context if isolation is emulated.

* `Turn`, `turns` — the `spu_run` calls of an exchange, each with the library callback after it.
* `Deed`, `Follows` — loads and calls on a context, one after the other; the last call may still be at
  work.
* `Resumed`, `Lawful` — where each `spu_run` of such a history starts.

Main result:
* `run_resumes` — every history is lawful.
-/

namespace LibSpe2.Run

open Conc

variable {spe : Context} {runflags : UInt32} {f : Frame} {run : SpuRun} {tr : List (Sigma Ans)}

/-! ## The turns of an exchange -/

/-- One `spu_run`: the npc it is given, what it comes back with, and the result of the library
callback that follows, if one does. -/
structure Turn where
  given : UInt32
  run : SpuRun
  callback : Option Int

/-- The result of the first library callback before the next `spu_run`. -/
def callbackOf : List (Sigma Ans) → Option Int
  | [] => none
  | ⟨.spuRun _, _⟩ :: _ => none
  | ⟨.handleLibraryCallback _ _, rc⟩ :: _ => some rc
  | _ :: tr => callbackOf tr

def turns : List (Sigma Ans) → List Turn
  | [] => []
  | ⟨.spuRun npc, run⟩ :: tr => ⟨npc, run, callbackOf tr⟩ :: turns tr
  | _ :: tr => turns tr

/-- Where the SPE goes on: at the next instruction if a library call has been served, and otherwise
where it has stopped. -/
def Turn.next (t : Turn) : UInt32 := if t.callback = some 0 then t.run.npc + 4 else t.run.npc

/-- A command that is neither `spu_run` nor a library callback. -/
def Cmd.Aside : Cmd → Prop
  | .spuRun _ => False
  | .handleLibraryCallback _ _ => False
  | _ => True

theorem turns_cons_aside {c : Cmd} {r : Ans c} (hc : c.Aside) (tr : List (Sigma Ans)) :
    turns (⟨c, r⟩ :: tr) = turns tr ∧ callbackOf (⟨c, r⟩ :: tr) = callbackOf tr := by
  cases c with
  | spuRun | handleLibraryCallback => exact hc.elim
  | _ => exact ⟨rfl, rfl⟩

theorem turns_aside (h : ∀ e ∈ tr, e.1.Aside) : turns tr = [] ∧ callbackOf tr = none := by
  induction tr with
  | nil => exact ⟨rfl, rfl⟩
  | cons e tr ih =>
    obtain ⟨he, htr⟩ := List.forall_mem_cons.mp h
    obtain ⟨hturns, hcallback⟩ := turns_cons_aside (r := e.2) he tr
    rw [hturns, hcallback]
    exact ih htr

/-- A callback belongs to the last turn before it. -/
theorem turns_append (tr₁ : List (Sigma Ans)) {tr₂ : List (Sigma Ans)} (h : callbackOf tr₂ = none) :
    turns (tr₁ ++ tr₂) = turns tr₁ ++ turns tr₂ ∧ callbackOf (tr₁ ++ tr₂) = callbackOf tr₁ := by
  induction tr₁ with
  | nil => exact ⟨rfl, h⟩
  | cons e tr₁ ih =>
    obtain ⟨c, r⟩ := e
    cases c with
    | spuRun npc =>
      show ⟨npc, r, callbackOf (tr₁ ++ tr₂)⟩ :: turns (tr₁ ++ tr₂) = _ ∧ _
      rw [ih.1, ih.2]
      exact ⟨rfl, rfl⟩
    | handleLibraryCallback => exact ⟨ih.1, rfl⟩
    | _ => exact ih

/-! ## One round -/

/-- What `spu_run` leaves in a frame. -/
structure Frame.Kept (f f' : Frame) : Prop where
  entry : f'.entry = f.entry
  emulatedEntry : f'.emulatedEntry = f.emulatedEntry

/-- How a round goes on from the frame `f` that `spu_run` has left: from the next instruction after a
library call, from the same place otherwise, and the caller's variables stay. -/
def Goes (f : Frame) (callback : Option Int) : Frame ⊕ Result → Prop
  | .inl f' => f'.tmpEntry = (if callback = some 0 then f.tmpEntry + 4 else f.tmpEntry)
  | .inr res => f.Kept res.frame ∧ callback ≠ some 0

theorem failWith_goes {e : Int} {f' : Frame} {x : Frame ⊕ Result} {callback : Option Int}
    (h : (failWith f' e).Ends tr x) (hf : f.Kept f') (hc : callback ≠ some 0) :
    callbackOf tr = none ∧ Goes f callback x := by
  obtain ⟨u, tr', rfl, h'⟩ := h.perform
  obtain ⟨rfl, rfl⟩ := Prog.ends_ret.mp h'
  exact ⟨rfl, hf, hc⟩

theorem stopped_goes {x : Frame ⊕ Result} (h : (stopped spe runflags run f).Ends tr x) :
    Goes f (callbackOf tr) x := by
  have hfail {e : Int} {f' : Frame} (h : (failWith f' e).Ends tr x) (hf : f.Kept f') :
      Goes f (callbackOf tr) x := by
    have hnone : (none : Option Int) ≠ some 0 := nofun
    obtain ⟨htr, hgoes⟩ := failWith_goes h hf hnone
    rw [htr]
    exact hgoes
  unfold stopped at h
  dsimp only at h
  split at h
  · obtain ⟨rc, tr', rfl, h'⟩ := h.perform
    show Goes f (some rc) x
    split at h'
    · next hrc =>
      have hne : some rc ≠ some 0 := fun heq => hrc (Option.some.inj heq)
      exact (failWith_goes (f := f) h' ⟨rfl, rfl⟩ hne).2
    · next hrc =>
      obtain ⟨rfl, rfl⟩ := Prog.ends_ret.mp h'
      exact (if_pos (congrArg some (not_not.mp hrc))).symm
  split at h
  · split at h
    · obtain ⟨tr₁, tr₂, n, rfl, h₁, h₂⟩ := Prog.ends_bind.mp h
      have hnone : callbackOf tr₁ = none := by
        unfold issueIsolatedExit at h₁
        split at h₁
        · obtain ⟨rfl, rfl⟩ := Prog.ends_ret.mp h₁
          rfl
        · obtain ⟨u, tr', rfl, h'⟩ := h₁.perform
          obtain ⟨rfl, rfl⟩ := Prog.ends_ret.mp h'
          rfl
      split at h₂
      all_goals
        obtain ⟨rfl, rfl⟩ := Prog.ends_ret.mp h₂
        rw [List.append_nil, hnone]
      · exact rfl
      · exact ⟨⟨rfl, rfl⟩, nofun⟩
    · obtain ⟨rfl, rfl⟩ := Prog.ends_ret.mp h
      exact ⟨⟨rfl, rfl⟩, nofun⟩
  split at h
  · split at h
    · obtain ⟨u, tr', rfl, h'⟩ := h.perform
      obtain ⟨rfl, rfl⟩ := Prog.ends_ret.mp h'
      rfl
    · exact hfail h ⟨rfl, rfl⟩
  split at h
  all_goals
    obtain ⟨rfl, rfl⟩ := Prog.ends_ret.mp h
    exact ⟨⟨rfl, rfl⟩, nofun⟩

/-- What a round may still ask for after `spu_run` has come back with `run`. -/
def AfterRun (spe : Context) (runflags : UInt32) (run : SpuRun) : Cmd → Prop
  | .handleLibraryCallback _ _ => kind spe runflags run = .libraryCall
  | .activeNpc _ | .activeStatus _ | .programLoadComplete | .storeRunCntl _ | .setErrno _ => True
  | _ => False

theorem turns_afterRun (h : ∀ e ∈ tr, AfterRun spe runflags run e.1) :
    turns tr = [] ∧ ((callbackOf tr).isSome → kind spe runflags run = .libraryCall) := by
  induction tr with
  | nil => exact ⟨rfl, nofun⟩
  | cons e tr ih =>
    obtain ⟨he, htr⟩ := List.forall_mem_cons.mp h
    obtain ⟨c, r⟩ := e
    cases c with
    | handleLibraryCallback => exact ⟨(ih htr).1, fun _ => he⟩
    | activeNpc | activeStatus | programLoadComplete | storeRunCntl | setErrno => exact ih htr
    | _ => exact he.elim

theorem failWith_afterRun (f : Frame) (e : Int) : (failWith f e).All (AfterRun spe runflags run) :=
  .bind (.perform trivial) fun _ => trivial

theorem stopped_afterRun (hs : stops spe run = true) (f : Frame) :
    (stopped spe runflags run f).All (AfterRun spe runflags run) := by
  unfold stopped
  dsimp only
  split
  · next hlib =>
    have hk : kind spe runflags run = .libraryCall := by
      rw [kind, hs, if_neg (by decide), if_pos hlib]
    apply Prog.All.bind
    · exact .perform hk
    · intro rc
      split
      · exact failWith_afterRun _ _
      · trivial
  split
  · split
    · apply Prog.All.bind
      · unfold issueIsolatedExit
        split
        · trivial
        · exact .bind (.perform trivial) fun _ => trivial
      · intro rc
        split <;> trivial
    · trivial
  split
  · split
    · exact .bind (.perform trivial) fun _ => trivial
    · exact failWith_afterRun _ _
  split <;> trivial

theorem doRun_eq (f : Frame) : doRun spe runflags f = (perform (.activeNpc f.tmpEntry)).bind fun _ =>
    (perform (.spuRun f.tmpEntry)).bind fun run => afterRun spe runflags run f := rfl

theorem afterRun_all (run : SpuRun) (f : Frame) :
    (afterRun spe runflags run f).All (AfterRun spe runflags run) := by
  apply Prog.All.bind (.perform trivial)
  intro u
  apply Prog.All.bind (.perform trivial)
  intro u
  dsimp only
  split
  · split
    · trivial
    · exact failWith_afterRun _ _
  next hrc =>
  split
  · exact failWith_afterRun _ _
  next hinv =>
  split
  · exact failWith_afterRun _ _
  next hev =>
  split
  · next hst => exact stopped_afterRun (decide_eq_true ⟨hrc, by simpa using hinv, hev, hst⟩) _
  repeat' split
  all_goals exact failWith_afterRun _ _

/-- What is known of the turns of a round that may not have ended. -/
theorem doRun_starts (h : (doRun spe runflags f).Starts tr) :
    callbackOf tr = none ∧ (turns tr = [] ∨ ∃ t, turns tr = [t] ∧ t.given = f.tmpEntry ∧
      (t.callback.isSome → kind spe runflags t.run = .libraryCall)) := by
  rw [doRun_eq] at h
  obtain rfl | ⟨u, tr₁, rfl, h₁⟩ := h.perform
  · exact ⟨rfl, .inl rfl⟩
  obtain rfl | ⟨run, tr₂, rfl, h₂⟩ := h₁.perform
  · exact ⟨rfl, .inl rfl⟩
  obtain ⟨hturns, hcallback⟩ := turns_afterRun ((afterRun_all run f).starts h₂)
  exact ⟨rfl, .inr ⟨⟨f.tmpEntry, run, callbackOf tr₂⟩, congrArg _ hturns, rfl, hcallback⟩⟩

/-- What a round that has ended leaves. -/
theorem doRun_goes {x : Frame ⊕ Result} (h : (doRun spe runflags f).Ends tr x) :
    ∃ t, turns tr = [t] ∧ Goes (f.ran spe t.run) t.callback x := by
  obtain ⟨-, hturns⟩ := doRun_starts h.starts
  obtain ⟨u, tr₁, rfl, h₁⟩ := h.perform
  obtain ⟨run, tr₂, rfl, h₂⟩ := h₁.perform
  obtain hnil | ⟨t, ht, -⟩ := hturns
  · exact absurd hnil nofun
  refine ⟨t, ht, ?_⟩
  obtain ⟨rfl, -⟩ := List.cons.inj ht
  obtain ⟨u, tr₃, rfl, h₃⟩ := h₂.perform
  obtain ⟨u, tr₄, rfl, h₄⟩ := h₃.perform
  show Goes (f.ran spe run) (callbackOf tr₄) x
  have hfail {e : Int} {f' : Frame} (h : (failWith f' e).Ends tr₄ x) (hf : (f.ran spe run).Kept f') :
      Goes (f.ran spe run) (callbackOf tr₄) x := by
    have hnone : (none : Option Int) ≠ some 0 := nofun
    obtain ⟨htr, hgoes⟩ := failWith_goes h hf hnone
    rw [htr]
    exact hgoes
  dsimp only at h₄
  split at h₄
  · split at h₄
    · obtain ⟨rfl, rfl⟩ := Prog.ends_ret.mp h₄
      exact ⟨⟨rfl, rfl⟩, nofun⟩
    · exact hfail h₄ ⟨rfl, rfl⟩
  split at h₄
  · exact hfail h₄ ⟨rfl, rfl⟩
  split at h₄
  · exact hfail h₄ ⟨rfl, rfl⟩
  split at h₄
  · exact stopped_goes h₄
  repeat' split at h₄
  all_goals exact hfail h₄ ⟨rfl, rfl⟩

/-! ## One call -/

/-- The turns of a call: the first starts at `first`, and each of the others where the one before it
goes on. -/
structure Steps (spe : Context) (runflags first : UInt32) (ts : List Turn) : Prop where
  first : ∀ t ∈ ts.head?, t.given = first
  again : ts.IsChain fun t t' => t'.given = t.next
  libraryCall : ∀ t ∈ ts, t.callback.isSome → kind spe runflags t.run = .libraryCall

/-- Where the turn after `ts` starts. -/
def nextNpc (first : UInt32) (ts : List Turn) : UInt32 := (ts.getLast?.map Turn.next).getD first

theorem Steps.nil {first : UInt32} : Steps spe runflags first [] := ⟨nofun, .nil, nofun⟩

theorem Steps.concat {first : UInt32} {ts : List Turn} {t : Turn} (h : Steps spe runflags first ts)
    (hgiven : t.given = nextNpc first ts)
    (hcall : t.callback.isSome → kind spe runflags t.run = .libraryCall) :
    Steps spe runflags first (ts ++ [t]) where
  first := by
    intro t' ht'
    cases ts with
    | nil =>
      obtain rfl := Option.some.inj ht'
      exact hgiven
    | cons t₀ ts => exact h.first t' ht'
  again := by
    rw [List.isChain_append]
    refine ⟨h.again, .singleton t, ?_⟩
    intro t₁ ht₁ t₂ ht₂
    obtain rfl := Option.some.inj ht₂
    rw [hgiven, nextNpc, Option.mem_def.mp ht₁]
    rfl
  libraryCall := by
    rw [List.forall_mem_append]
    exact ⟨h.libraryCall, by simpa using hcall⟩

/-- What the rounds so far have done. -/
structure RoundsDone (spe : Context) (runflags first : UInt32) (f : Frame) (tr : List (Sigma Ans)) :
    Prop where
  quiet : callbackOf tr = none
  steps : Steps spe runflags first (turns tr)
  next : f.tmpEntry = nextNpc first (turns tr)

theorem RoundsDone.starts {first : UInt32} {tr₀ tr₁ : List (Sigma Ans)}
    (h : RoundsDone spe runflags first f tr₀) (hstarts : (doRun spe runflags f).Starts tr₁) :
    callbackOf (tr₀ ++ tr₁) = none ∧ turns (tr₀ ++ tr₁) = turns tr₀ ++ turns tr₁ ∧
      Steps spe runflags first (turns tr₀ ++ turns tr₁) := by
  obtain ⟨hnone, hturns⟩ := doRun_starts hstarts
  obtain ⟨happend, hquiet⟩ := turns_append tr₀ hnone
  refine ⟨hquiet.trans h.quiet, happend, ?_⟩
  obtain hnil | ⟨t, ht, hgiven, hcall⟩ := hturns
  · rw [hnil, List.append_nil]
    exact h.steps
  · rw [ht]
    exact h.steps.concat (hgiven.trans h.next) hcall

theorem RoundsDone.again {first : UInt32} {f f' : Frame} {tr₀ tr₁ : List (Sigma Ans)}
    (h : RoundsDone spe runflags first f tr₀) (hends : (doRun spe runflags f).Ends tr₁ (.inl f')) :
    RoundsDone spe runflags first f' (tr₀ ++ tr₁) := by
  obtain ⟨t, ht, hgoes⟩ := doRun_goes hends
  obtain ⟨hquiet, happend, hsteps⟩ := h.starts hends.starts
  rw [← happend] at hsteps
  refine ⟨hquiet, hsteps, ?_⟩
  rw [happend, ht, nextNpc, List.getLast?_append]
  exact hgoes

/-- The rounds of a call that may not have returned. -/
theorem rounds_start (h : (Prog.repeats (doRun spe runflags) f).Starts tr) :
    callbackOf tr = none ∧ Steps spe runflags f.tmpEntry (turns tr) := by
  have hdone : RoundsDone spe runflags f.tmpEntry f [] := ⟨rfl, .nil, rfl⟩
  obtain ⟨f', tr₁, tr₂, htr, hdone', hlast⟩ := h.repeats_rule hdone fun _ _ _ _ h h₁ => h.again h₁
  have hstarts : (doRun spe runflags f').Starts tr₂ := by
    obtain h | ⟨b, h⟩ := hlast
    · exact h
    · exact h.starts
  obtain ⟨hquiet, happend, hsteps⟩ := hdone'.starts hstarts
  obtain rfl : tr = tr₁ ++ tr₂ := htr
  rw [happend]
  exact ⟨hquiet, hsteps⟩

/-- The rounds of a call that has returned: what they leave in `*entry` and in the context. -/
theorem rounds_end {res : Result} (h : (Prog.repeats (doRun spe runflags) f).Ends tr res) :
    ∃ t, (turns tr).getLast? = some t ∧
      res.frame.entry = (if has spe.flags speIsolateEmulate then 0 else t.run.npc) ∧
      (has spe.flags speIsolateEmulate → res.frame.emulatedEntry = t.run.npc) := by
  have hdone : RoundsDone spe runflags f.tmpEntry f [] := ⟨rfl, .nil, rfl⟩
  refine Prog.Ends.repeats_rule (Q := fun tr res => ∃ t, (turns tr).getLast? = some t ∧
      res.frame.entry = (if has spe.flags speIsolateEmulate then 0 else t.run.npc) ∧
      (has spe.flags speIsolateEmulate → res.frame.emulatedEntry = t.run.npc))
    h hdone (fun _ _ _ _ h h₁ => h.again h₁) ?_
  intro f' tr₀ tr₁ res hdone' h₁
  obtain ⟨t, ht, hkept, -⟩ := doRun_goes h₁
  obtain ⟨-, happend, -⟩ := hdone'.starts h₁.starts
  refine ⟨t, ?_, hkept.entry, ?_⟩
  · rw [happend, ht, List.getLast?_append]
    rfl
  · intro hemu
    rw [hkept.emulatedEntry]
    exact if_pos hemu

/-- `base_addr + sizeof(struct spe_reg_state)`. -/
def trampoline : UInt32 := 0x40000 - 128 + 80

/-- Where the first `spu_run` of a call starts, if an emulated loader goes on at `resume`. -/
def firstNpc (spe : Context) (resume entry : UInt32) : UInt32 :=
  if has spe.flags speIsolateEmulate then resume
  else
    let npc := if entry = speDefaultEntry then spe.entry else entry
    if npc = spe.entry ∧ has spe.flags speIsolate = false then trampoline else npc

theorem startRegs_aside {tmpEntry : UInt32} {argp envp : UInt64} :
    (startRegs spe runflags tmpEntry argp envp).All Cmd.Aside := by
  unfold startRegs
  dsimp only
  split
  · exact .bind (.perform trivial) fun _ => trivial
  · trivial

theorem setupArguments_aside {tmpEntry : UInt32} {argp envp : UInt64} :
    (setupArguments spe runflags tmpEntry argp envp).All Cmd.Aside := by
  unfold setupArguments
  split
  · exact startRegs_aside.bind fun _ => .bind (.perform trivial) fun _ => trivial
  · trivial

theorem has_eq_false {flags bit : UInt32} : has flags bit = false ↔ flags &&& bit = 0 := by
  simp [has]

/-- The test of `setupArguments`. -/
theorem plain_iff {flags : UInt32} : flags &&& (speIsolate ||| speIsolateEmulate) = 0 ↔
    has flags speIsolate = false ∧ has flags speIsolateEmulate = false := by
  rw [Words.and_or_eq_zero, has_eq_false, has_eq_false]

/-- The address that a call starts from. -/
theorem setupArguments_start {tmpEntry : UInt32} {argp envp : UInt64} {x : Int × UInt32}
    (h : (setupArguments spe runflags tmpEntry argp envp).Ends tr x) :
    x.2 = if tmpEntry = spe.entry ∧ has spe.flags speIsolate = false ∧
      has spe.flags speIsolateEmulate = false then trampoline else tmpEntry := by
  unfold setupArguments at h
  simp only [plain_iff] at h
  split at h
  · next hplain =>
    obtain ⟨tr₁, tr₂, regs, rfl, h₁, h₂⟩ := Prog.ends_bind.mp h
    obtain ⟨u, tr₃, rfl, h₃⟩ := h₂.perform
    obtain ⟨rfl, rfl⟩ := Prog.ends_ret.mp h₃
    exact (if_pos hplain).symm
  · next hplain =>
    obtain ⟨rfl, rfl⟩ := Prog.ends_ret.mp h
    exact (if_neg hplain).symm

theorem firstNpc_eq {entry emulatedEntry resume : UInt32}
    (hem : has spe.flags speIsolateEmulate → emulatedEntry = resume) :
    firstNpc spe resume entry =
      if startEntry spe entry emulatedEntry = spe.entry ∧ has spe.flags speIsolate = false ∧
        has spe.flags speIsolateEmulate = false then trampoline
      else startEntry spe entry emulatedEntry := by
  unfold firstNpc startEntry
  by_cases hemu : has spe.flags speIsolateEmulate
  · rw [if_pos hemu, if_pos hemu, if_neg (by simp [hemu]), hem hemu]
  · rw [if_neg hemu, if_neg hemu]
    simp only [Bool.not_eq_true] at hemu
    simp only [hemu, and_true]

/-! ## Histories -/

/-- What is done with a context: a program is loaded, a call is made and returns, or a call is made and
has not returned yet. -/
inductive Deed where
  | load (entry : UInt32)
  | call (args : Args) (tr : List (Sigma Ans)) (res : Result)
  | pending (args : Args) (tr : List (Sigma Ans))

/-- The call with the members that a context has at the time. -/
def Args.code (args : Args) (spe : Context) (emulatedEntry : UInt32) : Code Result :=
  contextRun spe args.entry emulatedEntry args.runflags args.argp args.envp

/-- The deeds can follow each other on the context. -/
def Follows : (spe : Context) → (emulatedEntry : UInt32) → List Deed → Prop
  | _, _, [] => True
  | spe, _, .load entry :: ds => Follows { spe with entry := entry } entry ds
  | spe, emulatedEntry, .call args tr res :: ds =>
    (args.code spe emulatedEntry).Ends tr res ∧ Follows spe res.frame.emulatedEntry ds
  | spe, emulatedEntry, .pending args tr :: ds => (args.code spe emulatedEntry).Starts tr ∧ ds = []

/-- A call starts where it should, goes on where it should, and if it has returned, `*entry` is where it
has stopped, or 0 if isolation is emulated. -/
structure Resumed (spe : Context) (resume : UInt32) (args : Args) (ts : List Turn) (res : Option Result) :
    Prop where
  steps : Steps spe args.runflags (firstNpc spe resume args.entry) ts
  returned : ∀ r ∈ res, ∃ t, ts.getLast? = some t ∧
    r.frame.entry = if has spe.flags speIsolateEmulate then 0 else t.run.npc

/-- Where an emulated loader goes on after a call. -/
def lastNpc (resume : UInt32) (ts : List Turn) : UInt32 := (ts.getLast?.map fun t => t.run.npc).getD resume

/-- Every call of the history is resumed: an emulated loader goes on at its entry after a load, and after a
call where that has stopped. -/
def Lawful : (spe : Context) → (resume : UInt32) → List Deed → Prop
  | _, _, [] => True
  | spe, _, .load entry :: ds => Lawful { spe with entry := entry } entry ds
  | spe, resume, .call args tr res :: ds =>
    Resumed spe resume args (turns tr) (some res) ∧ Lawful spe (lastNpc resume (turns tr)) ds
  | spe, resume, .pending args tr :: ds => Resumed spe resume args (turns tr) none ∧ Lawful spe resume ds

/-- A call that may not have returned. -/
theorem contextRun_starts {args : Args} {emulatedEntry resume : UInt32}
    (hem : has spe.flags speIsolateEmulate → emulatedEntry = resume)
    (h : (args.code spe emulatedEntry).Starts tr) :
    Steps spe args.runflags (firstNpc spe resume args.entry) (turns tr) := by
  obtain hsetup | ⟨tr₀, tr₁, ⟨rc, start⟩, rfl, h₀, h₁⟩ := Prog.starts_bind h
  · rw [(turns_aside (setupArguments_aside.starts hsetup)).1]
    exact .nil
  obtain ⟨-, hrc⟩ := setupArguments_ends h₀
  obtain rfl : rc = 0 := hrc
  have hstart : start = firstNpc spe resume args.entry := by
    rw [firstNpc_eq hem]
    exact setupArguments_start h₀
  have haside := setupArguments_aside.ends h₀
  obtain rfl | ⟨u, tr₂, rfl, h₂⟩ := (show Prog.Starts (perform (.enterActive spe.fdSpeDir) >>= _) tr₁
    from h₁).perform
  · rw [List.append_nil, (turns_aside haside).1]
    exact .nil
  have hrest {tr₂ : List (Sigma Ans)} (hquiet : callbackOf tr₂ = none) :
      turns (tr₀ ++ ⟨.enterActive spe.fdSpeDir, u⟩ :: tr₂) = turns tr₂ := by
    rw [(turns_append tr₀ (show callbackOf (⟨.enterActive spe.fdSpeDir, u⟩ :: tr₂) = none from hquiet)).1,
      (turns_aside haside).1]
    rfl
  obtain hrounds | ⟨tr₃, tr₄, res, rfl, h₃, h₄⟩ := Prog.starts_bind h₂
  · obtain ⟨hquiet, hsteps⟩ := rounds_start hrounds
    rw [hrest hquiet, ← hstart]
    exact hsteps
  · obtain ⟨hquiet, hsteps⟩ := rounds_start h₃.starts
    have hend : ∀ e ∈ tr₄, e.1.Aside := by
      refine Prog.All.starts ?_ h₄
      exact .bind (.perform trivial) fun _ => .bind (.perform trivial) fun _ => trivial
    obtain ⟨hnil, hnone⟩ := turns_aside hend
    obtain ⟨happend, hquiet'⟩ := turns_append tr₃ hnone
    rw [hrest (hquiet'.trans hquiet), happend, hnil, List.append_nil, ← hstart]
    exact hsteps

/-- A call that has returned. -/
theorem contextRun_returns {args : Args} {emulatedEntry : UInt32} {res : Result}
    (h : (args.code spe emulatedEntry).Ends tr res) : ∃ t, (turns tr).getLast? = some t ∧
      res.frame.entry = (if has spe.flags speIsolateEmulate then 0 else t.run.npc) ∧
      (has spe.flags speIsolateEmulate → res.frame.emulatedEntry = t.run.npc) := by
  obtain ⟨tr₀, tr₁, ⟨rc, start⟩, rfl, h₀, h₁⟩ := Prog.ends_bind.mp h
  obtain ⟨-, hrc⟩ := setupArguments_ends h₀
  obtain rfl : rc = 0 := hrc
  obtain ⟨u, tr₂, rfl, h₂⟩ := (show Prog.Ends (perform (.enterActive spe.fdSpeDir) >>= _) tr₁ res
    from h₁).perform
  obtain ⟨tr₃, tr₄, res', rfl, h₃, h₄⟩ := Prog.ends_bind.mp h₂
  obtain ⟨u', tr₅, rfl, h₅⟩ := h₄.perform
  obtain ⟨u'', tr₆, rfl, h₆⟩ := h₅.perform
  obtain ⟨rfl, rfl⟩ := Prog.ends_ret.mp h₆
  obtain ⟨t, ht, hleft⟩ := rounds_end h₃
  refine ⟨t, ?_, hleft⟩
  obtain ⟨hquiet, -⟩ := rounds_start h₃.starts
  obtain ⟨happend, hquiet'⟩ := turns_append tr₃
    (show callbackOf [⟨.freespeinfo, u'⟩, ⟨.cleanupspeinfo, u''⟩] = none from rfl)
  have hcall : callbackOf (⟨.enterActive spe.fdSpeDir, u⟩ ::
      (tr₃ ++ [⟨.freespeinfo, u'⟩, ⟨.cleanupspeinfo, u''⟩])) = none := hquiet'.trans hquiet
  rw [(turns_append tr₀ hcall).1, List.getLast?_append]
  show ((turns (tr₃ ++ _)).getLast?).or _ = _
  rw [happend, List.getLast?_append, ht]
  rfl

theorem follows_lawful {emulatedEntry resume : UInt32} {ds : List Deed}
    (hem : has spe.flags speIsolateEmulate → emulatedEntry = resume) (h : Follows spe emulatedEntry ds) :
    Lawful spe resume ds := by
  induction ds generalizing spe emulatedEntry resume with
  | nil => trivial
  | cons d ds ih =>
    cases d with
    | load entry => exact ih (fun _ => rfl) h
    | call args tr res =>
      obtain ⟨t, ht, hentry, hemulated⟩ := contextRun_returns h.1
      refine ⟨⟨contextRun_starts hem h.1.starts, ?_⟩, ih ?_ h.2⟩
      · intro r hr
        obtain rfl := Option.some.inj hr
        exact ⟨t, ht, hentry⟩
      · intro hemu
        rw [hemulated hemu, lastNpc, ht]
        rfl
    | pending args tr =>
      obtain ⟨hstarts, rfl⟩ := h
      exact ⟨⟨contextRun_starts hem hstarts, nofun⟩, trivial⟩

/-- **Resuming**: in every history of loads and calls on a context, every `spu_run` starts where the law
says, and so does the caller's variable on return. -/
theorem run_resumes {emulatedEntry : UInt32} {ds : List Deed} (h : Follows spe emulatedEntry ds) :
    Lawful spe emulatedEntry ds := follows_lawful (fun _ => rfl) h

/-- A context with an emulated loader. -/
def emulated : Context := ⟨speIsolateEmulate, 0, 3, 0, none, 0⟩

/-- The loader is loaded at `0x80` and stops at `0x100`, from where the second call goes on although its
caller asks for another place. -/
theorem run_resumes_emulated :
    ∃ res, Lawful emulated 0 [.load 0x80, .call ⟨0x40, 0, 0, 0⟩ (oneRun emulated 0x80 userStop) res,
      .pending ⟨0x40, 0, 0, 0⟩ [⟨.enterActive 3, ()⟩, ⟨.activeNpc 0x100, ()⟩, ⟨.spuRun 0x100, userStop⟩]] := by
  refine ⟨⟨0x1234, ((Frame.mk 0x80 0x40 0x80 .untouched).ran emulated userStop).report
    (.speSignalCode 0x1234)⟩, run_resumes ⟨?_, ?_, rfl⟩⟩
  · exact oneRun_ends (by decide) (by decide) (.cmd (.cmd (.cmd (.cmd .ret))))
  · exact .cmd (.inside (.cmd (.cmd .nil)))

end LibSpe2.Run
