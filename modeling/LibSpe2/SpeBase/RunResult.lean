import LibSpe2.SpeBase.Run

/-!
# How a run is reported

`_base_spe_context_run` classifies the last `spu_run` result of the call in its stop info and its
return value. `kind` names the branches of a round, `doRun_round` says what each of them does, and
the loop rule turns this into a statement about every sequence of answers.

An exit recorded in one round survives the following ones, which is how a stop of an isolated SPE
outside isolated mode is meant to be reported; `Misreported` is what the code overlooks there.

Main results:
* `runResult_classified` — the report is right exactly when the call is not `Misreported`.
* `runResult_unreported` — an isolated context that stops before any exit is reported as a success
  with nothing in the stop info.
-/

namespace LibSpe2.Run

open Conc

variable {spe : Context} {runflags : UInt32} {f : Frame} {run : SpuRun}

/-! ## The kinds of a stop -/

/-- The branches for a stop-and-signal; `other` is everything that is none. -/
inductive Kind where
  | libraryCall | normalEnd | isolation | leavesIsolation | signal | other
  deriving DecidableEq

/-- The result is handled as a stop-and-signal. -/
def stops (spe : Context) (run : SpuRun) : Bool :=
  run.rc ≠ 0xffffffff ∧ has run.rc speSpuInvalidInstr = false ∧
    ¬ (has spe.flags speEventsEnable ∧ run.status ≠ 0) ∧ has run.rc speSpuStoppedByStop

/-- The branch that handles a result. -/
def kind (spe : Context) (runflags : UInt32) (run : SpuRun) : Kind :=
  if stops spe run = false then .other
  else if stopCode run.rc &&& 0xff00 = speProgramLibraryCall ∧ has runflags speNoCallbacks = false then
    .libraryCall
  else if stopCode run.rc &&& 0xff00 = speProgramNormalEnd then .normalEnd
  else if stopCode run.rc &&& 0xfff0 = speProgramIsolatedStop then .isolation
  else if has spe.flags speIsolate ∧ run.rc &&& 0x80 = 0 then .leavesIsolation
  else .signal

/-- Stop reasons that come with `-1`. -/
def StopReason.isFailure : StopReason → Bool
  | .exit | .stopAndSignal => false
  | _ => true

/-- What has been recorded about the stop. -/
def StopInfo.recorded (i : StopInfo) : Option StopReason × Option StopResult := (i.stopReason, i.result)

/-- What a round with answer `run` does. -/
inductive Round (spe : Context) (runflags : UInt32) (f : Frame) (run : SpuRun) :
    Frame ⊕ Result → Prop
  | again {f' : Frame} (hk : kind spe runflags run ≠ .normalEnd)
      (h : f'.stopinfo.recorded = f.stopinfo.recorded) : Round spe runflags f run (.inl f')
  | exitIsolated {f' : Frame} (hk : kind spe runflags run = .normalEnd)
      (h : f'.stopinfo.recorded = (some .exit, some (.speExitCode (stopCode run.rc &&& 0xff)))) :
      Round spe runflags f run (.inl f')
  | fails {f' : Frame} {r : StopResult} (hk : kind spe runflags run ≠ .normalEnd)
      (hl : kind spe runflags run ≠ .leavesIsolation) (hr : r.reason.isFailure)
      (h : f'.stopinfo.recorded = (some r.reason, some r)) : Round spe runflags f run (.inr ⟨-1, f'⟩)
  | exit {f' : Frame} {n : Int} (hk : kind spe runflags run = .normalEnd)
      (hn : n = if has spe.flags speIsolate ∧ spe.cntlMmapBase = none then -1 else 0)
      (h : f'.stopinfo.recorded = (some .exit, some (.speExitCode (stopCode run.rc &&& 0xff)))) :
      Round spe runflags f run (.inr ⟨n, f'⟩)
  | leaves {f' : Frame} (hk : kind spe runflags run = .leavesIsolation)
      (h : f'.stopinfo.recorded = f.stopinfo.recorded) : Round spe runflags f run (.inr ⟨0, f'⟩)
  | signals {f' : Frame} (hk : kind spe runflags run = .signal)
      (h : f'.stopinfo.recorded =
        (some .stopAndSignal, some (.speSignalCode (stopCode run.rc)))) :
      Round spe runflags f run (.inr ⟨(stopCode run.rc).toNat, f'⟩)

/-! ## One round -/

/-- The `spu_run` answers of a trace. -/
def runsOf (tr : List (Sigma Ans)) : List SpuRun :=
  tr.filterMap fun
    | ⟨.spuRun _, run⟩ => some run
    | _ => none

theorem runsOf_append (tr₁ tr₂ : List (Sigma Ans)) :
    runsOf (tr₁ ++ tr₂) = runsOf tr₁ ++ runsOf tr₂ := List.filterMap_append ..

theorem failWith_ends {e : Int} {tr : List (Sigma Ans)} {x : Frame ⊕ Result}
    (h : (failWith f e).Ends tr x) : runsOf tr = [] ∧ x = .inr ⟨-1, f⟩ := by
  obtain ⟨_, tr', rfl, h'⟩ := h.perform
  obtain ⟨rfl, rfl⟩ := Prog.ends_ret.mp h'
  exact ⟨rfl, rfl⟩

/-- A failure is a round that reports `r`. -/
theorem failWith_round {e : Int} {r : StopResult} {f' : Frame} {tr : List (Sigma Ans)}
    {x : Frame ⊕ Result} (h : (failWith f' e).Ends tr x)
    (hk : kind spe runflags run ≠ .normalEnd ∧ kind spe runflags run ≠ .leavesIsolation)
    (hr : r.reason.isFailure) (hf : f'.stopinfo.recorded = (some r.reason, some r)) :
    runsOf tr = [] ∧ Round spe runflags f run x := by
  obtain ⟨htr, rfl⟩ := failWith_ends h
  exact ⟨htr, .fails hk.1 hk.2 hr hf⟩

theorem issueIsolatedExit_ends {tr : List (Sigma Ans)} {n : Int}
    (h : (issueIsolatedExit spe).Ends tr n) :
    runsOf tr = [] ∧ n = if spe.cntlMmapBase = none then -1 else 0 := by
  unfold issueIsolatedExit at h
  split at h
  · next hc =>
    obtain ⟨rfl, rfl⟩ := Prog.ends_ret.mp h
    simp [hc, runsOf]
  · next hc =>
    obtain ⟨_, tr', rfl, h'⟩ := h.perform
    obtain ⟨rfl, rfl⟩ := Prog.ends_ret.mp h'
    simp [hc, runsOf]

/-- What the stop-and-signal branch does. -/
theorem stopped_round (hs : stops spe run = true) {f₀ : Frame} {tr : List (Sigma Ans)}
    {x : Frame ⊕ Result} (hf : f.stopinfo.recorded = f₀.stopinfo.recorded)
    (h : (stopped spe runflags run f).Ends tr x) :
    runsOf tr = [] ∧ Round spe runflags f₀ run x := by
  unfold stopped at h
  dsimp only at h
  by_cases hlib : stopCode run.rc &&& 0xff00 = speProgramLibraryCall ∧
      has runflags speNoCallbacks = false
  · have hk : kind spe runflags run = .libraryCall := by simp [kind, hs, hlib]
    rw [if_pos hlib] at h
    obtain ⟨rc, tr', rfl, h'⟩ := h.perform
    split at h'
    · show runsOf tr' = [] ∧ _
      exact failWith_round (r := .speCallbackError rc) h' (by simp [hk]) rfl rfl
    · obtain ⟨rfl, rfl⟩ := Prog.ends_ret.mp h'
      exact ⟨rfl, .again (by simp [hk]) hf⟩
  rw [if_neg hlib] at h
  by_cases hend : stopCode run.rc &&& 0xff00 = speProgramNormalEnd
  · have hk : kind spe runflags run = .normalEnd := by
      rw [kind, hs, if_neg (by decide), if_neg hlib, if_pos hend]
    rw [if_pos hend] at h
    split at h
    · next hiso =>
      obtain ⟨tr₁, tr₂, n, rfl, h₁, h₂⟩ := Prog.ends_bind.mp h
      obtain ⟨htr, rfl⟩ := issueIsolatedExit_ends h₁
      by_cases hc : spe.cntlMmapBase = none
      · obtain ⟨rfl, rfl⟩ := Prog.ends_ret.mp (by simpa [hc] using h₂)
        exact ⟨by rw [runsOf_append, htr]; rfl, .exit hk (by simp [hiso, hc]) rfl⟩
      · obtain ⟨rfl, rfl⟩ := Prog.ends_ret.mp (by simpa [hc] using h₂)
        exact ⟨by rw [runsOf_append, htr]; rfl, .exitIsolated hk rfl⟩
    · next hiso =>
      obtain ⟨rfl, rfl⟩ := Prog.ends_ret.mp h
      exact ⟨rfl, .exit hk (by simp [hiso]) rfl⟩
  rw [if_neg hend] at h
  by_cases hstop : stopCode run.rc &&& 0xfff0 = speProgramIsolatedStop
  · have hk : kind spe runflags run = .isolation := by
      rw [kind, hs, if_neg (by decide), if_neg hlib, if_neg hend, if_pos hstop]
    rw [if_pos hstop] at h
    split at h
    · obtain ⟨_, tr', rfl, h'⟩ := h.perform
      obtain ⟨rfl, rfl⟩ := Prog.ends_ret.mp h'
      exact ⟨rfl, .again (by simp [hk]) hf⟩
    · exact failWith_round (r := .speIsolationError (stopCode run.rc &&& 0xf)) h (by simp [hk])
        rfl rfl
  rw [if_neg hstop] at h
  split at h
  · next hiso =>
    have hk : kind spe runflags run = .leavesIsolation := by
      rw [kind, hs, if_neg (by decide), if_neg hlib, if_neg hend, if_neg hstop, if_pos hiso]
    obtain ⟨rfl, rfl⟩ := Prog.ends_ret.mp h
    exact ⟨rfl, .leaves hk hf⟩
  · next hiso =>
    have hk : kind spe runflags run = .signal := by
      rw [kind, hs, if_neg (by decide), if_neg hlib, if_neg hend, if_neg hstop, if_neg hiso]
    obtain ⟨rfl, rfl⟩ := Prog.ends_ret.mp h
    exact ⟨rfl, .signals hk rfl⟩

/-- What a round does. -/
theorem doRun_round {tr : List (Sigma Ans)} {x : Frame ⊕ Result}
    (h : (doRun spe runflags f).Ends tr x) :
    ∃ run, runsOf tr = [run] ∧ Round spe runflags f run x := by
  obtain ⟨_, tr₁, rfl, h₁⟩ := h.perform
  obtain ⟨run, tr₂, rfl, h₂⟩ := h₁.perform
  obtain ⟨_, tr₃, rfl, h₃⟩ := h₂.perform
  obtain ⟨_, tr₄, rfl, h₄⟩ := h₃.perform
  suffices hr : runsOf tr₄ = [] ∧ Round spe runflags f run x from
    ⟨run, by simpa [runsOf] using hr.1, hr.2⟩
  dsimp only at h₄
  have other (hs : stops spe run = false) :
      kind spe runflags run ≠ .normalEnd ∧ kind spe runflags run ≠ .leavesIsolation := by
    simp [kind, hs]
  split at h₄
  · next hrc =>
    split at h₄
    · obtain ⟨rfl, rfl⟩ := Prog.ends_ret.mp h₄
      have hk := other (by simp [stops, hrc])
      exact ⟨rfl, .fails (r := .speRuntimeFatal run.errno) hk.1 hk.2 rfl rfl⟩
    · exact failWith_round (r := .speRuntimeFatal run.errno) h₄ (other (by simp [stops, hrc])) rfl rfl
  next hrc =>
  split at h₄
  · next hinv =>
    exact failWith_round (r := .speRuntimeError speSpuInvalidInstr) h₄
      (other (by simp [stops, hinv])) rfl rfl
  next hinv =>
  split at h₄
  · next hev =>
    exact failWith_round (r := .speRuntimeException run.status) h₄
      (other (by simp [stops, hev])) rfl rfl
  next hev =>
  split at h₄
  · next hst =>
    have hs : stops spe run = true := decide_eq_true ⟨hrc, by simpa using hinv, hev, hst⟩
    exact stopped_round (f := f.ran spe run) hs rfl h₄
  next hst =>
  have hk := other (by simp [stops, hst])
  split at h₄
  · exact failWith_round (r := .speRuntimeError speSpuHalt) h₄ hk rfl rfl
  split at h₄
  · exact failWith_round (r := .speRuntimeException run.status) h₄ hk rfl rfl
  split at h₄
  · exact failWith_round (r := .speRuntimeError speSpuInvalidChannel) h₄ hk rfl rfl
  · exact failWith_round (r := .speRuntimeFatal (-1)) h₄ hk rfl rfl

/-! ## All rounds -/

/-- The exit recorded last. -/
def lastExit (spe : Context) (runflags : UInt32) (runs : List SpuRun) : Option SpuRun :=
  (runs.filter fun run => kind spe runflags run = .normalEnd).getLast?

/-- What the stop info holds between rounds. -/
def exitReport : Option SpuRun → Option StopReason × Option StopResult
  | none => (none, none)
  | some run => (some .exit, some (.speExitCode (stopCode run.rc &&& 0xff)))

theorem lastExit_append_of_ne {runs : List SpuRun} (h : kind spe runflags run ≠ .normalEnd) :
    lastExit spe runflags (runs ++ [run]) = lastExit spe runflags runs := by
  simp [lastExit, h]

theorem lastExit_append {runs : List SpuRun} (h : kind spe runflags run = .normalEnd) :
    lastExit spe runflags (runs ++ [run]) = some run := by
  simp [lastExit, h]

/-- The last round of a call, from a stop info that holds what the earlier ones have recorded. -/
def LastRound (spe : Context) (runflags : UInt32) (runs : List SpuRun) (res : Result) : Prop :=
  ∃ earlier last f, runs = earlier ++ [last] ∧
    f.stopinfo.recorded = exitReport (lastExit spe runflags earlier) ∧
    Round spe runflags f last (.inr res)

theorem doRun_last {tr : List (Sigma Ans)} {res : Result} (hf : f.stopinfo.recorded = (none, none))
    (h : (Prog.repeats (doRun spe runflags) f).Ends tr res) :
    LastRound spe runflags (runsOf tr) res := by
  have hstart : f.stopinfo.recorded = exitReport (lastExit spe runflags (runsOf [])) := hf
  refine Prog.Ends.repeats_rule
    (J := fun f tr => f.stopinfo.recorded = exitReport (lastExit spe runflags (runsOf tr)))
    (Q := fun tr res => LastRound spe runflags (runsOf tr) res) h hstart ?_ ?_
  · intro f tr₀ tr₁ f' hJ h₁
    obtain ⟨run, htr, hround⟩ := doRun_round h₁
    rw [runsOf_append, htr]
    cases hround with
    | again hk hrec => rw [lastExit_append_of_ne hk, hrec, hJ]
    | exitIsolated hk hrec => rw [lastExit_append hk, hrec, exitReport]
  · intro f tr₀ tr₁ res hJ h₁
    obtain ⟨run, htr, hround⟩ := doRun_round h₁
    exact ⟨runsOf tr₀, run, f, by rw [runsOf_append, htr], hJ, hround⟩

/-! ## The report -/

/-- The call's report of the results `runs`: what the caller finds was written by this call, and the
return value tells the kind of the stop reason. -/
structure Reported (spe : Context) (runs : List SpuRun) (res : Result) (r : StopResult) : Prop where
  reason : res.frame.stopinfo.stopReason = some r.reason
  result : res.frame.stopinfo.result = some r
  failure : res.retval = -1 ↔ r.reason.isFailure
  zero : res.retval = 0 ↔ r.reason = .exit
  positive : 0 < res.retval ↔ r.reason = .stopAndSignal
  exitCode : ∀ n, r = .speExitCode n → ∃ run ∈ runs, stops spe run ∧
    stopCode run.rc &&& 0xff00 = 0x2000 ∧ n = stopCode run.rc &&& 0xff
  signalCode : ∀ n, r = .speSignalCode n → res.retval = n.toNat ∧
    ∃ run, runs.getLast? = some run ∧ stops spe run ∧ n = stopCode run.rc

/-- What the code overlooks: an isolated SPE that has stopped outside isolated mode with no exit
recorded, and an isolated context without a control area at the exit. -/
def Misreported (spe : Context) (runflags : UInt32) (runs : List SpuRun) : Prop :=
  ∃ earlier last, runs = earlier ++ [last] ∧
    (kind spe runflags last = .leavesIsolation ∧
        (∀ run ∈ earlier, kind spe runflags run ≠ .normalEnd) ∨
      kind spe runflags last = .normalEnd ∧ has spe.flags speIsolate ∧ spe.cntlMmapBase = none)

theorem stops_of_kind {k : Kind} (h : kind spe runflags run = k) (hk : k ≠ .other) :
    stops spe run = true := by
  by_contra hs
  exact hk (by simp [← h, kind, hs])

theorem kind_normalEnd (h : kind spe runflags run = .normalEnd) :
    stops spe run ∧ stopCode run.rc &&& 0xff00 = 0x2000 := by
  refine ⟨stops_of_kind h nofun, ?_⟩
  unfold kind at h
  split at h
  · cases h
  split at h
  · cases h
  split at h
  · next he => exact he
  split at h
  · cases h
  split at h <;> cases h

theorem lastExit_eq_none {runs : List SpuRun} :
    lastExit spe runflags runs = none ↔ ∀ run ∈ runs, kind spe runflags run ≠ .normalEnd := by
  simp [lastExit]

theorem lastExit_eq_some {runs : List SpuRun} (h : lastExit spe runflags runs = some run) :
    run ∈ runs ∧ kind spe runflags run = .normalEnd := by
  simpa using List.mem_filter.mp (List.mem_of_getLast? h)

/-- The report of a last round. -/
theorem LastRound.reported {runs : List SpuRun} {res : Result}
    (h : LastRound spe runflags runs res)
    (hcode : ∀ run ∈ runs, stops spe run → stopCode run.rc ≠ 0) :
    (∃ r, Reported spe runs res r) ↔ ¬ Misreported spe runflags runs := by
  obtain ⟨earlier, last, f, rfl, hrec, hround⟩ := h
  have hmis : Misreported spe runflags (earlier ++ [last]) ↔
      kind spe runflags last = .leavesIsolation ∧
          (∀ run ∈ earlier, kind spe runflags run ≠ .normalEnd) ∨
        kind spe runflags last = .normalEnd ∧ has spe.flags speIsolate ∧
          spe.cntlMmapBase = none := by
    constructor
    · rintro ⟨earlier', last', heq, h⟩
      obtain ⟨rfl, hl⟩ := List.append_inj' heq rfl
      obtain rfl := List.singleton_inj.mp hl
      exact h
    · exact fun h => ⟨earlier, last, rfl, h⟩
  rw [hmis]
  cases hround with
  | @fails f' r hk hl hr hf =>
    obtain ⟨hreason, hresult⟩ := Prod.mk.inj hf
    refine iff_of_true ⟨r, hreason, hresult, by simp [hr], ?_, ?_, ?_, ?_⟩ (by simp [hk, hl])
    · cases r <;> simp_all [StopResult.reason, StopReason.isFailure]
    · cases r <;> simp_all [StopResult.reason, StopReason.isFailure]
    · rintro n rfl
      cases hr
    · rintro n rfl
      cases hr
  | @exit f' n hk hn hf =>
    obtain ⟨hreason, hresult⟩ := Prod.mk.inj hf
    by_cases hc : has spe.flags speIsolate ∧ spe.cntlMmapBase = none
    · rw [if_pos hc] at hn
      refine iff_of_false ?_ (by simp [hk, hc])
      rintro ⟨r, hr⟩
      have hrr : some r.reason = some StopReason.exit := hr.reason.symm.trans hreason
      have := hr.zero.mpr (Option.some.inj hrr)
      subst hn
      cases this
    · rw [if_neg hc] at hn
      subst hn
      refine iff_of_true ⟨.speExitCode (stopCode last.rc &&& 0xff), hreason, hresult, ?_, ?_, ?_, ?_, ?_⟩
        (by simp [hk]; simpa using hc)
      · simp [StopResult.reason, StopReason.isFailure]
      · simp [StopResult.reason]
      · simp [StopResult.reason]
      · intro n hn
        obtain ⟨hs, hcode'⟩ := kind_normalEnd hk
        exact ⟨last, by simp, hs, hcode', (StopResult.speExitCode.inj hn).symm⟩
      · nofun
  | @leaves f' hk hf =>
    rw [hrec] at hf
    cases he : lastExit spe runflags earlier with
    | none =>
      rw [he] at hf
      refine iff_of_false ?_ (by simpa [hk] using lastExit_eq_none.mp he)
      rintro ⟨r, hr⟩
      have hrr : none = some r.reason := (Prod.mk.inj hf).1.symm.trans hr.reason
      cases hrr
    | some run =>
      rw [he] at hf
      obtain ⟨hmem, hend⟩ := lastExit_eq_some he
      obtain ⟨hreason, hresult⟩ := Prod.mk.inj hf
      refine iff_of_true ⟨.speExitCode (stopCode run.rc &&& 0xff), hreason, hresult, ?_, ?_, ?_, ?_, ?_⟩ ?_
      · simp [StopResult.reason, StopReason.isFailure]
      · simp [StopResult.reason]
      · simp [StopResult.reason]
      · intro n hn
        obtain ⟨hs, hcode'⟩ := kind_normalEnd hend
        exact ⟨run, by simp [hmem], hs, hcode', (StopResult.speExitCode.inj hn).symm⟩
      · nofun
      rintro (⟨-, hno⟩ | ⟨hk', -⟩)
      · exact hno run hmem hend
      · rw [hk] at hk'
        cases hk'
  | @signals f' hk hf =>
    obtain ⟨hreason, hresult⟩ := Prod.mk.inj hf
    have hs : stops spe last := stops_of_kind hk nofun
    have hpos : 0 < (stopCode last.rc).toNat := by
      have := hcode last (by simp) hs
      exact Nat.pos_of_ne_zero fun h0 => this (UInt32.toNat_inj.mp h0)
    refine iff_of_true ⟨.speSignalCode (stopCode last.rc), hreason, hresult, ?_, ?_, ?_, ?_, ?_⟩
      (by simp [hk])
    · simp [StopResult.reason, StopReason.isFailure]
    · simp [StopResult.reason]
      omega
    · simpa [StopResult.reason] using hpos
    · nofun
    · intro n hn
      obtain rfl := StopResult.speSignalCode.inj hn
      exact ⟨rfl, last, by simp, hs, rfl⟩

/-! ## Whole calls -/

theorem setupArguments_ends {tmpEntry rf : UInt32} {argp envp : UInt64} {tr : List (Sigma Ans)}
    {x : Int × UInt32} (h : (setupArguments spe rf tmpEntry argp envp).Ends tr x) :
    runsOf tr = [] ∧ x.1 = 0 := by
  unfold setupArguments at h
  split at h
  · obtain ⟨tr₁, tr₂, regs, rfl, h₁, h₂⟩ := Prog.ends_bind.mp h
    obtain ⟨_, tr₃, rfl, h₃⟩ := h₂.perform
    obtain ⟨rfl, rfl⟩ := Prog.ends_ret.mp h₃
    unfold startRegs at h₁
    dsimp only at h₁
    split at h₁
    · obtain ⟨_, tr₄, rfl, h₄⟩ := h₁.perform
      obtain ⟨rfl, rfl⟩ := Prog.ends_ret.mp h₄
      exact ⟨rfl, rfl⟩
    · obtain ⟨rfl, rfl⟩ := Prog.ends_ret.mp h₁
      exact ⟨rfl, rfl⟩
  · obtain ⟨rfl, rfl⟩ := Prog.ends_ret.mp h
    exact ⟨rfl, rfl⟩

/-- A call that returns ends with a last round. -/
theorem contextRun_last {entry emulatedEntry : UInt32} {argp envp : UInt64}
    {tr : List (Sigma Ans)} {res : Result}
    (h : (contextRun spe entry emulatedEntry runflags argp envp).Ends tr res) :
    LastRound spe runflags (runsOf tr) res := by
  obtain ⟨tr₀, tr₁, ⟨rc, start⟩, rfl, h₀, h₁⟩ := Prog.ends_bind.mp h
  obtain ⟨htr₀, hrc⟩ := setupArguments_ends h₀
  obtain rfl : rc = 0 := hrc
  obtain ⟨_, tr₂, rfl, h₂⟩ := (show Prog.Ends (perform (.enterActive spe.fdSpeDir) >>= _) tr₁ res
    from h₁).perform
  obtain ⟨tr₃, tr₄, res', rfl, h₃, h₄⟩ := Prog.ends_bind.mp h₂
  obtain ⟨_, tr₅, rfl, h₅⟩ := h₄.perform
  obtain ⟨_, tr₆, rfl, h₆⟩ := h₅.perform
  obtain ⟨rfl, rfl⟩ := Prog.ends_ret.mp h₆
  have hlast := doRun_last rfl h₃
  rw [runsOf_append, htr₀]
  show LastRound spe runflags (runsOf (tr₃ ++ _)) _
  rw [runsOf_append]
  simpa [runsOf] using hlast

/-- **Run results**: for every context, every run flags and every sequence of answers on which the
call returns, no stop having the code 0, the report is right exactly when nothing is overlooked. -/
theorem runResult_classified {entry emulatedEntry : UInt32} {argp envp : UInt64}
    {tr : List (Sigma Ans)} {res : Result}
    (h : (contextRun spe entry emulatedEntry runflags argp envp).Ends tr res)
    (hcode : ∀ run ∈ runsOf tr, stops spe run → stopCode run.rc ≠ 0) :
    (∃ r, Reported spe (runsOf tr) res r) ↔ ¬ Misreported spe runflags (runsOf tr) :=
  (contextRun_last h).reported hcode

/-! ## Two calls -/

/-- An isolated context. -/
def isolated : Context := ⟨speIsolate, 0x80, 3, 0, some 0, 0⟩

/-- A stop with code 1 of an SPE that is not in isolated mode. -/
def earlyStop : SpuRun := ⟨0x00010002, 0x100, 0, 0⟩

/-- The exchange of a call whose first `spu_run` answers `run`. -/
def oneRun (spe : Context) (entry : UInt32) (run : SpuRun) : List (Sigma Ans) :=
  [⟨.enterActive spe.fdSpeDir, ()⟩, ⟨.activeNpc entry, ()⟩, ⟨.spuRun entry, run⟩,
    ⟨.activeNpc run.npc, ()⟩, ⟨.activeStatus run.status, ()⟩, ⟨.freespeinfo, ()⟩, ⟨.cleanupspeinfo, ()⟩]

theorem oneRun_ends {entry emulatedEntry npc : UInt32} {res : Result}
    (hentry : ¬ (npc = spe.entry ∧ spe.flags &&& (speIsolate ||| speIsolateEmulate) = 0))
    (hstart : startEntry spe entry emulatedEntry = npc)
    (h : (doRun spe runflags ⟨npc, entry, emulatedEntry, .untouched⟩).Ends
      [⟨.activeNpc npc, ()⟩, ⟨.spuRun npc, run⟩, ⟨.activeNpc run.npc, ()⟩,
        ⟨.activeStatus run.status, ()⟩] (.inr res)) :
    (contextRun spe entry emulatedEntry runflags 0 0).Ends (oneRun spe npc run) res := by
  refine Prog.ends_bind.mpr ⟨[], _, (0, npc), rfl, ?_, .cmd ?_⟩
  · rw [hstart, setupArguments, if_neg hentry]
    exact .ret
  · show Prog.Ends ((Prog.repeats (doRun spe runflags) _).bind _) _ _
    exact Prog.ends_bind.mpr ⟨_ ++ [], [⟨.freespeinfo, ()⟩, ⟨.cleanupspeinfo, ()⟩], res, rfl,
      Prog.ends_loop.mpr ⟨_, [], .inr res, rfl, h, .ret⟩, .cmd (.cmd .ret)⟩

/-- An isolated context that stops before any exit: the call returns `0` and has reported nothing. -/
theorem runResult_unreported :
    ∃ res, (contextRun isolated 0 0 0 0 0).Ends (oneRun isolated 0 earlyStop) res ∧
      res.retval = 0 ∧ (∀ run ∈ runsOf (oneRun isolated 0 earlyStop), stopCode run.rc ≠ 0) ∧
      ¬ ∃ r, Reported isolated (runsOf (oneRun isolated 0 earlyStop)) res r := by
  refine ⟨⟨0, (Frame.mk 0 0 0 .untouched).ran isolated earlyStop⟩,
    oneRun_ends (by decide) (by decide) (.cmd (.cmd (.cmd (.cmd .ret)))), rfl, by decide, ?_⟩
  rintro ⟨r, hr⟩
  cases hr.reason

/-- A plain context. -/
def plain : Context := ⟨0, 0x80, 3, 0, none, 0⟩

/-- A stop with code `0x1234`. -/
def userStop : SpuRun := ⟨0x12340002, 0x100, 0, 0⟩

/-- A user-defined stop is reported as such. -/
theorem runResult_signal :
    ∃ res, (contextRun plain 0 0 0 0 0).Ends (oneRun plain 0 userStop) res ∧
      res.retval = 0x1234 ∧ ∃ r, Reported plain (runsOf (oneRun plain 0 userStop)) res r := by
  have hends : (contextRun plain 0 0 0 0 0).Ends (oneRun plain 0 userStop)
      ⟨0x1234, ((Frame.mk 0 0 0 .untouched).ran plain userStop).report (.speSignalCode 0x1234)⟩ :=
    oneRun_ends (by decide) (by decide) (.cmd (.cmd (.cmd (.cmd .ret))))
  refine ⟨_, hends, rfl, (runResult_classified hends (by decide)).mpr ?_⟩
  rintro ⟨earlier, last, heq, h⟩
  obtain ⟨rfl, hl⟩ := List.append_inj' (show [] ++ _ = _ from heq) rfl
  obtain rfl := List.singleton_inj.mp hl
  revert h
  decide

end LibSpe2.Run
