import LibSpe2.Data.Words
import LibSpe2.SpeBase.RunResult
import LibSpe2.Spe12.Event
import LibSpe2.Spe12.Groups

/-!
# The status of an SPE thread that has ended (`libspe12/spe.c`, `libspe12/spethreads.c`)

`do_spe_run` runs the context until the program ends or fails, and `spe_wait` reports what it has left in
`ret_status`. Of the returns of `do_spe_run` only the one after the loop stores to it.

* `Cmd`, `doSpeRun` — the code of a thread, its events being those of `Spe12/Event.lean` and its runs those of
  `SpeBase/Run.lean`.
* `Saved` — what a run of this code stores for `spe_wait`.
* `Told` — the status that was waited for tells how the thread has ended.

Main results:
* `doSpeRun_events` — without the stores, the code is that of the events.
* `told_iff` — the runs that are reported as they have ended.
-/

namespace LibSpe2.Spe12.Status

open Conc

/-! ## The code -/

/-- The constants `SPE_EXIT`, `SPE_STOP_AND_SIGNAL` and so on. -/
def reasonValue : Run.StopReason → UInt32
  | .exit => 1
  | .stopAndSignal => 2
  | .runtimeError => 3
  | .runtimeException => 4
  | .runtimeFatal => 5
  | .callbackError => 6
  | .isolationError => 7

/-- The variable `stop_info`: it is not cleared, and what a run does not write is what was there before. -/
structure StopInfo where
  stopReason : UInt32
  result : Int
  spuStatus : UInt32

/-- What a run has written is found. -/
structure StopInfo.Holds (i : StopInfo) (written : Run.StopInfo) : Prop where
  stopReason : ∀ r ∈ written.stopReason, i.stopReason = reasonValue r
  result : ∀ r ∈ written.result, i.result = r.value
  spuStatus : ∀ w ∈ written.spuStatus, i.spuStatus = w

/-- What a call of `_base_spe_context_run` leaves, which is made without flags. -/
structure Ran (spe : Run.Context) where
  res : Run.Result
  errno : RunErrno
  stopInfo : StopInfo
  returned : ∃ entry emulatedEntry argp envp tr,
    (Run.contextRun spe entry emulatedEntry 0 argp envp).Ends tr res
  holds : stopInfo.Holds res.frame.stopinfo

variable {spe : Run.Context} {th : Tid}

/-- What the events depend on. -/
def Ran.toRunResult (ran : Ran spe) : RunResult :=
  ⟨ran.res.retval, ran.errno, ran.stopInfo.result, ran.stopInfo.stopReason⟩

inductive Cmd (spe : Run.Context) where
  | event (c : Spe12.Cmd)
  | contextRun
  /-- A store to `thread_status`, `npc` or `ret_status`. -/
  | setThreadStatus (v : Int)
  | setNpc (v : UInt32)
  | setRetStatus (v : UInt32)

@[reducible] def Ans : Cmd spe → Type
  | .event c => Spe12.Ans c
  | .contextRun => Ran spe
  | _ => Unit

abbrev Code (spe : Run.Context) := Prog (Cmd spe) Ans

abbrev Trace (spe : Run.Context) := List (Sigma (Ans : Cmd spe → Type))

abbrev perform (c : Cmd spe) : Code spe (Ans c) := Prog.perform c

/-- Code that has to do with events only. -/
def events {α : Type} (p : Spe12.Code α) : Code spe α := p.interp fun c => perform (.event c)

/-- If a signal was sent to stop execution we pause and wait for a continue signal. -/
def pauseIfStopped (th : Tid) : Code spe Unit := do
  if ← perform (.event (.loadFlag th .stop)) then
    perform (.event (.lockEvent th))
    -- the SPE is pausing
    perform (.setThreadStatus 20)
    perform (.event (.condWait th))
    perform (.event (.condWake th))
    perform (.event (.unlockEvent th))
    perform (.event (.storeFlag th .stop false))
    perform (.setThreadStatus 10)

/-- One round of the loop, with the run and, where the loop is left by its condition, the stop reason. -/
def runOnce (th : Tid) : Code spe (Unit ⊕ Ran spe × Option UInt32) := do
  perform (.setThreadStatus 2)
  let ran ← perform .contextRun
  -- the SPE is not running
  perform (.setThreadStatus 10)
  pauseIfStopped th
  match ← events (afterRun th ran.toRunResult) with
  | .inl () => return .inl ()
  | .inr out => return .inr (ran, out)

/-- What follows the loop. -/
def finish (th : Tid) (ran : Ran spe) (out : Option UInt32) : Code spe Int32 :=
  match out with
  | none => do
    perform (.setThreadStatus 99)
    -- `-ENOSYS` where user events are not enabled
    return if ran.res.retval < 0 then ran.stopInfo.spuStatus.toInt32 else -38
  | some stopReason => do
    perform (.setNpc ran.res.frame.entry)
    perform (.setRetStatus ran.stopInfo.spuStatus)
    if ← perform (.event (.useEvents th)) then
      events (generate th speEventThreadExit (.ofNat stopReason.toNat))
    perform (.setThreadStatus 99)
    return ran.stopInfo.spuStatus.toInt32

/-- `do_spe_run`: its result, and what its last run has left. -/
def doSpeRun (spe : Run.Context) (th : Tid) : Code spe (Int32 × Ran spe) := do
  perform (.setThreadStatus 1)
  let (ran, out) ← Prog.repeats (fun _ => runOnce th) ()
  let rc ← finish th ran out
  return (rc, ran)

/-! ## What is stored -/

/-- The members of `struct thread_store` that the code stores to. -/
structure Saved where
  threadStatus : Int
  npc : UInt32
  retStatus : UInt32

namespace Saved

/-- `spe_setup` gets the structure from `calloc`. -/
def init : Saved := ⟨0, 0, 0⟩

def exec (s : Saved) : Sigma (Ans : Cmd spe → Type) → Saved
  | ⟨.setThreadStatus v, _⟩ => { s with threadStatus := v }
  | ⟨.setNpc v, _⟩ => { s with npc := v }
  | ⟨.setRetStatus v, _⟩ => { s with retStatus := v }
  | _ => s

/-- What is stored when a thread has done `tr`. -/
def after (tr : Trace spe) : Saved := tr.foldl exec init

/-- What `spe_wait` finds, where `rc` is the result of `pthread_join`. -/
def join (s : Saved) (rc : Int) : Groups.Join := ⟨s.threadStatus, rc, s.retStatus⟩

end Saved

/-! ## The report -/

/-- `WTERMSIG`, `WIFEXITED`, `WEXITSTATUS` and `WIFSIGNALED`. -/
def wtermsig (status : UInt32) : UInt32 := status &&& 0x7f
def WIfExited (status : UInt32) : Prop := wtermsig status = 0
def wexitstatus (status : UInt32) : UInt32 := (status &&& 0xff00) >>> 8
def WIfSignaled (status : UInt32) : Prop := wtermsig status ≠ 0 ∧ wtermsig status ≠ 0x7f

/-- The status tells how the thread has ended: it is that of the last run, a thread that has halted or met an
invalid instruction or an invalid channel is signaled, and one that has called `exit(c)` has exited with `c`. -/
structure Told (ran : Ran spe) (status : UInt32) : Prop where
  last : ∀ w, ran.res.frame.stopinfo.spuStatus = some w → status = Groups.speWaitStatus w
  signaled : ∀ n, ran.res.frame.stopinfo.result = some (.speRuntimeError n) → WIfSignaled status
  exited : ∀ c, ran.res.frame.stopinfo.result = some (.speExitCode c) →
    WIfExited status ∧ (wexitstatus status).toNat = c.toNat % 256

/-- The loop is left by its condition: the program has ended, or it has stopped in a group with events (and was
killed). -/
def Ran.Ended (ran : Ran spe) (useEvents : Bool) : Prop :=
  ran.res.retval = 0 ∨ 0 < ran.res.retval ∧ useEvents

/-- The status register says that the program has called `exit(c)`, and nothing else. -/
def ExitWord (w c : UInt32) : Prop := w >>> 16 = 0x2000 + c ∧ w &&& 0x65 = 0

/-- **The condition**: the loop is left by its condition, or a register that was never saved reads alike; and a
thread that has called `exit` has left nothing else in the register. -/
structure Tellable (ran : Ran spe) (useEvents : Bool) (w : UInt32) : Prop where
  saved : ran.Ended useEvents ∨ Groups.speWaitStatus w = Groups.speWaitStatus 0
  exits : ∀ c, ran.res.frame.stopinfo.result = some (.speExitCode c) → ExitWord w c

/-! ## What a run leaves -/

section

open Run hiding Cmd Ans Code perform

variable {runflags : UInt32} {f : Frame} {run : SpuRun} {tr : List (Sigma Run.Ans)}

/-- An error that is reported makes the call fail. -/
theorem lastRound_error {runs : List SpuRun} {res : Result} (h : LastRound spe runflags runs res) {n : UInt32}
    (hn : res.frame.stopinfo.result = some (.speRuntimeError n)) : res.retval = -1 := by
  obtain ⟨earlier, last, f, -, hrec, hround⟩ := h
  cases hround with
  | fails => rfl
  | exit hk hval hf =>
    rw [(Prod.mk.inj hf).2] at hn
    cases hn
  | leaves hk hf =>
    -- only an exit lasts from an earlier round
    rw [hrec] at hf
    cases he : lastExit spe runflags earlier with
    | none =>
      rw [he, exitReport] at hf
      rw [(Prod.mk.inj hf).2] at hn
      cases hn
    | some run =>
      rw [he, exitReport] at hf
      rw [(Prod.mk.inj hf).2] at hn
      cases hn
  | signals hk hf =>
    rw [(Prod.mk.inj hf).2] at hn
    cases hn

theorem stopCode_and_lt (rc : UInt32) : (stopCode rc &&& 0xff).toNat < 256 := by
  rw [UInt32.toNat_and]
  exact Nat.and_lt_two_pow _ (by decide : (0xff : UInt32).toNat < 2 ^ 8)

/-- An exit code has eight bits. -/
theorem lastRound_exitCode {runs : List SpuRun} {res : Result} (h : LastRound spe runflags runs res)
    {c : UInt32} (hc : res.frame.stopinfo.result = some (.speExitCode c)) : c.toNat < 256 := by
  obtain ⟨earlier, last, f, -, hrec, hround⟩ := h
  have of_stop {rc : UInt32} {i : Run.StopInfo}
      (hi : i.recorded = (some .exit, some (.speExitCode (stopCode rc &&& 0xff))))
      (hc : i.result = some (.speExitCode c)) : c.toNat < 256 := by
    rw [(Prod.mk.inj hi).2] at hc
    cases hc
    exact stopCode_and_lt rc
  cases hround with
  | @fails f' r hk hl hr hf =>
    rw [(Prod.mk.inj hf).2] at hc
    cases hc
    cases hr
  | exit hk hval hf => exact of_stop hf hc
  | leaves hk hf =>
    rw [hrec] at hf
    cases he : lastExit spe runflags earlier with
    | none =>
      rw [he, exitReport] at hf
      rw [(Prod.mk.inj hf).2] at hc
      cases hc
    | some run =>
      rw [he] at hf
      exact of_stop hf hc
  | signals hk hf =>
    rw [(Prod.mk.inj hf).2] at hc
    cases hc

/-- `spu_status` after a round. -/
def statusOf : Frame ⊕ Result → Option UInt32
  | .inl f => f.stopinfo.spuStatus
  | .inr res => res.frame.stopinfo.spuStatus

theorem failWith_status {e : Int} {x : Frame ⊕ Result} (h : (failWith f e).Ends tr x) :
    statusOf x = f.stopinfo.spuStatus := by
  obtain ⟨-, rfl⟩ := failWith_ends h
  rfl

theorem stopped_status {x : Frame ⊕ Result} (h : (stopped spe runflags run f).Ends tr x) :
    statusOf x = f.stopinfo.spuStatus := by
  unfold stopped at h
  dsimp only at h
  split at h
  · obtain ⟨rc, tr', rfl, h'⟩ := h.perform
    split at h'
    · rw [failWith_status h']
      rfl
    · obtain ⟨-, rfl⟩ := Prog.ends_ret.mp h'
      rfl
  split at h
  · split at h
    · obtain ⟨tr₁, tr₂, n, rfl, -, h₂⟩ := Prog.ends_bind.mp h
      split at h₂
      · obtain ⟨-, rfl⟩ := Prog.ends_ret.mp h₂
        rfl
      · obtain ⟨-, rfl⟩ := Prog.ends_ret.mp h₂
        rfl
    · obtain ⟨-, rfl⟩ := Prog.ends_ret.mp h
      rfl
  split at h
  · split at h
    · obtain ⟨u, tr', rfl, h'⟩ := h.perform
      obtain ⟨-, rfl⟩ := Prog.ends_ret.mp h'
      rfl
    · rw [failWith_status h]
      rfl
  split at h
  · obtain ⟨-, rfl⟩ := Prog.ends_ret.mp h
    rfl
  · obtain ⟨-, rfl⟩ := Prog.ends_ret.mp h
    rfl

/-- Every round stores to `spu_status`. -/
theorem doRun_status {x : Frame ⊕ Result} (h : (doRun spe runflags f).Ends tr x) : (statusOf x).isSome := by
  obtain ⟨u, tr₁, rfl, h₁⟩ := h.perform
  obtain ⟨run, tr₂, rfl, h₂⟩ := h₁.perform
  obtain ⟨u, tr₃, rfl, h₃⟩ := h₂.perform
  obtain ⟨u, tr₄, rfl, h₄⟩ := h₃.perform
  have of_fail {f' : Frame} {e : Int} (hf : f'.stopinfo.spuStatus.isSome)
      (h : (failWith f' e).Ends tr₄ x) : (statusOf x).isSome := by
    rw [failWith_status h]
    exact hf
  dsimp only at h₄
  split at h₄
  · split at h₄
    · obtain ⟨-, rfl⟩ := Prog.ends_ret.mp h₄
      rfl
    · exact of_fail rfl h₄
  split at h₄
  · exact of_fail rfl h₄
  split at h₄
  · exact of_fail rfl h₄
  split at h₄
  · rw [stopped_status h₄]
    rfl
  repeat' split at h₄
  all_goals exact of_fail rfl h₄

/-- Every call stores to `spu_status`. -/
theorem contextRun_status {entry emulatedEntry : UInt32} {argp envp : UInt64} {res : Result}
    (h : (contextRun spe entry emulatedEntry runflags argp envp).Ends tr res) :
    res.frame.stopinfo.spuStatus.isSome := by
  obtain ⟨tr₀, tr₁, ⟨rc, start⟩, rfl, h₀, h₁⟩ := Prog.ends_bind.mp h
  obtain ⟨-, hrc⟩ := setupArguments_ends h₀
  obtain rfl : rc = 0 := hrc
  obtain ⟨u, tr₂, rfl, h₂⟩ := (show Prog.Ends (Run.perform (.enterActive spe.fdSpeDir) >>= _) tr₁ res
    from h₁).perform
  obtain ⟨tr₃, tr₄, res', rfl, h₃, h₄⟩ := Prog.ends_bind.mp h₂
  obtain ⟨u, tr₅, rfl, h₅⟩ := h₄.perform
  obtain ⟨u, tr₆, rfl, h₆⟩ := h₅.perform
  obtain ⟨rfl, rfl⟩ := Prog.ends_ret.mp h₆
  obtain ⟨f, tr₇, tr₈, rfl, hround⟩ := h₃.repeats_last
  exact doRun_status hround

end

theorem Ran.spuStatus_eq (ran : Ran spe) :
    ran.res.frame.stopinfo.spuStatus = some ran.stopInfo.spuStatus := by
  obtain ⟨_, _, _, _, _, h⟩ := ran.returned
  obtain ⟨w, hw⟩ := Option.isSome_iff_exists.mp (contextRun_status h)
  rw [hw, ran.holds.spuStatus w hw]

theorem Ran.error (ran : Ran spe) {n : UInt32}
    (hn : ran.res.frame.stopinfo.result = some (.speRuntimeError n)) : ran.res.retval = -1 := by
  obtain ⟨_, _, _, _, _, h⟩ := ran.returned
  exact lastRound_error (Run.contextRun_last h) hn

theorem Ran.exitCode (ran : Ran spe) {c : UInt32}
    (hc : ran.res.frame.stopinfo.result = some (.speExitCode c)) : c.toNat < 256 := by
  obtain ⟨_, _, _, _, _, h⟩ := ran.returned
  exact lastRound_exitCode (Run.contextRun_last h) hc

/-! ## The decoding -/

section

variable {w c : UInt32}

/-- The signal that `spe_wait_status` finds in the register. -/
def term (w : UInt32) : UInt32 :=
  if w &&& 0x4 ≠ 0 then 6
  else if w &&& 0x20 ≠ 0 then 4
  else if w &&& 0x40 ≠ 0 then 4
  else if w >>> 16 < speProgramNormalEnd ∨ w >>> 16 > 0x20ff then 4
  else if w &&& 0x1 ≠ 0 then 9
  else 0

theorem toNat_stop (w : UInt32) : (w >>> 16).toNat = w.toNat / 2 ^ 16 :=
  Words.toNat_shiftRight (k := 16) (by decide)

theorem stop_eq (w : UInt32) : (w &&& 0xffff0000) >>> 16 = w >>> 16 := by
  have hlt := w.toNat_lt
  apply UInt32.toNat_inj.mp
  rw [toNat_stop, toNat_stop, UInt32.toNat_and]
  show (w.toNat &&& 0xffff0000) / 2 ^ 16 = _
  rw [← Nat.shiftRight_eq_div_pow, Nat.shiftRight_and_distrib]
  show w.toNat >>> 16 &&& 2 ^ 16 - 1 = _
  rw [Nat.and_two_pow_sub_one_eq_mod, Nat.shiftRight_eq_div_pow]
  omega

theorem term_lt (w : UInt32) : (term w).toNat < 2 ^ 7 ∧ (term w).toNat ≠ 0x7f := by
  unfold term
  repeat' split
  all_goals decide

/-- The two parts of a status. -/
theorem toNat_speWaitStatus (w : UInt32) :
    (Groups.speWaitStatus w).toNat = 2 ^ 8 * (w.toNat / 2 ^ 16 % 2 ^ 8) + (term w).toNat := by
  have hterm := (term_lt w).1
  have heq : Groups.speWaitStatus w = (((w >>> 16) &&& 0xff) <<< 8) ||| (term w &&& 0x7f) := by
    unfold Groups.speWaitStatus term
    rw [stop_eq]
  have hlow : (term w &&& 0x7f).toNat = (term w).toNat % 2 ^ 7 := Words.toNat_and_low (n := 7) rfl
  have hstop : ((w >>> 16) &&& 0xff).toNat = w.toNat / 2 ^ 16 % 2 ^ 8 := by
    rw [Words.toNat_and_low (m := 0xff) (n := 8) rfl, toNat_stop]
  have hshift : (((w >>> 16) &&& 0xff) <<< 8).toNat = 2 ^ 8 * (w.toNat / 2 ^ 16 % 2 ^ 8) := by
    rw [Words.toNat_shiftLeft (k := 8) (by decide), hstop]
    show 2 ^ 8 * (_ % 2 ^ 24) = _
    omega
  rw [heq, UInt32.toNat_or, hshift, hlow, Words.or_eq_add (Nat.dvd_mul_right ..) (by omega)]
  omega

theorem wtermsig_speWaitStatus (w : UInt32) : wtermsig (Groups.speWaitStatus w) = term w := by
  have hterm := (term_lt w).1
  apply UInt32.toNat_inj.mp
  rw [wtermsig, Words.toNat_and_low (m := 0x7f) (n := 7) rfl, toNat_speWaitStatus]
  omega

theorem wexitstatus_speWaitStatus (w : UInt32) :
    (wexitstatus (Groups.speWaitStatus w)).toNat = w.toNat / 2 ^ 16 % 2 ^ 8 := by
  have hterm := (term_lt w).1
  have heq : (wexitstatus (Groups.speWaitStatus w)).toNat =
      ((Groups.speWaitStatus w).toNat &&& 0xff00) >>> 8 := by
    rw [wexitstatus, UInt32.toNat_shiftRight, UInt32.toNat_and]
    rfl
  rw [heq, Nat.shiftRight_and_distrib]
  show _ &&& 2 ^ 8 - 1 = _
  rw [Nat.and_two_pow_sub_one_eq_mod, Nat.shiftRight_eq_div_pow, toNat_speWaitStatus]
  omega

/-- Which words have no signal. -/
theorem term_eq_zero :
    term w = 0 ↔ w &&& 0x65 = 0 ∧ 0x2000 ≤ w.toNat / 2 ^ 16 ∧ w.toNat / 2 ^ 16 ≤ 0x20ff := by
  have hmask : w &&& 0x65 = 0 ↔ w &&& 0x4 = 0 ∧ w &&& 0x20 = 0 ∧ w &&& 0x40 = 0 ∧ w &&& 0x1 = 0 := by
    show w &&& (0x4 ||| (0x20 ||| (0x40 ||| 0x1))) = 0 ↔ _
    rw [Words.and_or_eq_zero, Words.and_or_eq_zero, Words.and_or_eq_zero]
  have hstop : ¬ (w >>> 16 < speProgramNormalEnd ∨ w >>> 16 > 0x20ff) ↔
      0x2000 ≤ w.toNat / 2 ^ 16 ∧ w.toNat / 2 ^ 16 ≤ 0x20ff := by
    rw [not_or, UInt32.not_lt, gt_iff_lt, UInt32.not_lt, UInt32.le_iff_toNat_le, UInt32.le_iff_toNat_le,
      toNat_stop]
    rfl
  rw [hmask, ← hstop]
  unfold term
  split
  · next h => simp [h]
  next h₁ =>
  split
  · next h => simp [h]
  next h₂ =>
  split
  · next h => simp [h]
  next h₃ =>
  split
  · next h => simp [h]
  next h₄ =>
  split
  · next h => simp [h]
  · next h₅ =>
    simp only [ne_eq, Decidable.not_not] at h₁ h₂ h₃ h₅
    simp [h₁, h₂, h₃, h₄, h₅]

/-- A status is that of `exit(c)` exactly for the word that says so. -/
theorem exited_iff (hc : c.toNat < 256) :
    WIfExited (Groups.speWaitStatus w) ∧ (wexitstatus (Groups.speWaitStatus w)).toNat = c.toNat % 256 ↔
      ExitWord w c := by
  have hword : w >>> 16 = 0x2000 + c ↔ w.toNat / 2 ^ 16 = 0x2000 + c.toNat := by
    rw [← UInt32.toNat_inj, toNat_stop, UInt32.toNat_add]
    show _ = (0x2000 + c.toNat) % 2 ^ 32 ↔ _
    rw [Nat.mod_eq_of_lt (by omega)]
  unfold WIfExited ExitWord
  rw [wtermsig_speWaitStatus, wexitstatus_speWaitStatus, term_eq_zero, hword]
  constructor
  · intro ⟨⟨hmask, hlow, hhigh⟩, hcode⟩
    exact ⟨by omega, hmask⟩
  · intro ⟨hcode, hmask⟩
    exact ⟨⟨hmask, by omega, by omega⟩, by omega⟩

/-- A word that was never saved is reported as an illegal instruction. -/
theorem signaled_zero : WIfSignaled (Groups.speWaitStatus 0) := by
  unfold WIfSignaled
  decide

end

/-! ## The events of a thread -/

section

variable {tr : Trace spe} {α : Type}

/-- What a trace has to do with events. -/
def eventsOf (th : Tid) (tr : Trace spe) : List (Sigma Spe12.Ans) :=
  tr.filterMap fun
    | ⟨.event c, r⟩ => some ⟨c, r⟩
    | ⟨.contextRun, ran⟩ => some ⟨.contextRun th, ran.toRunResult⟩
    | _ => none

theorem eventsOf_append (tr₁ tr₂ : Trace spe) :
    eventsOf th (tr₁ ++ tr₂) = eventsOf th tr₁ ++ eventsOf th tr₂ := List.filterMap_append ..

theorem events_ends (th : Tid) {p : Spe12.Code α} {a : α} (h : (events p).Ends tr a) :
    p.Ends (eventsOf th tr) a := by
  apply Prog.Ends.of_interp (eventsOf th) rfl eventsOf_append ?_ h
  intro c tr r hc
  rw [Prog.ends_perform.mp hc]
  rfl

theorem pauseIfStopped_ends (h : (pauseIfStopped th).Ends tr ()) :
    (Spe12.pauseIfStopped th).Ends (eventsOf th tr) () := by
  obtain ⟨stop, tr₁, rfl, h₁⟩ := h.perform
  refine Prog.ends_cmd.mpr ⟨stop, _, rfl, ?_⟩
  cases stop with
  | true =>
    rw [if_pos rfl] at h₁
    obtain ⟨u, tr₂, rfl, h₂⟩ := h₁.perform
    obtain ⟨u, tr₃, rfl, h₃⟩ := h₂.perform
    obtain ⟨u, tr₄, rfl, h₄⟩ := h₃.perform
    obtain ⟨u, tr₅, rfl, h₅⟩ := h₄.perform
    obtain ⟨u, tr₆, rfl, h₆⟩ := h₅.perform
    obtain ⟨u, tr₇, rfl, h₇⟩ := h₆.perform
    obtain rfl := Prog.ends_perform.mp h₇
    exact .cmd (.cmd (.cmd (.cmd (.cmd .ret))))
  | false =>
    obtain ⟨rfl, -⟩ := Prog.ends_ret.mp h₁
    exact .ret

theorem runOnce_ends {x : Unit ⊕ Ran spe × Option UInt32} (h : (runOnce th).Ends tr x) :
    (Spe12.runOnce th).Ends (eventsOf th tr) (x.map id Prod.snd) := by
  obtain ⟨u, tr₁, rfl, h₁⟩ := h.perform
  obtain ⟨ran, tr₂, rfl, h₂⟩ := h₁.perform
  obtain ⟨u, tr₃, rfl, h₃⟩ := h₂.perform
  obtain ⟨tr₄, tr₅, u, rfl, h₄, h₅⟩ := Prog.ends_bind.mp h₃
  obtain ⟨tr₆, tr₇, out, rfl, h₆, h₇⟩ := Prog.ends_bind.mp h₅
  refine Prog.ends_cmd.mpr ⟨ran.toRunResult, _, rfl, ?_⟩
  show Prog.Ends ((Spe12.pauseIfStopped th).bind fun _ => afterRun th ran.toRunResult)
    (eventsOf th (tr₄ ++ (tr₆ ++ tr₇))) _
  rw [eventsOf_append, eventsOf_append]
  apply Prog.ends_bind.mpr ⟨_, _, (), rfl, pauseIfStopped_ends h₄, ?_⟩
  cases out with
  | inl u =>
    obtain ⟨rfl, rfl⟩ := Prog.ends_ret.mp h₇
    rw [show eventsOf th ([] : Trace spe) = [] from rfl, List.append_nil]
    exact events_ends th h₆
  | inr out =>
    obtain ⟨rfl, rfl⟩ := Prog.ends_ret.mp h₇
    rw [show eventsOf th ([] : Trace spe) = [] from rfl, List.append_nil]
    exact events_ends th h₆

/-- **Without the stores**, the code of a thread is that of its events. -/
theorem doSpeRun_events {out : Int32 × Ran spe} (h : (doSpeRun spe th).Ends tr out) :
    (Spe12.doSpeRun th).Ends (eventsOf th tr) () := by
  obtain ⟨u, tr₁, rfl, h₁⟩ := h.perform
  obtain ⟨tr₂, tr₃, ⟨ran, left⟩, rfl, h₂, h₃⟩ := Prog.ends_bind.mp h₁
  obtain ⟨tr₄, tr₅, rc, rfl, h₄, h₅⟩ := Prog.ends_bind.mp h₃
  obtain ⟨rfl, rfl⟩ := Prog.ends_ret.mp h₅
  show Prog.Ends ((Prog.repeats (fun _ => Spe12.runOnce th) ()).bind _) (eventsOf th (tr₂ ++ (tr₄ ++ []))) ()
  rw [List.append_nil, eventsOf_append]
  apply Prog.ends_bind.mpr ⟨_, _, left, rfl, ?_, ?_⟩
  · exact h₂.repeats_map (eventsOf th) eventsOf_append id Prod.snd fun i tr x hx => runOnce_ends hx
  cases left with
  | none =>
    obtain ⟨u, tr₆, rfl, h₆⟩ := h₄.perform
    obtain ⟨rfl, -⟩ := Prog.ends_ret.mp h₆
    exact .ret
  | some stopReason =>
    obtain ⟨u, tr₆, rfl, h₆⟩ := h₄.perform
    obtain ⟨u, tr₇, rfl, h₇⟩ := h₆.perform
    obtain ⟨useEvents, tr₈, rfl, h₈⟩ := h₇.perform
    refine Prog.ends_cmd.mpr ⟨useEvents, _, rfl, ?_⟩
    cases useEvents with
    | true =>
      rw [if_pos rfl] at h₈
      obtain ⟨tr₉, tr₁₀, u, rfl, h₉, h₁₀⟩ := Prog.ends_bind.mp h₈
      obtain ⟨u, tr₁₁, rfl, h₁₁⟩ := h₁₀.perform
      obtain ⟨rfl, -⟩ := Prog.ends_ret.mp h₁₁
      show Prog.Ends (generate th speEventThreadExit _) (eventsOf th (tr₉ ++ [⟨.setThreadStatus 99, _⟩])) ()
      rw [eventsOf_append]
      exact (List.append_nil (eventsOf th tr₉)).symm ▸ events_ends th h₉
    | false =>
      obtain ⟨u, tr₉, rfl, h₉⟩ := (show Prog.Ends ((perform (.setThreadStatus 99)).bind _) _ _ from h₈).perform
      obtain ⟨rfl, -⟩ := Prog.ends_ret.mp h₉
      exact .ret

/-! ## The stores of a thread -/

/-- The command does not store to `ret_status`. -/
def Cmd.Keeps : Cmd spe → Prop
  | .setRetStatus _ => False
  | _ => True

theorem events_keeps (p : Spe12.Code α) : (events p : Code spe α).All Cmd.Keeps :=
  (Prog.all_true p).interp fun _ _ => .perform trivial

theorem pauseIfStopped_keeps : (pauseIfStopped th : Code spe Unit).All Cmd.Keeps := by
  apply Prog.All.bind (.perform trivial)
  intro stop
  split
  · exact ⟨trivial, fun _ => ⟨trivial, fun _ => ⟨trivial, fun _ => ⟨trivial, fun _ =>
      ⟨trivial, fun _ => ⟨trivial, fun _ => ⟨trivial, fun _ => trivial⟩⟩⟩⟩⟩⟩⟩
  · trivial

theorem runOnce_keeps : (runOnce th : Code spe _).All Cmd.Keeps := by
  apply Prog.All.bind (.perform trivial)
  intro u
  apply Prog.All.bind (.perform trivial)
  intro ran
  apply Prog.All.bind (.perform trivial)
  intro u
  apply Prog.All.bind pauseIfStopped_keeps
  intro u
  apply Prog.All.bind (events_keeps _)
  intro out
  cases out <;> trivial

theorem Saved.retStatus_foldl (h : ∀ e ∈ tr, e.1.Keeps) (s : Saved) :
    (tr.foldl Saved.exec s).retStatus = s.retStatus := by
  induction tr generalizing s with
  | nil => rfl
  | cons e tr ih =>
    have hkeeps := (List.forall_mem_cons.mp h).1
    rw [List.foldl_cons, ih (List.forall_mem_cons.mp h).2]
    obtain ⟨c, r⟩ := e
    cases c with
    | setRetStatus v => cases hkeeps
    | _ => rfl

/-- What `finish` stores. -/
theorem finish_saved {ran : Ran spe} {out : Option UInt32} {rc : Int32} (h : (finish th ran out).Ends tr rc)
    (s : Saved) : (tr.foldl Saved.exec s).threadStatus = 99 ∧
      (tr.foldl Saved.exec s).retStatus = if out.isSome then ran.stopInfo.spuStatus else s.retStatus := by
  cases out with
  | none =>
    obtain ⟨u, tr₁, rfl, h₁⟩ := h.perform
    obtain ⟨rfl, -⟩ := Prog.ends_ret.mp h₁
    exact ⟨rfl, rfl⟩
  | some stopReason =>
    obtain ⟨u₁, tr₁, rfl, h₁⟩ := h.perform
    obtain ⟨u₂, tr₂, rfl, h₂⟩ := h₁.perform
    obtain ⟨useEvents, tr₃, rfl, h₃⟩ := h₂.perform
    -- the last event is written before the thread is marked as ended
    obtain ⟨tr₄, rfl, hkeeps⟩ : ∃ tr₄, tr₃ = tr₄ ++ [⟨.setThreadStatus 99, ()⟩] ∧ ∀ e ∈ tr₄, e.1.Keeps := by
      split at h₃
      · obtain ⟨tr₄, tr₅, u, rfl, h₄, h₅⟩ := Prog.ends_bind.mp h₃
        obtain ⟨u, tr₆, rfl, h₆⟩ := h₅.perform
        obtain ⟨rfl, -⟩ := Prog.ends_ret.mp h₆
        exact ⟨tr₄, rfl, (events_keeps _).ends h₄⟩
      · obtain ⟨u, tr₆, rfl, h₆⟩ := h₃.perform
        obtain ⟨rfl, -⟩ := Prog.ends_ret.mp h₆
        exact ⟨[], rfl, List.forall_mem_nil _⟩
    generalize hs' : Saved.exec (Saved.exec (Saved.exec s ⟨.setNpc ran.res.frame.entry, u₁⟩)
      ⟨.setRetStatus ran.stopInfo.spuStatus, u₂⟩) ⟨.event (.useEvents th), useEvents⟩ = s'
    have hstatus : s'.retStatus = ran.stopInfo.spuStatus := by
      rw [← hs']
      rfl
    rw [List.foldl_cons, List.foldl_cons, List.foldl_cons, List.foldl_append, hs', Option.isSome_some,
      if_pos rfl]
    have hkept := Saved.retStatus_foldl hkeeps s'
    generalize tr₄.foldl Saved.exec s' = s'' at hkept ⊢
    exact ⟨rfl, hkept.trans hstatus⟩

end

/-! ## How the loop is left -/

/-- What is done after a run that leaves the loop. -/
theorem afterRun_out {res : RunResult} {tr : List (Sigma Spe12.Ans)} {out : Option UInt32} {useEvents : Bool}
    (h : (afterRun th res).Ends tr (.inr out)) (hgroup : ∀ b, ⟨.useEvents th, b⟩ ∈ tr → b = useEvents) :
    out.isSome ↔ res.ret = 0 ∨ 0 < res.ret ∧ useEvents := by
  unfold afterRun at h
  split at h
  · next hneg =>
    obtain ⟨u, tr₁, rfl, h₁⟩ := h.perform
    obtain ⟨tr₂, tr₃, u, rfl, -, h₂⟩ := Prog.ends_bind.mp h₁
    obtain ⟨u, tr₄, rfl, h₄⟩ := h₂.perform
    obtain ⟨u, tr₅, rfl, h₅⟩ := h₄.perform
    obtain ⟨-, hout⟩ := Prog.ends_ret.mp h₅
    rw [Sum.inr.inj hout]
    exact iff_of_false nofun (by omega)
  next hneg =>
  split at h
  · next hzero =>
    obtain ⟨-, hout⟩ := Prog.ends_ret.mp h
    rw [Sum.inr.inj hout]
    exact iff_of_true rfl (.inl hzero)
  next hzero =>
  obtain ⟨u, tr₁, rfl, h₁⟩ := h.perform
  obtain ⟨b, tr₂, rfl, h₂⟩ := h₁.perform
  obtain rfl : b = useEvents := hgroup b (by simp)
  cases b with
  | true =>
    obtain ⟨tr₃, tr₄, u, rfl, -, h₃⟩ := Prog.ends_bind.mp h₂
    obtain ⟨u, tr₅, rfl, h₅⟩ := h₃.perform
    obtain ⟨killed, tr₆, rfl, h₆⟩ := h₅.perform
    cases killed with
    | true =>
      obtain ⟨-, hout⟩ := Prog.ends_ret.mp h₆
      rw [Sum.inr.inj hout]
      exact iff_of_true rfl (.inr ⟨by omega, rfl⟩)
    | false =>
      obtain ⟨-, hout⟩ := Prog.ends_ret.mp h₆
      cases hout
  | false =>
    obtain ⟨u, tr₃, rfl, h₃⟩ := h₂.perform
    obtain ⟨-, hout⟩ := Prog.ends_ret.mp h₃
    rw [Sum.inr.inj hout]
    apply iff_of_false nofun
    rintro (h | ⟨-, h⟩)
    · exact hzero h
    · cases h

section

variable {tr : Trace spe} {ran : Ran spe} {out : Option UInt32} {useEvents : Bool}

theorem mem_eventsOf {c : Spe12.Cmd} {r : Spe12.Ans c} (h : ⟨c, r⟩ ∈ eventsOf th tr) (hc : c ≠ .contextRun th) :
    ⟨.event c, r⟩ ∈ tr := by
  obtain ⟨⟨c', r'⟩, hmem, heq⟩ := List.mem_filterMap.mp h
  cases c' with
  | event c' =>
    cases heq
    exact hmem
  | contextRun =>
    cases heq
    exact absurd rfl hc
  | _ => cases heq

/-- A round that leaves the loop. -/
theorem runOnce_out (h : (runOnce th).Ends tr (.inr (ran, out)))
    (hgroup : ∀ b, ⟨.event (.useEvents th), b⟩ ∈ tr → b = useEvents) : out.isSome ↔ ran.Ended useEvents := by
  obtain ⟨u, tr₁, rfl, h₁⟩ := h.perform
  obtain ⟨ran', tr₂, rfl, h₂⟩ := h₁.perform
  obtain ⟨u, tr₃, rfl, h₃⟩ := h₂.perform
  obtain ⟨tr₄, tr₅, u, rfl, -, h₅⟩ := Prog.ends_bind.mp h₃
  obtain ⟨tr₆, tr₇, x, rfl, h₆, h₇⟩ := Prog.ends_bind.mp h₅
  cases x with
  | inl u =>
    obtain ⟨-, hx⟩ := Prog.ends_ret.mp h₇
    cases hx
  | inr out' =>
    obtain ⟨-, hx⟩ := Prog.ends_ret.mp h₇
    obtain ⟨rfl, rfl⟩ := Prod.mk.inj (Sum.inr.inj hx)
    apply afterRun_out (events_ends th h₆)
    intro b hb
    apply hgroup b
    have := mem_eventsOf hb nofun
    simp [this]

/-- **What a thread leaves** to `spe_wait`: it has ended, and the register of its last run is saved if the loop
was left by its condition. -/
theorem doSpeRun_saved {rc : Int32} (h : (doSpeRun spe th).Ends tr (rc, ran))
    (hgroup : ∀ b, ⟨.event (.useEvents th), b⟩ ∈ tr → b = useEvents) :
    (Saved.after tr).threadStatus = 99 ∧
      (ran.Ended useEvents → (Saved.after tr).retStatus = ran.stopInfo.spuStatus) ∧
      (¬ ran.Ended useEvents → (Saved.after tr).retStatus = 0) := by
  obtain ⟨u, tr₁, rfl, h₁⟩ := h.perform
  obtain ⟨tr₂, tr₃, ⟨ran', out⟩, rfl, h₂, h₃⟩ := Prog.ends_bind.mp h₁
  obtain ⟨tr₄, tr₅, rc', rfl, h₄, h₅⟩ := Prog.ends_bind.mp h₃
  obtain ⟨rfl, hres⟩ := Prog.ends_ret.mp h₅
  obtain ⟨rfl, rfl⟩ := Prod.mk.inj hres
  have hout : out.isSome ↔ ran.Ended useEvents := by
    obtain ⟨u, tr₆, tr₇, rfl, hround⟩ := h₂.repeats_last
    apply runOnce_out hround
    intro b hb
    apply hgroup b
    simp [hb]
  have hkept : (tr₂.foldl Saved.exec { Saved.init with threadStatus := 1 }).retStatus = 0 :=
    Saved.retStatus_foldl ((Prog.all_repeats.mpr fun _ => runOnce_keeps).ends h₂) _
  have hafter : Saved.after (⟨.setThreadStatus 1, u⟩ :: (tr₂ ++ (tr₄ ++ []))) =
      tr₄.foldl Saved.exec (tr₂.foldl Saved.exec { Saved.init with threadStatus := 1 }) := by
    rw [List.append_nil, Saved.after, List.foldl_cons, List.foldl_append]
    rfl
  rw [hafter]
  obtain ⟨hthread, hstatus⟩ := finish_saved h₄ (tr₂.foldl Saved.exec { Saved.init with threadStatus := 1 })
  rw [hkept] at hstatus
  refine ⟨hthread, ?_, ?_⟩
  · intro hended
    rw [hstatus, if_pos (hout.mpr hended)]
  · intro hended
    rw [hstatus, if_neg fun h => hended (hout.mp h)]

end

/-! ## What is reported -/

/-- A call that waits until the thread has ended stores its decoded status. -/
theorem speWait_status {speid : Groups.Thread} {options v : UInt32} {env : Groups.Join} {s s' : Groups.Store}
    (h : Groups.speWait speid true options env s = some (0, some v, s')) (hthread : env.threadStatus = 99) :
    v = Groups.speWaitStatus env.retStatus := by
  have hatOnce : ¬ env.AtOnce options := fun h => h.2 hthread
  unfold Groups.speWait at h
  obtain ⟨⟨found, s₁⟩, -, h⟩ := Option.bind_eq_some_iff.mp h
  cases found with
  | none =>
    have hrc := congrArg (fun x => x.map (·.1)) h
    cases hrc
  | some t =>
    obtain ⟨ts, -, h⟩ := Option.bind_eq_some_iff.mp h
    rw [if_neg hatOnce, if_neg (fun h => h.2 rfl)] at h
    split at h
    · have hrc := congrArg (fun x => x.map (·.1)) h
      cases hrc
    · obtain ⟨s₂, -, h⟩ := Option.bind_eq_some_iff.mp h
      have hv := congrArg (fun x => x.bind (·.2.1)) h
      exact (Option.some.inj hv).symm

/-- The status of a word tells how the thread has ended, if it is that of the last run and fits an `exit`. -/
theorem told_of_word {ran : Ran spe} {w : UInt32}
    (hword : Groups.speWaitStatus w = Groups.speWaitStatus ran.stopInfo.spuStatus)
    (herror : ran.res.retval = -1 → WIfSignaled (Groups.speWaitStatus w)) :
    Told ran (Groups.speWaitStatus w) ↔
      ∀ c, ran.res.frame.stopinfo.result = some (.speExitCode c) → ExitWord ran.stopInfo.spuStatus c := by
  constructor
  · intro h c hc
    have hexited := h.exited c hc
    rw [hword] at hexited
    exact (exited_iff (ran.exitCode hc)).mp hexited
  · intro h
    refine ⟨?_, fun n hn => herror (ran.error hn), ?_⟩
    · intro w' hw'
      rw [ran.spuStatus_eq] at hw'
      rw [hword, Option.some.inj hw']
    · intro c hc
      rw [hword]
      exact (exited_iff (ran.exitCode hc)).mpr (h c hc)

/-- **Waiting for a thread**: for every run of `do_spe_run` that returns and every following `spe_wait` that
stores a status, the status tells how the thread has ended exactly under the condition. -/
theorem told_iff {tr : Trace spe} {rc : Int32} {ran : Ran spe} {useEvents : Bool}
    (h : (doSpeRun spe th).Ends tr (rc, ran))
    (hgroup : ∀ b, ⟨.event (.useEvents th), b⟩ ∈ tr → b = useEvents) {speid : Groups.Thread}
    {options v : UInt32} {joined : Int} {s s' : Groups.Store}
    (hwait : Groups.speWait speid true options ((Saved.after tr).join joined) s = some (0, some v, s')) :
    Told ran v ↔ Tellable ran useEvents ran.stopInfo.spuStatus := by
  obtain ⟨hthread, hsaved, hlost⟩ := doSpeRun_saved h hgroup
  have hv := speWait_status hwait hthread
  dsimp only [Saved.join] at hv
  by_cases hended : ran.Ended useEvents
  · rw [hsaved hended] at hv
    rw [hv, told_of_word rfl]
    · exact ⟨fun h => ⟨.inl hended, h⟩, fun h => h.exits⟩
    · intro hfail
      unfold Ran.Ended at hended
      omega
  · rw [hlost hended] at hv
    rw [hv]
    constructor
    · intro htold
      have hword := htold.last _ ran.spuStatus_eq
      exact ⟨.inr hword.symm, (told_of_word hword fun _ => signaled_zero).mp htold⟩
    · intro htell
      have hword := htell.saved.resolve_left hended
      exact (told_of_word hword.symm fun _ => signaled_zero).mpr htell.exits

/-! ## Two threads -/

/-- A context as `spe_setup` creates it. -/
def threadSpe : Run.Context := ⟨speEventsEnable, 0x80, 3, 0, none, 0⟩

/-- The locals of its first run. -/
def firstFrame : Run.Frame := ⟨0x40000 - 128 + 80, Run.speDefaultEntry, 0, .untouched⟩

theorem firstRun_ends {tr : List (Sigma Run.Ans)} {res : Run.Result}
    (h : (Run.doRun threadSpe 0 firstFrame).Ends tr (.inr res)) :
    ∃ entry emulatedEntry argp envp tr,
      (Run.contextRun threadSpe entry emulatedEntry 0 argp envp).Ends tr res := by
  obtain ⟨tr₀, h₀⟩ : ∃ tr₀, (Run.setupArguments threadSpe 0 0x80 0 0).Ends tr₀ (0, 0x40000 - 128 + 80) := by
    rw [Run.setupArguments, if_pos (by decide)]
    exact ⟨[⟨.storeTrampoline ⟨.ofAddr 0, .ofAddr 0, .ofAddr 0, .ofAddr 0, ⟨0x80, 0, 0, 0⟩⟩, ()⟩], .cmd .ret⟩
  refine ⟨Run.speDefaultEntry, 0, 0, 0,
    tr₀ ++ ⟨.enterActive 3, ()⟩ :: ((tr ++ []) ++ [⟨.freespeinfo, ()⟩, ⟨.cleanupspeinfo, ()⟩]),
    Prog.ends_bind.mpr ⟨tr₀, _, (0, 0x40000 - 128 + 80), rfl, h₀, ?_⟩⟩
  show Prog.Ends ((Run.perform (.enterActive 3)).bind fun _ => _) _ _
  refine .cmd ?_
  show Prog.Ends ((Prog.repeats (Run.doRun threadSpe 0) firstFrame).bind _) _ _
  exact Prog.ends_bind.mpr ⟨_, _, res, rfl, Prog.ends_loop.mpr ⟨tr, [], .inr res, rfl, h, .ret⟩,
    .cmd (.cmd .ret)⟩

/-- A program that halts. -/
def halts : Ran threadSpe where
  res := ⟨-1, (firstFrame.ran threadSpe ⟨0x4, 0x104, 0, 0⟩).report (.speRuntimeError Run.speSpuHalt)⟩
  errno := .efault
  stopInfo := ⟨3, 4, 0x4⟩
  returned := firstRun_ends (show Prog.Ends _ [⟨.activeNpc (0x40000 - 128 + 80), ()⟩,
    ⟨.spuRun (0x40000 - 128 + 80), ⟨0x4, 0x104, 0, 0⟩⟩, ⟨.activeNpc 0x104, ()⟩, ⟨.activeStatus 0, ()⟩,
    ⟨.setErrno Run.efault, ()⟩] _ from .cmd (.cmd (.cmd (.cmd (.cmd .ret)))))
  holds := ⟨by decide, by decide, fun _ hw => Option.some.inj hw⟩

/-- A program that calls `exit(7)`. -/
def exits : Ran threadSpe where
  res := ⟨0, (firstFrame.ran threadSpe ⟨0x20070002, 0x104, 0, 0⟩).report (.speExitCode 7)⟩
  errno := .other
  stopInfo := ⟨1, 7, 0x20070002⟩
  returned := firstRun_ends (show Prog.Ends _ [⟨.activeNpc (0x40000 - 128 + 80), ()⟩,
    ⟨.spuRun (0x40000 - 128 + 80), ⟨0x20070002, 0x104, 0, 0⟩⟩, ⟨.activeNpc 0x104, ()⟩, ⟨.activeStatus 0, ()⟩] _
    from .cmd (.cmd (.cmd (.cmd .ret))))
  holds := ⟨by decide, by decide, fun _ hw => Option.some.inj hw⟩

/-- Thread 7, alone in group 1. -/
def alone : Groups.Store where
  listStart := [1]
  numListSize := 1
  groups g := if g = 1 then some ⟨0, 0, 0, [7], 1, false⟩ else none
  threads t := if t = 7 then some ⟨some 1⟩ else none
  defaultPolicy := 0
  defaultPriority := 0
  defaultEventmask := 0
  errno := .zero

/-- What thread 7 does when its program halts. -/
def haltedTrace : Trace threadSpe :=
  [⟨.setThreadStatus 1, ()⟩, ⟨.setThreadStatus 2, ()⟩, ⟨.contextRun, halts⟩, ⟨.setThreadStatus 10, ()⟩,
    ⟨.event (.loadFlag 7 .stop), false⟩, ⟨.event (.lockEvent 7), ()⟩,
    ⟨.event (.storeEvent 7 speEventSpeTrapped), ()⟩, ⟨.event (.storeData 7 4), ()⟩,
    ⟨.event (.writePipe 7 speEventSpeTrapped 4), ()⟩, ⟨.event (.unlockEvent 7), ()⟩,
    ⟨.event (.storeFlag 7 .stop true), ()⟩, ⟨.setThreadStatus 99, ()⟩]

theorem haltedTrace_ends : (doSpeRun threadSpe 7).Ends haltedTrace (4, halts) := by
  refine .cmd ?_
  show Prog.Ends ((Prog.repeats (fun _ => runOnce 7) ()).bind _) _ _
  refine Prog.ends_bind.mpr ⟨haltedTrace.tail.dropLast, [⟨.setThreadStatus 99, ()⟩], (halts, none), rfl, ?_, ?_⟩
  · refine Prog.ends_loop.mpr ⟨haltedTrace.tail.dropLast, [], .inr (halts, none), rfl, ?_, .ret⟩
    exact .cmd (.cmd (.cmd (.cmd (.cmd (.cmd (.cmd (.cmd (.cmd (.cmd .ret)))))))))
  · exact .cmd .ret

/-- A thread that halts is waited for as one that was stopped by an illegal instruction. -/
theorem halted_misreported : ∃ s', (doSpeRun threadSpe 7).Ends haltedTrace (4, halts) ∧
    Groups.speWait 7 true 0 ((Saved.after haltedTrace).join 0) alone = some (0, some 4, s') ∧
      Groups.speWaitStatus 0x4 = 6 ∧ ¬ Told halts 4 := by
  refine ⟨_, haltedTrace_ends, rfl, rfl, ?_⟩
  intro h
  have := h.last 0x4 rfl
  revert this
  decide

/-- What thread 7 does when its program calls `exit(7)`. -/
def exitedTrace : Trace threadSpe :=
  [⟨.setThreadStatus 1, ()⟩, ⟨.setThreadStatus 2, ()⟩, ⟨.contextRun, exits⟩, ⟨.setThreadStatus 10, ()⟩,
    ⟨.event (.loadFlag 7 .stop), false⟩, ⟨.setNpc 0x104, ()⟩, ⟨.setRetStatus 0x20070002, ()⟩,
    ⟨.event (.useEvents 7), false⟩, ⟨.setThreadStatus 99, ()⟩]

theorem exitedTrace_ends : (doSpeRun threadSpe 7).Ends exitedTrace ((0x20070002 : UInt32).toInt32, exits) := by
  refine .cmd ?_
  show Prog.Ends ((Prog.repeats (fun _ => runOnce 7) ()).bind _) _ _
  refine Prog.ends_bind.mpr ⟨exitedTrace.tail.take 4, exitedTrace.drop 5, (exits, some 1), rfl, ?_, ?_⟩
  · refine Prog.ends_loop.mpr ⟨exitedTrace.tail.take 4, [], .inr (exits, some 1), rfl, ?_, .ret⟩
    exact .cmd (.cmd (.cmd (.cmd .ret)))
  · exact .cmd (.cmd (.cmd (.cmd .ret)))

/-- The thread is reported as exited with 7. -/
theorem exited_told :
    ∃ s', Groups.speWait 7 true 0 ((Saved.after exitedTrace).join 0) alone = some (0, some 0x700, s') ∧
      Told exits 0x700 := by
  have hwait : Groups.speWait 7 true 0 ((Saved.after exitedTrace).join 0) alone = some (0, some 0x700, _) := rfl
  have hgroup (b : Bool) (hb : (⟨.event (.useEvents 7), b⟩ : Sigma Ans) ∈ exitedTrace) : b = false := by
    simpa [exitedTrace] using hb
  refine ⟨_, hwait, (told_iff exitedTrace_ends hgroup hwait).mpr ⟨.inl (.inl rfl), ?_⟩⟩
  intro c hc
  cases hc
  exact ⟨rfl, rfl⟩

end LibSpe2.Spe12.Status
