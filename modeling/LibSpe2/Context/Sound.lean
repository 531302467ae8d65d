import LibSpe2.Context.Ledger

/-!
# The descriptor cache and the pipe keep the ledger

`Inv` is the invariant of a context between two calls. Opening and closing a slot, and acquiring and
releasing the pipe, keep it; in between, a descriptor is held that no member records yet.

* `SysPost`, `SysKeeps` — what a program of `Sys` does to the process, and that it keeps `Inv`.
* `sysKeeps_quiet` — the commands that neither acquire nor release.
-/

namespace LibSpe2.Ctx

open Conc Function

/-- The invariant of a context. -/
structure Inv (l : Life) (spe : Spe) (s : Proc) : Prop extends Sound l spe s where
  counted : Counted l spe s

variable {l : Life} {w : Watch} {spe : Spe} {s s' : Proc} {α β : Type} {run : Code (Int × StopInfo)}

theorem Inv.calm (hs : Inv l spe s) : l.watch.Calm s := ⟨hs.faults, fun hm => (hs.areas hm).1⟩

theorem Inv.same (hs : Inv l spe s) (h : Same spe s s') : Inv l spe s' :=
  ⟨hs.toSound.same h, hs.counted.same h⟩

/-! ## Programs of `Sys` on the process -/

/-- What a program of `Sys` leads to, its runs of the context being `run`. -/
def SysPost (run : Code (Int × StopInfo)) (w : Watch) (p : Sys α) (s : Proc)
    (Q : α → Proc → Prop) : Prop :=
  CtxPost w (p.interp (implSys run)) s Q

namespace SysPost

variable {Q : α → Proc → Prop}

theorem ret {a : α} (h : Q a s) : SysPost run w (.ret a) s Q := Post.ret h

theorem bind {p : Sys α} {f : α → Sys β} {Q₁ : α → Proc → Prop} {Q : β → Proc → Prop}
    (hp : SysPost run w p s Q₁) (hf : ∀ a s₁, Q₁ a s₁ → SysPost run w (f a) s₁ Q) :
    SysPost run w (p.bind f) s Q := by
  unfold SysPost
  rw [Prog.interp_bind]
  exact Post.bind hp hf

end SysPost

/-- One command of `Sys`, and the command of the process that carries it out. -/
theorem sysPost_perform {c : LibSpe2.Cmd} {Q : LibSpe2.Ans c → Proc → Prop}
    (h : CtxPost w (implSys run c) s Q) : SysPost run w (LibSpe2.perform c) s Q := by
  unfold SysPost
  rw [Prog.interp_perform]
  exact h

theorem sysPost_load {loc : Loc} :
    SysPost run w (load loc) s fun v s' => v = s.mem loc ∧ s' = s := by
  apply sysPost_perform
  apply post_perform (c := .load loc) trivial
  intro v s' h
  obtain ⟨rfl, rfl⟩ := of_guard h
  exact ⟨rfl, rfl⟩

theorem sysPost_store {loc : Loc} {v : Int} :
    SysPost run w (store loc v) s fun _ s' => s' = s.setMem loc v := by
  apply sysPost_perform
  apply post_perform (c := .store loc v) trivial
  intro _ s' h
  exact (Option.some.inj h).symm

theorem sysPost_close {fd : Fd} (hfd : .fd fd ∈ s.live) :
    SysPost run w (LibSpe2.perform (.close fd)) s fun _ s' => s' = s.release (.fd fd) := by
  apply sysPost_perform
  exact post_release (c := .close fd) (fun _ _ he => (Option.some.inj he).symm) hfd fun _ => .ret rfl

theorem sysPost_openat {d : FdName} :
    SysPost run w (LibSpe2.perform (.openat spe d)) s fun r s' =>
      match r with
      | .error _ => s' = s
      | .ok fd => 0 ≤ fd ∧ ∃ files, s' = { s.acquire (.fd fd) with files := files } := by
  apply sysPost_perform
  apply post_step (c := .base) trivial
  intro priv s₁ h₁
  obtain ⟨-, rfl⟩ := of_guard h₁
  apply post_perform (c := .openat ..) trivial
  rintro (e | fd) s' h
  · exact (Option.some.inj h).symm
  · obtain ⟨hfree, rfl⟩ := of_guard h
    exact ⟨hfree.1, _, rfl⟩

theorem sysPost_pipe :
    SysPost run w (LibSpe2.perform (.pipe spe)) s fun r s' =>
      match r with
      | .error _ => s' = s
      | .ok (r, w) => 0 ≤ r ∧ 0 ≤ w ∧ s' = (s.acquire (.fd r)).acquire (.fd w) := by
  apply sysPost_perform
  apply post_perform (c := .pipe) trivial
  rintro (e | ⟨r, w⟩) s' h
  · exact (Option.some.inj h).symm
  · obtain ⟨⟨hr, hw, -⟩, rfl⟩ := of_guard h
    exact ⟨hr.1, hw.1, rfl⟩

/-! ## Commands that keep the ledger -/

/-- The commands that neither acquire nor release, in a context with these flags. -/
def Quiet (flags : UInt32) (spe : Spe) : LibSpe2.Cmd → Prop
  | .store loc _ => Loc.Plain spe loc
  | .openat _ _ | .close _ | .pipe _ | .baseRun _ => False
  | .readMboxStat _ | .readOutMbox _ | .writeInMbox _ _ => flags &&& speMapPs ≠ 0
  | _ => True

/-- A program of `Sys` keeps the invariant, and its result satisfies `Φ`. -/
def SysKeeps (run : Code (Int × StopInfo)) (l : Life) (spe : Spe) (p : Sys α)
    (Φ : α → Prop := fun _ => True) : Prop :=
  ∀ s, Inv l spe s → SysPost run l.watch p s fun a s' => Inv l spe s' ∧ Φ a

namespace SysKeeps

variable {Φ : α → Prop} {Ψ : β → Prop}

theorem post {p : Sys α} (hp : SysKeeps run l spe p Φ) (hs : Inv l spe s) :
    SysPost run l.watch p s fun a s' => Inv l spe s' ∧ Φ a := hp s hs

theorem ret {a : α} (h : Φ a) : SysKeeps run l spe (.ret a) Φ := fun _ hs => .ret ⟨hs, h⟩

theorem bind {p : Sys α} {f : α → Sys β} (hp : SysKeeps run l spe p Φ)
    (hf : ∀ a, Φ a → SysKeeps run l spe (f a) Ψ) : SysKeeps run l spe (p.bind f) Ψ :=
  fun s hs => (hp s hs).bind fun a s' h => hf a h.2 s' h.1

end SysKeeps

/-- A command that leaves the process as it is. -/
theorem post_still {c : Cmd} (h : ∀ r s', exec () c r s = some s' → s' = s) :
    CtxPost w (perform c) s fun _ s' => s' = s :=
  Post.cmd (fun r s' hs he => (h r s' he).symm ▸ hs) fun r s' he => .ret (h r s' he)

/-- An access to a problem-state area in a context that maps them. -/
theorem post_access {a : PsArea} (hs : Inv l spe s) (h : l.flags &&& speMapPs ≠ 0) :
    CtxPost l.watch (perform (.access a)) s fun _ s' => Inv l spe s' := by
  have hinv (r : Unit) (s' : Proc) (he : exec () (.access a) r s = some s') : Inv l spe s' := by
    obtain rfl := Option.some.inj he
    exact ⟨hs.toSound.noteAccess h, counted_noteAccess hs.counted⟩
  exact Post.cmd (fun r s' _ he => (hinv r s' he).calm) fun r s' he => .ret (hinv r s' he)

theorem post_access_then {a : PsArea} {c : Cmd} (hs : Inv l spe s)
    (h : l.flags &&& speMapPs ≠ 0) (hc : ∀ r s s', exec () c r s = some s' → s' = s) :
    CtxPost l.watch ((perform (.access a)).bind fun _ => perform c) s fun _ s' =>
      Inv l spe s' ∧ True := by
  refine (post_access hs h).bind fun _ s₁ hs₁ => ?_
  refine (post_still fun r s' he => hc r s₁ s' he).mono fun _ s' hs' => ?_
  exact ⟨hs' ▸ hs₁, trivial⟩

theorem sysKeeps_quiet {c : LibSpe2.Cmd} (hc : Quiet l.flags spe c) :
    SysKeeps run l spe (LibSpe2.perform c) := by
  intro s hs
  apply sysPost_perform
  have hsame {c' : Cmd} (h : ∀ r s', exec () c' r s = some s' → s' = s) :
      CtxPost l.watch (perform c') s fun _ s' => Inv l spe s' ∧ True :=
    (post_still h).mono fun _ s' hs' => ⟨hs' ▸ hs, trivial⟩
  cases c with
  | openat spe d => exact hc.elim
  | close fd => exact hc.elim
  | pipe spe => exact hc.elim
  | baseRun spe => exact hc.elim
  | store loc v =>
    apply post_perform (c := .store loc v) trivial
    intro r s' he
    exact ⟨Option.some.inj he ▸ hs.same (same_setMem hc), trivial⟩
  | load loc => exact hsame fun r s' he => (of_guard he).2.symm
  | flags spe =>
    apply post_step (c := .base) trivial
    intro priv s₁ h₁
    exact .ret ⟨(of_guard h₁).2 ▸ hs, trivial⟩
  | readMboxStat spe => exact post_access_then hs hc fun _ _ _ he => (Option.some.inj he).symm
  | readOutMbox spe => exact post_access_then hs hc fun _ _ _ he => (Option.some.inj he).symm
  | writeInMbox spe w => exact post_access_then hs hc fun _ _ _ he => (Option.some.inj he).symm
  | _ => exact hsame fun r s' he => (Option.some.inj he).symm

/-- A program all of whose commands are quiet. -/
theorem SysKeeps.of_all {p : Sys α} (h : p.All (Quiet l.flags spe)) : SysKeeps run l spe p := by
  intro s hs
  have hcmd (c : LibSpe2.Cmd) (hc : Quiet l.flags spe c) :
      Keeps machine () l.watch.Calm (Inv l spe) (implSys run c) := by
    have hquiet : SysKeeps run l spe (LibSpe2.perform c) := sysKeeps_quiet hc
    unfold SysKeeps SysPost at hquiet
    simp only [Prog.interp_perform] at hquiet
    exact hquiet
  exact (Keeps.interp h hcmd).post hs

/-! ## The descriptor cache -/

theorem Inv.fill {d : FdName} {fd : Fd} {files : Fd → String} (hs : Inv l spe s)
    (hd : s.mem (.speFdsArray spe d) = -1) (hfd : 0 ≤ fd) :
    Inv l spe ({ s.acquire (.fd fd) with files := files }.setMem (.speFdsArray spe d) fd) where
  toHolds := hs.toHolds.fill hd hfd
  flags := hs.flags
  event := hs.event
  hasEvent := hs.hasEvent
  isolate := hs.isolate
  areas := hs.areas
  counted := hs.counted

theorem Inv.clear {d : FdName} (hs : Inv l spe s) (hd : s.mem (.speFdsArray spe d) ≠ -1) :
    Inv l spe ((s.release (.fd (s.mem (.speFdsArray spe d)))).setMem (.speFdsArray spe d) (-1)) where
  toHolds := hs.toHolds.clear hd
  flags := (congrArg BasePriv.flags release_base).trans hs.flags
  event := release_eventPrivate.trans hs.event
  hasEvent := hs.hasEvent
  isolate := hs.isolate
  areas hl := by
    show (s.release _).wild = [] ∧ (_ → ∀ a, (s.release _).base.area a ≠ none)
    rw [release_wild, release_base]
    exact hs.areas hl
  counted he hc i := by
    rw [setMem_of_ne (by simp), release_mem] at hc ⊢
    exact hs.counted he hc i

/-- `_base_spe_open_if_closed`. -/
theorem keeps_openIfClosed {d : FdName} : SysKeeps run l spe (baseSpeOpenIfClosed spe d false) := by
  -- what follows once the slot has been looked after
  have tail : SysKeeps run l spe (do
      baseSpeContextUnlock spe d
      let fd ← load (.speFdsArray spe d)
      note (.openReturned spe d fd)
      return fd) := by
    refine .bind (sysKeeps_quiet trivial) fun _ _ => ?_
    refine .bind (sysKeeps_quiet trivial) fun fd _ => ?_
    exact .bind (sysKeeps_quiet trivial) fun _ _ => .ret trivial
  -- a slot that has just been opened, or not
  have counted : SysKeeps run l spe (do
      let fd ← load (.speFdsArray spe d)
      if fd > 0 then
        let n ← load (.speFdsRefcount spe d)
        store (.speFdsRefcount spe d) (toInt32 (n + 1))
      baseSpeContextUnlock spe d
      let fd ← load (.speFdsArray spe d)
      note (.openReturned spe d fd)
      return fd) := by
    refine .bind (sysKeeps_quiet trivial) fun fd _ => ?_
    split
    · refine .bind (sysKeeps_quiet trivial) fun n _ => ?_
      exact .bind (sysKeeps_quiet trivial) fun _ _ => tail
    · exact tail
  refine .bind (sysKeeps_quiet trivial) fun _ _ => ?_
  intro s hs
  refine .bind sysPost_load ?_
  rintro fd s ⟨rfl, rfl⟩
  by_cases hfd : s.mem (.speFdsArray spe d) = -1
  · simp only [hfd, ne_eq, not_true_eq_false, ↓reduceIte]
    refine .bind sysPost_openat ?_
    rintro (e | fd) s₁ h₁
    · -- the slot is stored as it was
      obtain rfl := h₁
      refine .bind sysPost_store ?_
      rintro _ _ rfl
      have hsame : s₁.setMem (.speFdsArray spe d) (-1) = s₁ := by
        rw [Proc.setMem, ← hfd, update_eq_self]
      rw [hsame]
      refine SysKeeps.post ?_ hs
      exact .bind (sysKeeps_quiet trivial) fun _ _ => counted
    · obtain ⟨hpos, files, rfl⟩ := h₁
      refine .bind sysPost_store ?_
      rintro _ _ rfl
      refine SysKeeps.post ?_ (hs.fill hfd hpos)
      exact .bind (sysKeeps_quiet trivial) fun _ _ => counted
  · simp only [hfd, ne_eq, not_false_eq_true, ↓reduceIte]
    refine SysKeeps.post ?_ hs
    refine .bind (sysKeeps_quiet trivial) fun n _ => ?_
    refine .bind (sysKeeps_quiet trivial) fun _ _ => ?_
    exact .bind (sysKeeps_quiet trivial) fun _ _ => tail

/-- `_base_spe_close_if_open`. -/
theorem keeps_closeIfOpen {d : FdName} : SysKeeps run l spe (baseSpeCloseIfOpen spe d) := by
  have tail (fd : Fd) : SysKeeps run l spe (do
      note (.closed spe d fd)
      baseSpeContextUnlock spe d) :=
    .bind (sysKeeps_quiet trivial) fun _ _ => sysKeeps_quiet trivial
  refine .bind (sysKeeps_quiet trivial) fun _ _ => ?_
  intro s hs
  refine .bind sysPost_load ?_
  rintro fd s ⟨rfl, rfl⟩
  refine .bind sysPost_load ?_
  rintro n s ⟨rfl, rfl⟩
  split
  · next hopen =>
    refine .bind sysPost_store ?_
    rintro _ s₁ h₁
    have hs₁ : Inv l spe s₁ := h₁ ▸ hs.same (same_setMem trivial)
    have hfd : s₁.mem (.speFdsArray spe d) = s.mem (.speFdsArray spe d) := by
      rw [h₁, setMem_of_ne (by simp)]
    rw [← hfd]
    refine .bind (sysPost_close (hs₁.slot_live (hfd ▸ hopen.1))) ?_
    rintro _ _ rfl
    refine .bind sysPost_store ?_
    rintro _ _ rfl
    exact tail _ _ (hs₁.clear (hfd ▸ hopen.1))
  · split
    · refine SysKeeps.post ?_ hs
      exact .bind (sysKeeps_quiet trivial) fun _ _ => tail _
    · exact tail _ s hs

/-! ## The pipe -/

theorem Sound.closeEnd {i : Fin 2} (hs : Sound l spe s) (he : l.event = true)
    (hi : s.mem (.stopEventPipe spe i) ≠ -1) : Sound l spe (s.closeEnd spe i) where
  toHolds := hs.toHolds.closeEnd he hi
  flags := (congrArg BasePriv.flags release_base).trans hs.flags
  event := release_eventPrivate.trans hs.event
  hasEvent := hs.hasEvent
  isolate := hs.isolate
  areas hl := by
    show (s.release _).wild = [] ∧ (_ → ∀ a, (s.release _).base.area a ≠ none)
    rw [release_wild, release_base]
    exact hs.areas hl

theorem Sound.openPipe {r w : Fd} (hs : Sound l spe s) (he : l.event = true)
    (hclosed : ∀ i, s.mem (.stopEventPipe spe i) = -1) (hr : 0 ≤ r) (hw : 0 ≤ w) :
    Sound l spe (s.openPipe spe r w) where
  toHolds := hs.toHolds.openPipe he hclosed hr hw
  flags := hs.flags
  event := hs.event
  hasEvent := hs.hasEvent
  isolate := hs.isolate
  areas := hs.areas

/-- `s'` has the pipe of `s` closed at the end `i`, if it was not. -/
def Proc.endClosed (s : Proc) (spe : Spe) (i : Fin 2) : Proc :=
  if s.mem (.stopEventPipe spe i) ≠ -1 then s.closeEnd spe i else s

theorem endClosed_mem_self (i : Fin 2) : (s.endClosed spe i).mem (.stopEventPipe spe i) = -1 := by
  unfold Proc.endClosed
  split
  · exact closeEnd_mem_self i
  · next h => exact not_not.mp h

theorem endClosed_mem_of_ne {i : Fin 2} {loc : Loc} (h : loc ≠ .stopEventPipe spe i) :
    (s.endClosed spe i).mem loc = s.mem loc := by
  unfold Proc.endClosed
  split
  · exact closeEnd_mem_of_ne h
  · rfl

theorem Holds.endClosed {i : Fin 2} (hs : Holds l spe s) (he : l.event = true) :
    Holds l spe (s.endClosed spe i) := by
  unfold Proc.endClosed
  split
  · next h => exact hs.closeEnd he h
  · exact hs

/-- One end is closed in a context whose ledger has the pipe. -/
theorem sysPost_pipeCloseEnd {i : Fin 2} (hs : Holds l spe s) (he : l.event = true) :
    SysPost run w (stopEventPipeCloseEnd spe i) s fun _ s' => s' = s.endClosed spe i := by
  refine .bind sysPost_load ?_
  rintro fd s ⟨rfl, rfl⟩
  unfold Proc.endClosed
  split
  · next h =>
    refine .bind (sysPost_close (hs.end_live he h)) ?_
    rintro _ _ rfl
    exact sysPost_store
  · exact .ret rfl

theorem sysPost_pipeClose (hs : Holds l spe s) (he : l.event = true) :
    SysPost run w (stopEventPipeClose spe) s fun _ s' =>
      s' = (s.endClosed spe 0).endClosed spe 1 := by
  refine .bind (sysPost_pipeCloseEnd hs he) ?_
  rintro _ _ rfl
  refine .bind (sysPost_pipeCloseEnd (hs.endClosed he) he) ?_
  rintro _ _ rfl
  exact .ret rfl

theorem Sound.endClosed {i : Fin 2} (hs : Sound l spe s) (he : l.event = true) :
    Sound l spe (s.endClosed spe i) := by
  unfold Proc.endClosed
  split
  · next h => exact hs.closeEnd he h
  · exact hs

/-- Both ends after the pipe has been closed. -/
theorem closePipe_mem (i : Fin 2) :
    ((s.endClosed spe 0).endClosed spe 1).mem (.stopEventPipe spe i) = -1 := by
  match i with
  | 0 => rw [endClosed_mem_of_ne (by simp), endClosed_mem_self]
  | 1 => exact endClosed_mem_self 1

theorem Sound.closePipe (hs : Sound l spe s) (he : l.event = true) :
    Inv l spe ((s.endClosed spe 0).endClosed spe 1) :=
  ⟨(hs.endClosed he).endClosed he, fun _ _ i => closePipe_mem i⟩

/-- A command that leaves the process as it is. -/
theorem sysPost_still {c : LibSpe2.Cmd} (hc : implSys run c = perform (.sys c)) :
    SysPost run w (LibSpe2.perform c) s fun _ s' => s' = s := by
  apply sysPost_perform
  rw [hc]
  apply post_still
  intro r s' h
  exact (Option.some.inj h).symm

/-- Opening the pipe for the first one who is counted: the invariant holds again unless it succeeds. -/
theorem sysPost_pipeOpen (hs : Inv l spe s) (he : l.event = true)
    (hclosed : ∀ i, s.mem (.stopEventPipe spe i) = -1) :
    SysPost run w (stopEventPipeOpen spe) s fun rc s' =>
      if rc = -1 then Inv l spe s'
      else Sound l spe s' ∧
        s'.mem (.stopEventHandlerCount spe) = s.mem (.stopEventHandlerCount spe) := by
  refine .bind sysPost_pipe ?_
  rintro (e | ⟨fd₀, fd₁⟩) s₁ h₁
  · obtain rfl := h₁
    exact .ret hs
  obtain ⟨hr, hw, rfl⟩ := h₁
  refine .bind sysPost_store ?_
  rintro _ _ rfl
  refine .bind sysPost_store ?_
  rintro _ _ rfl
  have hs₂ := hs.toSound.openPipe he hclosed hr hw
  have hcount : (s.openPipe spe fd₀ fd₁).mem (.stopEventHandlerCount spe) =
      s.mem (.stopEventHandlerCount spe) := openPipe_mem_of_ne (by simp)
  -- `fcntl` fails and the pipe is closed again
  have hfail : SysPost run w (do
      let _ ← stopEventPipeClose spe
      return (-1 : Int)) (s.openPipe spe fd₀ fd₁) fun rc s' => if rc = -1 then Inv l spe s' else
        Sound l spe s' ∧
          s'.mem (.stopEventHandlerCount spe) = s.mem (.stopEventHandlerCount spe) := by
    refine .bind (sysPost_pipeClose hs₂.toHolds he) ?_
    rintro _ _ rfl
    exact .ret (hs₂.closePipe he)
  refine .bind sysPost_load ?_
  rintro fd _ ⟨-, rfl⟩
  refine .bind (sysPost_still rfl) ?_
  rintro (e | nonblock) _ rfl
  · exact hfail
  refine .bind sysPost_load ?_
  rintro fd' _ ⟨-, rfl⟩
  refine .bind (sysPost_still rfl) ?_
  rintro (e | _) _ rfl
  · exact hfail
  · exact .ret ⟨hs₂, hcount⟩

/-- The count of the pipe is stored; this keeps all but what is said about the count. -/
theorem Sound.setCount {n : Int} (hs : Sound l spe s) :
    Sound l spe (s.setMem (.stopEventHandlerCount spe) n) := by
  have hmem {loc : Loc} (h : loc ≠ .stopEventHandlerCount spe) :
      (s.setMem (.stopEventHandlerCount spe) n).mem loc = s.mem loc := setMem_of_ne h
  have howned : (s.setMem (.stopEventHandlerCount spe) n).owned spe l.event =
      s.owned spe l.event := by
    unfold Proc.owned Proc.pipeFds
    rw [slotFds_congr fun d _ => hmem (by simp), hmem (by simp), hmem (by simp)]
    rfl
  exact {
    live := howned ▸ hs.live
    faults := hs.faults
    slots := fun d => by
      rw [hmem (by simp)]
      exact hs.slots d
    ends := fun he i => by
      rw [hmem (by simp)]
      exact hs.ends he i
    flags := hs.flags
    event := hs.event
    hasEvent := hs.hasEvent
    isolate := hs.isolate
    areas := hs.areas }

theorem keeps_pipeAcquire (he : l.event = true) :
    SysKeeps run l spe (stopEventPipeAcquire spe) := by
  -- one more, from a state in which that is right
  have count {s : Proc} (hs : Sound l spe s)
      (h : s.mem (.stopEventHandlerCount spe) ≠ 0 → Counted l spe s) : SysPost run l.watch (do
        let count ← load (.stopEventHandlerCount spe)
        store (.stopEventHandlerCount spe) (count + 1)
        return (0 : Int)) s fun _ s' => Inv l spe s' ∧ True := by
    refine .bind sysPost_load ?_
    rintro n s ⟨rfl, rfl⟩
    refine .bind sysPost_store ?_
    rintro _ _ rfl
    refine .ret ⟨⟨hs.setCount, fun _ hc i => ?_⟩, trivial⟩
    rw [setMem_self] at hc
    rw [setMem_of_ne (by simp)]
    exact h (by omega) he (by omega) i
  intro s hs
  refine .bind sysPost_load ?_
  rintro n s ⟨rfl, rfl⟩
  split
  · next hzero =>
    refine .bind (sysPost_pipeOpen hs he (hs.counted he hzero.le)) ?_
    intro rc s₁ h₁
    dsimp only
    split
    · next hrc =>
      rw [if_pos hrc] at h₁
      exact .ret ⟨h₁, trivial⟩
    · next hrc =>
      rw [if_neg hrc] at h₁
      refine .bind sysPost_store ?_
      rintro _ _ rfl
      have hsame : Same spe s₁ (s₁.setMem (.stopEventBufferCount spe) 0) := same_setMem trivial
      refine count (h₁.1.same hsame) fun h => absurd ?_ h
      rw [hsame.count, h₁.2, hzero]
  · next hne => exact count hs.toSound fun _ => hs.counted

theorem keeps_pipeRelease (he : l.event = true) :
    SysKeeps run l spe (stopEventPipeRelease spe) := by
  intro s hs
  refine .bind sysPost_load ?_
  rintro n s ⟨rfl, rfl⟩
  refine .bind sysPost_store ?_
  rintro _ s₁ h₁
  have hs₁ : Sound l spe s₁ := h₁ ▸ hs.toSound.setCount
  refine .bind sysPost_load ?_
  rintro m s₁ ⟨rfl, rfl⟩
  split
  · refine .bind (sysPost_pipeClose hs₁.toHolds he) ?_
    rintro _ _ rfl
    exact .ret ⟨hs₁.closePipe he, trivial⟩
  · next hne =>
    refine .ret ⟨⟨hs₁, fun _ hc i => ?_⟩, trivial⟩
    rw [h₁, setMem_self] at hc hne
    rw [h₁, setMem_of_ne (by simp)]
    -- it was not positive before
    exact hs.counted he (by omega) i

end LibSpe2.Ctx
