import LibSpe2.SpeEvent.StopInv

/-!
# The stop-event pipe: one command at a time

For each command of the event layer, what it does to the stages of `SpeEvent/StopInv.lean`, as a
rule for the programs of `SpeEvent/StopPipe.lean` to be assembled from.

* `safe_harmless` — the commands that have nothing to do with any pipe, all at once;
* `safe_held` — the commands of the holder of a `stop_event_lock`; one lemma for each follows.
-/

namespace LibSpe2

open Function (update)

/-! ## The protocol -/

/-- Reads fail only with `EAGAIN` and `poll` only with `EINTR`. -/
def retryErrors : Tid → (c : Cmd) → Ans c → World → Prop
  | _, .read _ _, .error e, _ => e = .EAGAIN
  | _, .poll _, .error e, _ => e = .EINTR
  | _, _, _, _ => True

def okStop (strict : Prop) (t : Tid) (c : Cmd) (r : Ans c) (s : World) : Prop :=
  strict → retryErrors t c r s

/-- An end of a pipe is closed only by the holder of the lock when nobody uses the pipe, a stop info
is written only to the pipe that the run saw under the lock, and a pipe that is read does not block
its reader. -/
def stopPre (t : Tid) : Cmd → World → Prop
  | .close fd, s => ∀ q, EndOf s fd q →
    Unused (s.pipes q).spe s ∧ s.owner (.stopEventLock (s.pipes q).spe) = some t
  | .write fd _, s => ∃ q, s.hist.saw t = some q ∧ s.fds fd = some (.pipeW q)
  | .read fd _, s => ∃ q, s.fds fd = some (.pipeR q) ∧ (s.pipes q).nonblock = true
  | _, _ => True

/-- The protocol of the stop-event pipes. -/
def stopProto (strict : Prop) : Conc.Proto Cmd Tid World Stage where
  idle := Stage.idle
  inv := StopInv strict
  pre := stopPre

/-- `p` of thread `t` keeps to the protocol. -/
abbrev StopSafe (strict : Prop) (t : Tid) {α : Type} (p : Sys α) (g : Stage)
    (Q : α → Stage → Prop) : Prop :=
  (stopProto strict).Safe machine (okStop strict) t p g Q

section

variable {strict : Prop} {t : Tid} {γ : Tid → Stage} {s s' : World} {g : Stage} {c : Spe} {φ : Held}

/-! ## Commands that have nothing to do with a pipe -/

/-- The commands that are `Quiet` in every state. -/
def Cmd.Harmless : Cmd → Prop
  | .lock (.stopEventLock _) | .unlock (.stopEventLock _) => False
  | .store (.speFdsRefcount _ _) _ | .store (.stopEventBufferCount _) _ => True
  | .store _ _ => False
  | .close _ | .pipe _ | .fcntlSetfl _ _ | .read _ _ | .write _ _ => False
  | .epollAdd _ _ _ | .epollDel _ _ => False
  | .note (.registered _) | .note (.deregistered _) => False
  | .note (.runAcquired _ _) | .note (.runReleased _) => False
  | .noteStopInfo _ _ => False
  | _ => True

theorem Quiet.refl (s : World) : Quiet s s := by
  constructor <;> simp

/-- Fields that no stop-event pipe depends on. -/
theorem Quiet.fields (s : World) (flags buffer records mailboxes errno) :
    Quiet s { s with
      flags := flags, buffer := buffer, records := records, mailboxes := mailboxes,
      errno := errno } := by
  constructor <;> simp

theorem Quiet.history (s : World) (h : History) (hr : h.registrations = s.hist.registrations)
    (hd : h.deregistrations = s.hist.deregistrations) (hu : h.runs = s.hist.runs)
    (hs : h.saw = s.hist.saw) : Quiet s { s with hist := h } := by
  constructor <;> simp [hr, hd, hu, hs]

/-- A loaded value says nothing new. -/
theorem quiet_of_guard {P : Prop} [Decidable P] (he : (if P then some s else none) = some s') :
    Quiet s s' := by
  obtain ⟨-, rfl⟩ := of_guard he
  exact .refl s

theorem quiet_of_harmless {cmd : Cmd} (hc : cmd.Harmless) {r : Ans cmd}
    (he : exec t cmd r s = some s') : Quiet s s' := by
  cases cmd with
  | lock m | unlock m =>
    obtain ⟨-, rfl⟩ := of_guard he
    cases m with
    | stopEventLock => exact hc.elim
    | _ => constructor <;> simp [World.setOwner]
  | load | flags | loadBuffer | loadRecord | errno | readMboxStat => exact quiet_of_guard he
  | store l v =>
    obtain rfl := Option.some.inj he
    cases l with
    | speFdsRefcount | stopEventBufferCount => constructor <;> simp [World.setMem]
    | _ => exact hc.elim
  | storeBuffer | storeRecord | clearRecord | setErrno =>
    obtain rfl := Option.some.inj he
    exact .fields ..
  | openat spe d =>
    cases r with
    | error e =>
      obtain rfl := Option.some.inj he
      exact .fields ..
    | ok fd =>
      obtain ⟨⟨hle, hfree⟩, rfl⟩ := of_guard he
      constructor <;> simp [World.openFd]
      intro x
      by_cases hx : x = fd
      · subst hx
        exact .inr ⟨hfree, hle, spe, d, by simp⟩
      · exact .inl (by simp [hx])
  | fcntlGetfl fd =>
    cases r with
    | error e =>
      obtain rfl := Option.some.inj he
      exact .fields ..
    | ok nonblock =>
      simp only [exec] at he
      split at he
      · exact quiet_of_guard he
      · cases he
  | poll | epollWait =>
    cases r with
    | error e =>
      obtain rfl := Option.some.inj he
      exact .fields ..
    | ok n =>
      obtain ⟨-, rfl⟩ := of_guard he
      first | exact .refl s | exact .history _ _ rfl rfl rfl rfl
  | malloc =>
    obtain rfl := Option.some.inj he
    split
    · exact .refl s
    · exact .fields ..
  | baseRun =>
    obtain rfl := Option.some.inj he
    exact .refl s
  | readOutMbox =>
    simp only [exec] at he
    split at he
    · obtain ⟨-, rfl⟩ := of_guard he
      constructor <;> simp [World.setMailboxes]
    · obtain rfl := Option.some.inj he
      exact .history _ _ rfl rfl rfl rfl
  | spuPop =>
    simp only [exec] at he
    split at he
    · obtain ⟨-, rfl⟩ := of_guard he
      constructor <;> simp [World.setMailboxes]
    · cases he
  | writeInMbox =>
    obtain rfl := Option.some.inj he
    constructor <;> simp [World.setMailboxes]
  | spuPush =>
    obtain ⟨-, rfl⟩ := of_guard he
    constructor <;> simp [World.setMailboxes]
  | note n =>
    obtain ⟨h, hn, rfl⟩ := Option.map_eq_some_iff.mp he
    cases n with
    | registered | deregistered | runAcquired | runReleased => exact hc.elim
    | closing =>
      obtain ⟨-, rfl⟩ := of_guard hn
      exact .history _ _ rfl rfl rfl rfl
    | _ =>
      obtain rfl := Option.some.inj hn
      exact .history _ _ rfl rfl rfl rfl
  | _ => exact hc.elim

theorem Cmd.Harmless.pre {cmd : Cmd} (hc : cmd.Harmless) : stopPre t cmd s := by
  cases cmd <;> trivial

theorem safe_harmless {cmd : Cmd} (hc : cmd.Harmless) :
    StopSafe strict t (perform cmd) g fun _ g' => g' = g := by
  refine .perform fun γ s hi hg => ⟨hc.pre, fun r s' _ he => ⟨g, ?_, rfl⟩⟩
  subst hg
  have hq := quiet_of_harmless hc he
  exact hi.quiet hq rfl rfl fun fd hfd => hq.isSource (hi.source t fd hfd)

/-- A thread may forget its source at any time. -/
theorem safe_forget {cmd : Cmd} (hc : cmd.Harmless) :
    StopSafe strict t (perform cmd) g fun _ g' => g' = { g with source := none } := by
  refine .perform fun γ s hi hg => ⟨hc.pre, fun r s' _ he => ⟨{ g with source := none }, ?_, rfl⟩⟩
  subst hg
  exact hi.quiet (quiet_of_harmless hc he) rfl rfl nofun

/-! ## Commands of the holder of a lock -/

/-- **A command of the holder**: it is allowed, it is about this pipe only, and the pipe is in a
stage again, of which the writers know as much as before. -/
theorem safe_held {cmd : Cmd} {Q : Ans cmd → Stage → Prop}
    (h : ∀ s, Files s → Shape strict c φ s → s.owner (.stopEventLock c) = some t →
      stopPre t cmd s ∧ ∀ r s', okStop strict t cmd r s → exec t cmd r s = some s' →
        ∃ φ', Local c s s' ∧ Shape strict c φ' s' ∧
          (φ'.writeEnd = φ.writeEnd ∨ s.hist.runs c = []) ∧ Q r (g.hold c φ')) :
    StopSafe strict t (perform cmd) (g.hold c φ) Q := by
  refine .perform fun γ s hi hg => ?_
  have hφ := hi.held (show (γ t).held = some (c, φ) by simp [hg])
  obtain ⟨hp, hr⟩ := h s hi.files hφ.shape (hφ.owner (by simp [hg]))
  refine ⟨hp, fun r s' ho he => ?_⟩
  obtain ⟨φ', hl, hs, hw, hQ⟩ := hr r s' ho he
  exact ⟨_, hi.local hg hl hs hw, hQ⟩

theorem Keeps.of_same (hm : ∀ i, s'.mem (.stopEventPipe c i) = s.mem (.stopEventPipe c i))
    (hc : s'.mem (.stopEventHandlerCount c) = s.mem (.stopEventHandlerCount c))
    (hp : s'.pipes = s.pipes) (hn : s'.nextPipe = s.nextPipe)
    (he : ∀ fd q, EndOf s fd q → (s.pipes q).spe = c →
      s'.fds fd = s.fds fd ∧ ∀ h, s'.epoll h fd = s.epoll h fd)
    (hr : s'.hist.registrations c = s.hist.registrations c)
    (hd : s'.hist.deregistrations c = s.hist.deregistrations c)
    (hu : s'.hist.runs c = s.hist.runs c) : Keeps c s s' :=
  ⟨hm, hc, hn.ge, fun _ _ _ => by rw [hp], fun _ hq hs => ⟨hn ▸ hq, hp ▸ hs⟩, he, hr, hd, hu⟩

theorem EndOf.inj {fd : Fd} {p q : PipeId} (h : EndOf s fd p) (h' : EndOf s fd q) : p = q := by
  rcases h with h | h <;> rcases h' with h' | h' <;> rw [h] at h' <;> injections

/-- The ends of pipes of different contexts are different descriptors. -/
theorem EndOf.ne {fd fd' : Fd} {p q : PipeId} {c' : Spe} (hf : EndOf s fd p)
    (hp : (s.pipes p).spe = c) (hf' : EndOf s fd' q) (hq : (s.pipes q).spe = c') (hne : c' ≠ c) :
    fd' ≠ fd := by
  rintro rfl
  obtain rfl := hf.inj hf'
  exact hne (hq.symm.trans hp)

/-- Storing to a member of the pipe of `c`. -/
theorem Local.setMem {l : Loc} {v : Int}
    (hl : l = .stopEventHandlerCount c ∨ ∃ i, l = .stopEventPipe c i) :
    Local c s (s.setMem l v) where
  files h := by
    refine ⟨h.numbers, h.sets, h.ends, fun c' d hne => ?_⟩
    have : Loc.speFdsArray c' d ≠ l := by rcases hl with rfl | ⟨i, rfl⟩ <;> simp
    simp only [World.setMem, ne_eq, this, not_false_eq_true, Function.update_of_ne] at hne ⊢
    exact h.arrays c' d hne
  source _ h := h
  others c' hne := by
    refine .of_same (fun j => ?_) ?_ rfl rfl (fun _ _ _ _ => ⟨rfl, fun _ => rfl⟩) rfl rfl rfl
    · rcases hl with rfl | ⟨i, rfl⟩ <;> simp [World.setMem, hne]
    · rcases hl with rfl | ⟨i, rfl⟩ <;> simp [World.setMem, hne]
  owner := rfl
  runs := rfl
  saw := rfl

/-- Recording a registration or deregistration of `c`. -/
theorem Local.history {h : History}
    (hr : ∀ c', c' ≠ c → h.registrations c' = s.hist.registrations c')
    (hd : ∀ c', c' ≠ c → h.deregistrations c' = s.hist.deregistrations c')
    (hu : h.runs = s.hist.runs) (hs : h.saw = s.hist.saw) : Local c s { s with hist := h } where
  files hf := ⟨hf.numbers, hf.sets, hf.ends, hf.arrays⟩
  source _ h := h
  others c' hne := .of_same (fun _ => rfl) rfl rfl rfl (fun _ _ _ _ => ⟨rfl, fun _ => rfl⟩)
    (hr c' hne) (hd c' hne) (congrFun hu c')
  owner := rfl
  runs := hu
  saw := hs

/-- Changing an epoll set at an end of a pipe of `c`. -/
theorem Local.setEpoll {h : Handler} {fd : Fd} {p : PipeId} {e : Option EpollEntry}
    (hf : EndOf s fd p) (hp : (s.pipes p).spe = c) : Local c s (s.setEpoll h fd e) where
  files hs := by
    refine ⟨hs.numbers, fun x fd' hx => ?_, hs.ends, hs.arrays⟩
    by_cases hfd : fd' = fd
    · subst hfd
      exact hf.open
    · refine hs.sets x fd' ?_
      by_cases hxh : x = h
      · subst hxh
        simpa [World.setEpoll, hfd] using hx
      · simpa [World.setEpoll, hxh] using hx
  source _ h := h
  others c' hne := by
    refine .of_same (fun _ => rfl) rfl rfl rfl (fun fd' q hq hc => ⟨rfl, fun x => ?_⟩) rfl rfl rfl
    have hfd := hf.ne hp hq hc hne
    by_cases hxh : x = h
    · subst hxh
      simp [World.setEpoll, hfd]
    · simp [World.setEpoll, hxh]
  owner := rfl
  runs := rfl
  saw := rfl

theorem keeps_setPipe {p : PipeId} {x : Pipe} {c' : Spe} (hp : (s.pipes p).spe = c) (hx : x.spe = c)
    (hne : c' ≠ c) : Keeps c' s (s.setPipe p x) where
  pipe _ := rfl
  count := rfl
  next := le_rfl
  old q _ hq := by
    have : q ≠ p := by rintro rfl; exact hne (hq.symm.trans hp)
    simp [World.setPipe, this]
  new q hlt hq := by
    have : q ≠ p := by rintro rfl; exact hne (by simpa [World.setPipe, hx] using hq.symm)
    exact ⟨hlt, by simpa [World.setPipe, this] using hq⟩
  ends _ _ _ _ := ⟨rfl, fun _ => rfl⟩
  registrations := rfl
  deregistrations := rfl
  runs := rfl

/-- Updating a pipe of `c`. -/
theorem Local.setPipe {p : PipeId} {x : Pipe} (hp : (s.pipes p).spe = c) (hx : x.spe = c) :
    Local c s (s.setPipe p x) where
  files h := ⟨h.numbers, h.sets, h.ends, h.arrays⟩
  source _ h := h
  others _ hne := keeps_setPipe hp hx hne
  owner := rfl
  runs := rfl
  saw := rfl

/-- Closing an end of a pipe of `c`, which updates the pipe. -/
theorem Local.close {fd : Fd} {p : PipeId} {x : Pipe} (hf : EndOf s fd p)
    (hp : (s.pipes p).spe = c) (hx : x.spe = c) : Local c s ((s.setPipe p x).closeFd fd) where
  files h := by
    have hopen {fd'} (h : ((s.setPipe p x).closeFd fd).fds fd' ≠ none) : fd' ≠ fd := by
      rintro rfl
      simp [World.closeFd] at h
    refine ⟨fun fd' hfd => ?_, fun y fd' hy => ?_, fun fd' q he => ?_, fun c' d hne => ?_⟩
    · have hne := hopen hfd
      exact h.numbers fd' (by simpa [World.closeFd, World.setPipe, hne] using hfd)
    · have hne : fd' ≠ fd := by rintro rfl; simp [World.closeFd] at hy
      have := h.sets y fd' (by simpa [World.closeFd, World.setPipe, hne] using hy)
      simpa [World.closeFd, World.setPipe, hne] using this
    · have hne := hopen he.open
      exact h.ends fd' q (by simpa [EndOf, World.closeFd, World.setPipe, hne] using he)
    · have hs := h.arrays c' d hne
      have hne : s.mem (.speFdsArray c' d) ≠ fd := by
        intro heq
        exact hs.ne_end (heq ▸ hf)
      simpa [IsSource, World.closeFd, World.setPipe, hne] using hs
  source fd' hs := by
    have hne : fd' ≠ fd := by
      rintro rfl
      exact hs.ne_end hf
    simpa [IsSource, World.closeFd, World.setPipe, hne] using hs
  others c' hne := by
    have hk := keeps_setPipe (s := s) (p := p) (x := x) hp hx hne
    refine ⟨hk.pipe, hk.count, hk.next, hk.old, hk.new, fun fd' q he hc => ?_, rfl, rfl, rfl⟩
    have hfd := hf.ne hp he hc hne
    simp [World.closeFd, World.setPipe, hfd]
  owner := rfl
  runs := rfl
  saw := rfl

theorem newPipe_fds {r w fd : Fd} (hr : s.FreeFd r) (hw : s.FreeFd w) (h : s.fds fd ≠ none) :
    (s.newPipe c r w).fds fd = s.fds fd := by
  have hfr : fd ≠ r := by rintro rfl; exact h hr.2
  have hfw : fd ≠ w := by rintro rfl; exact h hw.2
  simp [World.newPipe, hfr, hfw]

theorem endOf_newPipe {r w fd : Fd} {q : PipeId} (h : EndOf (s.newPipe c r w) fd q) :
    q = s.nextPipe ∨ EndOf s fd q := by
  simp only [EndOf, World.newPipe, Function.update_apply] at h ⊢
  grind

/-- A new pipe of `c`. -/
theorem Local.newPipe {r w : Fd} (hr : s.FreeFd r) (hw : s.FreeFd w) :
    Local c s (s.newPipe c r w) where
  files h := by
    refine ⟨fun fd hfd => ?_, fun x fd hx => ?_, fun fd q he => ?_, fun c' d hne => ?_⟩
    · by_cases hopen : s.fds fd = none
      · by_cases hfw : fd = w
        · exact hfw ▸ hw.1
        · by_cases hfr : fd = r
          · exact hfr ▸ hr.1
          · simp [World.newPipe, hfr, hfw, hopen] at hfd
      · exact h.numbers fd hopen
    · have hopen := h.sets x fd hx
      rwa [newPipe_fds hr hw hopen]
    · rcases endOf_newPipe he with rfl | he
      · exact Nat.lt_succ_self _
      · exact Nat.lt_succ_of_lt (h.ends fd q he)
    · have hs := h.arrays c' d hne
      rw [IsSource]
      exact (newPipe_fds hr hw hs.open).symm ▸ hs
  source fd hs := by
    rw [IsSource]
    exact (newPipe_fds hr hw hs.open).symm ▸ hs
  others c' hne := by
    refine ⟨fun _ => rfl, rfl, Nat.le_succ _, fun q hq _ => ?_, fun q hq hc => ?_,
      fun fd q he _ => ⟨newPipe_fds hr hw he.open, fun _ => rfl⟩, rfl, rfl, rfl⟩
    · simp [World.newPipe, hq.ne]
    · have hne' : q ≠ s.nextPipe := by
        rintro rfl
        exact hne (by simpa [World.newPipe, Pipe.fresh] using hc.symm)
      exact ⟨(Nat.lt_succ_iff.mp hq).lt_of_ne hne', by simpa [World.newPipe, hne'] using hc⟩
  owner := rfl
  runs := rfl
  saw := rfl

end

end LibSpe2
