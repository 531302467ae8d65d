import LibSpe2.Conc.Solo
import LibSpe2.Sys.Frame
import LibSpe2.SpeEvent.Event

/-!
# The footprint of an acquisition

What `__base_spe_event_source_acquire` and the counted pipe of `stop_event_pipe_acquire` and
`stop_event_pipe_release` change when nobody else moves, and what they leave as it was.

* `EpollOpen` — only open descriptors are in an epoll set.
* `PipeIdle` — a pipe without users has no descriptors.
* `Acquired` — what is there after the pipe was acquired.

## Main results

* `acquire_solo` — an acquisition changes the members of its slot, unless the slot was closed and its file
  could not be opened;
* `stopEventPipeAcquire_solo`, `stopEventPipeRelease_solo` — a release undoes an acquisition of the pipe,
  but for the buffer.
-/

namespace LibSpe2.FailedCall

open Conc (Prog Config Solo)

section

variable {t : Tid} {s s₁ s' : World} {c : Spe} {d : FdName} {tr tr₁ tr₂ : List (Sigma Ans)}

/-! ## Epoll sets hold open descriptors -/

/-- Only open descriptors are in an epoll set. -/
def EpollOpen (s : World) : Prop := ∀ h fd, s.epoll h fd ≠ none → s.fds fd ≠ none

theorem EpollOpen.none (hs : EpollOpen s) {h : Handler} {fd : Fd} (hfree : s.fds fd = none) :
    s.epoll h fd = none := by
  by_contra hne
  exact hs h fd hne hfree

theorem EpollOpen.exec (hs : EpollOpen s) {cmd : Cmd} {r : Ans cmd}
    (he : exec t cmd r s = some s') : EpollOpen s' := by
  have hsame (hf : ¬ cmd.Touches .fds) (hp : ¬ cmd.Touches .epoll) : EpollOpen s' := by
    have hfds : s'.fds = s.fds := exec_same hf he
    have hepoll : s'.epoll = s.epoll := exec_same hp he
    unfold EpollOpen
    rw [hfds, hepoll]
    exact hs
  cases cmd with
  | openat spe d =>
    cases r with
    | error e =>
      obtain rfl := Option.some.inj he
      exact hs
    | ok fd =>
      obtain ⟨-, rfl⟩ := of_guard he
      intro h' fd' hne
      by_cases hfd : fd' = fd
      · simp [World.openFd, hfd]
      · simpa [World.openFd, hfd] using hs h' fd' hne
  | pipe spe =>
    cases r with
    | error e =>
      obtain rfl := Option.some.inj he
      exact hs
    | ok rw =>
      obtain ⟨-, rfl⟩ := of_guard he
      intro h' fd' hne
      by_cases hw : fd' = rw.2
      · simp [World.newPipe, hw]
      · by_cases hr : fd' = rw.1
        · simp [World.newPipe, hr, hr ▸ hw]
        · simpa [World.newPipe, hr, hw] using hs h' fd' hne
  | close fd =>
    obtain rfl := Option.some.inj he
    have hfds : (s.noteClose fd).fds = s.fds := content_noteClose (p := .fds) fd
    have hepoll : (s.noteClose fd).epoll = s.epoll := content_noteClose (p := .epoll) fd
    intro h' fd' hne
    by_cases hfd : fd' = fd
    · simp [World.closeFd, hfd] at hne
    · simp only [World.closeFd, hepoll, hfds, Function.update_of_ne hfd] at hne ⊢
      exact hs h' fd' hne
  | epollAdd h₀ fd e =>
    cases r with
    | error =>
      obtain rfl := Option.some.inj he
      exact hs
    | ok =>
      obtain ⟨⟨hopen, -⟩, rfl⟩ := of_guard he
      intro h' fd' hne
      by_cases hh : h' = h₀
      · by_cases hfd : fd' = fd
        · exact hfd ▸ hopen
        · exact hs h' fd' (by simpa [World.setEpoll, hh, hfd] using hne)
      · exact hs h' fd' (by simpa [World.setEpoll, hh] using hne)
  | epollDel h₀ fd =>
    cases r with
    | error =>
      obtain rfl := Option.some.inj he
      exact hs
    | ok =>
      obtain ⟨-, rfl⟩ := of_guard he
      intro h' fd' hne
      by_cases hh : h' = h₀
      · by_cases hfd : fd' = fd
        · simp [World.setEpoll, hh, hfd] at hne
        · exact hs h' fd' (by simpa [World.setEpoll, hh, hfd] using hne)
      · exact hs h' fd' (by simpa [World.setEpoll, hh] using hne)
  | note n => exact hsame (by cases n <;> exact id) (by cases n <;> exact id)
  | _ => exact hsame id id

theorem epollOpen_reach {cfg : Config Cmd Ans Tid World} (hr : eventSystem.Reachable cfg) :
    EpollOpen cfg.shared := by
  refine hr.invariant (I := EpollOpen) ?_ fun _ _ _ _ _ hs _ he => hs.exec he
  intro s hs h' fd hne
  exact absurd (hs.epoll h' fd) hne

/-- No call on its own breaks this. -/
theorem EpollOpen.solo {α : Type} {p : Sys α} (hs : EpollOpen s) :
    Solo machine t p s fun _ _ s' => EpollOpen s' :=
  fun _ _ _ _ hplay => machine.play_invariant (I := EpollOpen) (fun _ _ _ _ _ hs he => hs.exec he) hplay hs

/-! ## Traces -/

/-- A call of `epoll_ctl`. -/
def IsEpollCtl : Sigma Ans → Prop
  | ⟨.epollAdd _ _ _, _⟩ | ⟨.epollDel _ _, _⟩ => True
  | _ => False

/-- No `epoll_ctl` so far. -/
def NoEpollCtl (tr : List (Sigma Ans)) : Prop := ∀ e ∈ tr, ¬ IsEpollCtl e

@[simp] theorem noEpollCtl_nil : NoEpollCtl [] := nofun

@[simp] theorem noEpollCtl_cons {e : Sigma Ans} : NoEpollCtl (e :: tr) ↔ ¬ IsEpollCtl e ∧ NoEpollCtl tr :=
  List.forall_mem_cons

theorem NoEpollCtl.append (h₁ : NoEpollCtl tr₁) (h₂ : NoEpollCtl tr₂) : NoEpollCtl (tr₁ ++ tr₂) := by
  intro e he
  rcases List.mem_append.mp he with he | he
  · exact h₁ e he
  · exact h₂ e he

/-! ## Slots -/

/-- What the calls are about: the sets, the records, the buffers and the `int` members. -/
structure SameData (s s' : World) : Prop where
  epoll : s'.epoll = s.epoll
  records : s'.records = s.records
  buffer : s'.buffer = s.buffer
  mem : s'.mem = s.mem

theorem SameData.trans (h₁ : SameData s s₁) (h₂ : SameData s₁ s') : SameData s s' :=
  ⟨h₂.epoll.trans h₁.epoll, h₂.records.trans h₁.records, h₂.buffer.trans h₁.buffer, h₂.mem.trans h₁.mem⟩

/-- Only the members of one slot have changed. -/
structure Elsewhere (c : Spe) (d : FdName) (s s' : World) : Prop where
  epoll : s'.epoll = s.epoll
  records : s'.records = s.records
  buffer : s'.buffer = s.buffer
  mem : ∀ l, l ≠ .speFdsArray c d → l ≠ .speFdsRefcount c d → s'.mem l = s.mem l

theorem Elsewhere.same (he : Elsewhere c d s s₁) (hs : SameData s₁ s') : Elsewhere c d s s' where
  epoll := hs.epoll.trans he.epoll
  records := hs.records.trans he.records
  buffer := hs.buffer.trans he.buffer
  mem l h₁ h₂ := (congrFun hs.mem l).trans (he.mem l h₁ h₂)

/-- The slot was closed, and its file has not been opened. -/
def SlotClean (c : Spe) (d : FdName) (s : World) (tr : List (Sigma Ans)) : Prop :=
  s.mem (.speFdsArray c d) = -1 ∧ ∀ fd, ⟨.openat c d, .ok fd⟩ ∉ tr

theorem SlotClean.of_append (h : SlotClean c d s (tr₁ ++ tr₂)) : SlotClean c d s tr₁ :=
  ⟨h.1, fun fd hfd => h.2 fd (List.mem_append_left _ hfd)⟩

theorem not_slotClean (fd : Fd) (h : ⟨.openat c d, .ok fd⟩ ∈ tr) : ¬ SlotClean c d s tr :=
  fun hclean => hclean.2 fd h

theorem mem_ne_of {u u' : World} {l : Loc} (h : u'.mem l ≠ u.mem l) : u'.mem ≠ u.mem :=
  fun heq => h (congrFun heq l)

theorem toInt32_succ_ne (n : Int) : toInt32 (n + 1) ≠ n := by
  unfold toInt32
  rw [Int.bmod_def]
  split <;> omega

/-- What an open does after the unlock. -/
theorem openReturn_solo : Solo machine t (do
      baseSpeContextUnlock c d
      let fd ← load (.speFdsArray c d)
      note (.openReturned c d fd)
      return fd) s fun tr fd s' => SameData s s' ∧ fd = s.mem (.speFdsArray c d) ∧
        tr = [⟨.unlock (.fdLock c d), ()⟩, ⟨.load (.speFdsArray c d), fd⟩,
          ⟨.note (.openReturned c d fd), ()⟩] := by
  refine .perform fun _ s₁ h₁ => ?_
  obtain ⟨-, rfl⟩ := of_guard h₁
  refine .perform fun fd s₂ h₂ => ?_
  obtain ⟨rfl, rfl⟩ := of_guard h₂
  refine .perform fun _ s₃ h₃ => ?_
  obtain rfl := Option.some.inj h₃
  exact .ret ⟨⟨rfl, rfl, rfl, rfl⟩, rfl, rfl⟩

/-- **An acquisition changes its slot**, unless the slot was closed and its file has not been opened; then it
returns `-1`. -/
theorem acquire_solo : Solo machine t (baseSpeEventSourceAcquire c d) s fun tr fd s' =>
    Elsewhere c d s s' ∧ (s'.mem = s.mem ↔ SlotClean c d s tr) ∧ (SlotClean c d s tr → fd = -1) ∧
    NoEpollCtl tr := by
  refine .perform fun _ s₁ h₁ => ?_
  obtain ⟨-, rfl⟩ := of_guard h₁
  refine .perform fun fd s₂ h₂ => ?_
  obtain ⟨rfl, rfl⟩ := of_guard h₂
  by_cases hfd : s.mem (.speFdsArray c d) = -1
  · -- a closed slot
    simp only [World.setOwner, hfd, ne_eq, not_true_eq_false, ↓reduceIte]
    refine .perform fun x s₃ h₃ => ?_
    cases x with
    | error e =>
      obtain rfl := Option.some.inj h₃
      refine .perform fun _ s₄ h₄ => ?_
      obtain rfl := Option.some.inj h₄
      refine .perform fun _ s₅ h₅ => ?_
      obtain rfl := Option.some.inj h₅
      refine .perform fun fd s₆ h₆ => ?_
      obtain ⟨rfl, rfl⟩ := of_guard h₆
      have hneg : ¬ (-1 : Int) > 0 := by decide
      simp only [World.setMem, World.setErrno, Function.update_self, hneg, ↓reduceIte]
      refine openReturn_solo.mono ?_
      rintro tr fd s' ⟨hs, rfl, rfl⟩
      have hmem : s'.mem = s.mem := by
        rw [hs.mem]
        exact Function.update_eq_self_iff.mpr hfd.symm
      refine ⟨⟨hs.epoll, hs.records, hs.buffer, ?_⟩, ?_, ?_, ?_⟩
      · intro l _ _
        exact congrFun hmem l
      · refine iff_of_true hmem ⟨hfd, ?_⟩
        simp
      · simp
      · simp [IsEpollCtl]
    | ok x =>
      obtain ⟨⟨hx, -⟩, rfl⟩ := of_guard h₃
      refine .perform fun _ s₄ h₄ => ?_
      obtain rfl := Option.some.inj h₄
      refine .perform fun _ s₅ h₅ => ?_
      obtain rfl := Option.some.inj h₅
      refine .perform fun fd s₆ h₆ => ?_
      obtain ⟨rfl, rfl⟩ := of_guard h₆
      by_cases hpos : x > 0
      · -- a counted descriptor
        simp only [World.setMem, World.openFd, Function.update_self, hpos, ↓reduceIte]
        refine .perform fun n s₇ h₇ => ?_
        obtain ⟨rfl, rfl⟩ := of_guard h₇
        refine .perform fun _ s₈ h₈ => ?_
        obtain rfl := Option.some.inj h₈
        refine openReturn_solo.mono ?_
        rintro tr fd s' ⟨hs, rfl, rfl⟩
        refine ⟨⟨hs.epoll, hs.records, hs.buffer, ?_⟩, iff_of_false ?_ (not_slotClean x (by simp)),
          fun h => absurd h (not_slotClean x (by simp)), ?_⟩
        · intro l hl hl'
          simp [hs.mem, World.setMem, hl, hl']
        · refine mem_ne_of (l := .speFdsRefcount c d) ?_
          simpa [hs.mem, World.setMem] using toInt32_succ_ne _
        · simp [IsEpollCtl]
      · -- descriptor `0` is stored, but not counted
        simp only [World.setMem, World.openFd, Function.update_self, hpos, ↓reduceIte]
        refine openReturn_solo.mono ?_
        rintro tr fd s' ⟨hs, rfl, rfl⟩
        refine ⟨⟨hs.epoll, hs.records, hs.buffer, ?_⟩, iff_of_false ?_ (not_slotClean x (by simp)),
          fun h => absurd h (not_slotClean x (by simp)), ?_⟩
        · intro l hl _
          simp [hs.mem, hl]
        · refine mem_ne_of (l := .speFdsArray c d) ?_
          simp only [hs.mem, Function.update_self, hfd]
          exact fun h : x = -1 => absurd (h ▸ hx) (by decide)
        · simp [IsEpollCtl]
  · -- an open slot
    simp only [World.setOwner, ne_eq, hfd, not_false_eq_true, ↓reduceIte]
    refine .perform fun n s₃ h₃ => ?_
    obtain ⟨rfl, rfl⟩ := of_guard h₃
    refine .perform fun _ s₄ h₄ => ?_
    obtain rfl := Option.some.inj h₄
    refine .perform fun _ s₅ h₅ => ?_
    obtain rfl := Option.some.inj h₅
    refine openReturn_solo.mono ?_
    rintro tr fd s' ⟨hs, rfl, rfl⟩
    refine ⟨⟨hs.epoll, hs.records, hs.buffer, ?_⟩, iff_of_false ?_ fun h => hfd h.1, fun h => absurd h.1 hfd, ?_⟩
    · intro l _ hl
      simp [hs.mem, World.setMem, hl]
    · refine mem_ne_of (l := .speFdsRefcount c d) ?_
      simpa [hs.mem, World.setMem] using toInt32_succ_ne _
    · simp [IsEpollCtl]

/-! ## The pipe -/

/-- What is left alone around the pipe of `c`; its descriptors may have been replaced. -/
structure PipeOnly (c : Spe) (s s' : World) : Prop where
  records : s'.records = s.records
  buffer : s'.buffer = s.buffer
  mem : ∀ l, (∀ i, l ≠ .stopEventPipe c i) → s'.mem l = s.mem l

theorem PipeOnly.trans (h₁ : PipeOnly c s s₁) (h₂ : PipeOnly c s₁ s') : PipeOnly c s s' where
  records := h₂.records.trans h₁.records
  buffer := h₂.buffer.trans h₁.buffer
  mem l hl := (h₂.mem l hl).trans (h₁.mem l hl)

theorem PipeOnly.same (h₁ : PipeOnly c s s₁) (h₂ : SameData s₁ s') : PipeOnly c s s' where
  records := h₂.records.trans h₁.records
  buffer := h₂.buffer.trans h₁.buffer
  mem l hl := (congrFun h₂.mem l).trans (h₁.mem l hl)

/-- The descriptors of the pipe are in no set. -/
def PipeUnwatched (c : Spe) (s : World) : Prop := ∀ i h, s.epoll h (s.mem (.stopEventPipe c i)) = none

/-- The pipe has no descriptors. -/
def NoPipe (c : Spe) (s : World) : Prop := ∀ i, s.mem (.stopEventPipe c i) = -1

/-- A pipe without users has no descriptors. -/
def PipeIdle (c : Spe) (s : World) : Prop := s.mem (.stopEventHandlerCount c) = 0 → NoPipe c s

theorem PipeOnly.mem_eq (h : PipeOnly c s s') (hends : ∀ i, s'.mem (.stopEventPipe c i) = s.mem (.stopEventPipe c i)) :
    s'.mem = s.mem := by
  funext l
  by_cases hl : ∃ i, l = .stopEventPipe c i
  · obtain ⟨i, rfl⟩ := hl
    exact hends i
  · exact h.mem l fun i hi => hl ⟨i, hi⟩

/-- Both ends were closed: sets have only lost entries, and none if the pipe was in no set. -/
structure Closed (c : Spe) (s s' : World) : Prop extends PipeOnly c s s' where
  noPipe : NoPipe c s'
  none : ∀ h fd, s.epoll h fd = none → s'.epoll h fd = none
  unwatched : PipeUnwatched c s → s'.epoll = s.epoll

/-- One end. -/
theorem stopEventPipeCloseEnd_solo (i : Fin 2) : Solo machine t (stopEventPipeCloseEnd c i) s fun tr _ s' =>
    (s'.records = s.records ∧ s'.buffer = s.buffer ∧ ∀ l, l ≠ .stopEventPipe c i → s'.mem l = s.mem l) ∧
      s'.mem (.stopEventPipe c i) = -1 ∧ (∀ h fd, s.epoll h fd = none → s'.epoll h fd = none) ∧
      ((∀ h, s.epoll h (s.mem (.stopEventPipe c i)) = none) → s'.epoll = s.epoll) ∧ NoEpollCtl tr := by
  refine .perform fun fd s₁ h₁ => ?_
  obtain ⟨rfl, rfl⟩ := of_guard h₁
  by_cases hfd : s.mem (.stopEventPipe c i) = -1
  · simp only [hfd, ne_eq, not_true_eq_false, ↓reduceIte]
    exact .ret ⟨⟨rfl, rfl, fun _ _ => rfl⟩, hfd, fun _ _ h => h, fun _ => rfl, by simp [IsEpollCtl]⟩
  · simp only [ne_eq, hfd, not_false_eq_true, ↓reduceIte]
    generalize s.mem (.stopEventPipe c i) = fd at *
    refine .perform fun _ s₂ h₂ => ?_
    obtain rfl := Option.some.inj h₂
    refine .cmd fun _ s₃ h₃ => ?_
    obtain rfl := Option.some.inj h₃
    have hrecords : (s.noteClose fd).records = s.records := content_noteClose (p := .records) fd
    have hbuffer : (s.noteClose fd).buffer = s.buffer := content_noteClose (p := .buffer) fd
    have hmem : (s.noteClose fd).mem = s.mem := content_noteClose (p := .mem) fd
    have hepoll : (s.noteClose fd).epoll = s.epoll := content_noteClose (p := .epoll) fd
    refine .ret ⟨⟨hrecords, hbuffer, fun l hl => ?_⟩, ?_, fun h fd' hnone => ?_, fun hnone => ?_, ?_⟩
    · simp [World.setMem, World.closeFd, hl, hmem]
    · simp [World.setMem]
    · by_cases heq : fd' = fd
      · simp [World.setMem, World.closeFd, heq]
      · simpa [World.setMem, World.closeFd, heq, hepoll] using hnone
    · funext h fd'
      by_cases heq : fd' = fd
      · simp [World.setMem, World.closeFd, heq, hnone h]
      · simp [World.setMem, World.closeFd, heq, hepoll]
    · simp [IsEpollCtl]

theorem stopEventPipeClose_solo :
    Solo machine t (stopEventPipeClose c) s fun tr _ s' => Closed c s s' ∧ NoEpollCtl tr := by
  refine .bind ((stopEventPipeCloseEnd_solo 0).mono ?_)
  rintro tr₁ _ s₁ ⟨⟨hrecords₁, hbuffer₁, hmem₁⟩, hend₁, hnone₁, hsame₁, htr₁⟩
  refine .bind ((stopEventPipeCloseEnd_solo 1).mono ?_)
  rintro tr₂ _ s₂ ⟨⟨hrecords₂, hbuffer₂, hmem₂⟩, hend₂, hnone₂, hsame₂, htr₂⟩
  refine .ret ⟨⟨⟨hrecords₂.trans hrecords₁, hbuffer₂.trans hbuffer₁, fun l hl => ?_⟩, ?_, ?_, fun hun => ?_⟩, ?_⟩
  · exact (hmem₂ l (hl 1)).trans (hmem₁ l (hl 0))
  · exact Fin.forall_fin_two.mpr ⟨(hmem₂ _ (by simp)).trans hend₁, hend₂⟩
  · exact fun h fd hnone => hnone₂ h fd (hnone₁ h fd hnone)
  · have hother : s₁.mem (.stopEventPipe c 1) = s.mem (.stopEventPipe c 1) := hmem₁ _ (by simp)
    have hnone : ∀ h, s₁.epoll h (s₁.mem (.stopEventPipe c 1)) = none := by
      intro h
      rw [hother]
      exact hnone₁ h _ (hun 1 h)
    rw [hsame₂ hnone, hsame₁ fun h => hun 0 h]
  · rw [List.append_nil]
    exact htr₁.append htr₂

/-- A pipe that was opened is in no set; one that could not be opened has left nothing behind. -/
theorem stopEventPipeOpen_solo (hs : EpollOpen s) : Solo machine t (stopEventPipeOpen c) s fun tr rc s' =>
    PipeOnly c s s' ∧ s'.epoll = s.epoll ∧ (rc ≠ -1 → PipeUnwatched c s') ∧
      (rc = -1 → NoPipe c s → NoPipe c s') ∧ NoEpollCtl tr := by
  refine .perform fun x s₁ h₁ => ?_
  cases x with
  | error e =>
    obtain rfl := Option.some.inj h₁
    refine .ret ⟨⟨rfl, rfl, fun _ _ => rfl⟩, rfl, fun h => absurd rfl h, fun _ h => h, ?_⟩
    simp [IsEpollCtl]
  | ok x =>
    obtain ⟨r, w⟩ := x
    obtain ⟨⟨hr, hw, -⟩, rfl⟩ := of_guard h₁
    refine .perform fun _ s₂ h₂ => ?_
    obtain rfl := Option.some.inj h₂
    refine .perform fun _ s₃ h₃ => ?_
    obtain rfl := Option.some.inj h₃
    -- the world with both descriptors stored
    generalize hs₃ : ((s.newPipe c r w).setMem (.stopEventPipe c 0) r).setMem (.stopEventPipe c 1) w = s₃
    have honly : PipeOnly c s s₃ := by
      subst hs₃
      refine ⟨rfl, rfl, fun l hl => ?_⟩
      simp [World.setMem, World.newPipe, hl 0, hl 1]
    have hepoll : s₃.epoll = s.epoll := by
      subst hs₃
      rfl
    have hun : PipeUnwatched c s₃ := by
      subst hs₃
      have hr' (h : Handler) : s.epoll h r = none := hs.none hr.2
      have hw' (h : Handler) : s.epoll h w = none := hs.none hw.2
      refine Fin.forall_fin_two.mpr ⟨fun h => ?_, fun h => ?_⟩
      · simpa [World.setMem, World.newPipe] using hr' h
      · simpa [World.setMem, World.newPipe] using hw' h
    have hfail {s₄ : World} (hsame : SameData s₃ s₄) : Solo machine t (do
        let _ ← stopEventPipeClose c
        return (-1 : Int)) s₄ fun tr rc s' =>
          PipeOnly c s s' ∧ s'.epoll = s.epoll ∧ (rc ≠ -1 → PipeUnwatched c s') ∧
            (rc = -1 → NoPipe c s → NoPipe c s') ∧ NoEpollCtl tr := by
      refine .bind (stopEventPipeClose_solo.mono ?_)
      rintro tr _ s₅ ⟨hclosed, htr⟩
      have hun₄ : PipeUnwatched c s₄ := by
        intro i h
        rw [hsame.epoll, hsame.mem]
        exact hun i h
      refine .ret ⟨(honly.same hsame).trans hclosed.toPipeOnly, ?_, fun h => absurd rfl h,
        fun _ _ => hclosed.noPipe, ?_⟩
      · rw [hclosed.unwatched hun₄, hsame.epoll, hepoll]
      · rwa [List.append_nil]
    refine .perform fun fd s₄ h₄ => ?_
    obtain ⟨-, rfl⟩ := of_guard h₄
    refine .perform fun x s₅ h₅ => ?_
    cases x with
    | error e =>
      obtain rfl := Option.some.inj h₅
      have hsame : SameData s₃ (s₃.setErrno t e) := ⟨rfl, rfl, rfl, rfl⟩
      refine (hfail hsame).mono ?_
      rintro tr rc s' ⟨hpipe, hsets, hgood, hbad, htr⟩
      exact ⟨hpipe, hsets, hgood, hbad, by simp [IsEpollCtl, htr]⟩
    | ok nonblock =>
      have hsame₅ : SameData s₃ s₅ := by
        simp only [machine, exec] at h₅
        split at h₅
        · obtain ⟨-, rfl⟩ := of_guard h₅
          exact ⟨rfl, rfl, rfl, rfl⟩
        · cases h₅
      refine .perform fun fd s₆ h₆ => ?_
      obtain ⟨-, rfl⟩ := of_guard h₆
      refine .perform fun x s₇ h₇ => ?_
      cases x with
      | error e =>
        obtain rfl := Option.some.inj h₇
        have hsame : SameData s₅ (s₅.setErrno t e) := ⟨rfl, rfl, rfl, rfl⟩
        refine (hfail (hsame₅.trans hsame)).mono ?_
        rintro tr rc s' ⟨hpipe, hsets, hgood, hbad, htr⟩
        exact ⟨hpipe, hsets, hgood, hbad, by simp [IsEpollCtl, htr]⟩
      | ok u =>
        have hsame₇ : SameData s₅ s₇ := by
          simp only [machine, exec] at h₇
          split at h₇
          · obtain rfl := Option.some.inj h₇
            exact ⟨rfl, rfl, rfl, rfl⟩
          · cases h₇
        have hsame := hsame₅.trans hsame₇
        refine .ret ⟨honly.same hsame, hsame.epoll.trans hepoll, fun _ i h => ?_, fun h => absurd h (by decide),
          by simp [IsEpollCtl]⟩
        rw [hsame.epoll, hsame.mem]
        exact hun i h

/-! ## Acquiring and releasing the pipe -/

/-- The pipe after it was acquired: it is counted, and the buffer is invalid if it had to be opened. -/
structure Acquired (c : Spe) (s s' : World) : Prop where
  epoll : s'.epoll = s.epoll
  records : s'.records = s.records
  buffer : s'.buffer = s.buffer
  count : s'.mem (.stopEventHandlerCount c) = s.mem (.stopEventHandlerCount c) + 1
  bufferCount : s'.mem (.stopEventBufferCount c) =
    if s.mem (.stopEventHandlerCount c) = 0 then 0 else s.mem (.stopEventBufferCount c)
  mem : ∀ l, (∀ i, l ≠ .stopEventPipe c i) → l ≠ .stopEventHandlerCount c → l ≠ .stopEventBufferCount c →
    s'.mem l = s.mem l
  ends : s.mem (.stopEventHandlerCount c) ≠ 0 → ∀ i, s'.mem (.stopEventPipe c i) = s.mem (.stopEventPipe c i)
  unwatched : s.mem (.stopEventHandlerCount c) = 0 → PipeUnwatched c s'

/-- An acquisition counts, or fails with the sets as they were, and with nothing changed if a pipe without users
has no descriptors. -/
theorem stopEventPipeAcquire_solo (hs : EpollOpen s) :
    Solo machine t (stopEventPipeAcquire c) s fun tr rc s' =>
      (rc = -1 → s'.epoll = s.epoll ∧ (PipeIdle c s → SameData s s')) ∧ (rc ≠ -1 → Acquired c s s') ∧
        NoEpollCtl tr := by
  refine .perform fun n s₁ h₁ => ?_
  obtain ⟨rfl, rfl⟩ := of_guard h₁
  by_cases hzero : s.mem (.stopEventHandlerCount c) = 0
  · simp only [hzero, ↓reduceIte]
    refine .bind ((stopEventPipeOpen_solo hs).mono ?_)
    rintro tr rc s₂ ⟨hpipe, hepoll, hgood, hbad, htr⟩
    by_cases hrc : rc = -1
    · rw [if_pos hrc]
      refine .ret ⟨fun _ => ⟨hepoll, fun hidle => ⟨hepoll, hpipe.records, hpipe.buffer, ?_⟩⟩, fun h => absurd rfl h, ?_⟩
      · have hshut := hidle hzero
        exact hpipe.mem_eq fun i => (hbad hrc hshut i).trans (hshut i).symm
      · simp [IsEpollCtl, htr]
    · rw [if_neg hrc]
      refine .perform fun _ s₃ h₃ => ?_
      obtain rfl := Option.some.inj h₃
      refine .perform fun n s₄ h₄ => ?_
      obtain ⟨rfl, rfl⟩ := of_guard h₄
      refine .perform fun _ s₅ h₅ => ?_
      obtain rfl := Option.some.inj h₅
      have hcount := hpipe.mem (.stopEventHandlerCount c) (by simp)
      refine .ret ⟨fun h => absurd h (by decide),
        fun _ => ⟨hepoll, hpipe.records, hpipe.buffer, ?_, ?_, ?_, fun h => absurd hzero h, ?_⟩, ?_⟩
      · simp [World.setMem, hcount]
      · simp [World.setMem, hzero]
      · intro l hl hn hb
        simp [World.setMem, hn, hb, hpipe.mem l hl]
      · intro _ i h
        simpa [World.setMem] using hgood hrc i h
      · simp [IsEpollCtl, htr, NoEpollCtl.append]
  · simp only [hzero, ↓reduceIte]
    refine .perform fun n s₂ h₂ => ?_
    obtain ⟨rfl, rfl⟩ := of_guard h₂
    refine .perform fun _ s₃ h₃ => ?_
    obtain rfl := Option.some.inj h₃
    refine .ret ⟨fun h => absurd h (by decide), fun _ => ⟨rfl, rfl, rfl, ?_, ?_, ?_, ?_, ?_⟩, by simp [IsEpollCtl]⟩
    · simp [World.setMem]
    · simp [World.setMem, hzero]
    · intro l _ hn _
      simp [World.setMem, hn]
    · intro _ i
      simp [World.setMem]
    · exact fun h => absurd h hzero

/-- A release uncounts, and closes the pipe when the count comes to 0. -/
structure Released (c : Spe) (s s' : World) : Prop where
  records : s'.records = s.records
  buffer : s'.buffer = s.buffer
  count : s'.mem (.stopEventHandlerCount c) = s.mem (.stopEventHandlerCount c) - 1
  mem : ∀ l, (∀ i, l ≠ .stopEventPipe c i) → l ≠ .stopEventHandlerCount c → s'.mem l = s.mem l
  last : s.mem (.stopEventHandlerCount c) = 1 → NoPipe c s'
  ends : s.mem (.stopEventHandlerCount c) ≠ 1 → ∀ i, s'.mem (.stopEventPipe c i) = s.mem (.stopEventPipe c i)
  none : ∀ h fd, s.epoll h fd = none → s'.epoll h fd = none
  epoll : (s.mem (.stopEventHandlerCount c) = 1 → PipeUnwatched c s) → s'.epoll = s.epoll

theorem stopEventPipeRelease_solo :
    Solo machine t (stopEventPipeRelease c) s fun tr _ s' => Released c s s' ∧ NoEpollCtl tr := by
  refine .perform fun n s₁ h₁ => ?_
  obtain ⟨rfl, rfl⟩ := of_guard h₁
  refine .perform fun _ s₂ h₂ => ?_
  obtain rfl := Option.some.inj h₂
  refine .perform fun n s₃ h₃ => ?_
  obtain ⟨rfl, rfl⟩ := of_guard h₃
  generalize hs₂ : s.setMem (.stopEventHandlerCount c) (s.mem (.stopEventHandlerCount c) - 1) = s₂
  have hcount : s₂.mem (.stopEventHandlerCount c) = s.mem (.stopEventHandlerCount c) - 1 := by
    subst hs₂
    simp [World.setMem]
  have hmem : ∀ l, l ≠ .stopEventHandlerCount c → s₂.mem l = s.mem l := by
    intro l hl
    subst hs₂
    simp [World.setMem, hl]
  have hfields : s₂.epoll = s.epoll ∧ s₂.records = s.records ∧ s₂.buffer = s.buffer := by
    subst hs₂
    exact ⟨rfl, rfl, rfl⟩
  obtain ⟨hepoll, hrecords, hbuffer⟩ := hfields
  by_cases hlast : s₂.mem (.stopEventHandlerCount c) = 0
  · rw [if_pos hlast]
    refine .bind (stopEventPipeClose_solo.mono ?_)
    rintro tr _ s₄ ⟨hclosed, htr⟩
    refine .ret ⟨⟨hclosed.records.trans hrecords, hclosed.buffer.trans hbuffer, ?_, ?_, fun _ => hclosed.noPipe,
      fun h => absurd ?_ h, ?_, ?_⟩, ?_⟩
    · rw [hclosed.mem _ (by simp), hcount]
    · intro l hl hn
      rw [hclosed.mem l hl, hmem l hn]
    · omega
    · intro h fd hnone
      exact hclosed.none h fd (hepoll ▸ hnone)
    · intro hun
      have hun₂ : PipeUnwatched c s₂ := by
        intro i h
        rw [hepoll, hmem _ (by simp)]
        exact hun (by omega) i h
      rw [hclosed.unwatched hun₂, hepoll]
    · simp [IsEpollCtl, htr]
  · rw [if_neg hlast]
    refine .ret ⟨⟨hrecords, hbuffer, hcount, fun l _ hn => hmem l hn, fun h => absurd ?_ hlast,
      fun _ i => hmem _ (by simp), ?_, fun _ => hepoll⟩, by simp [IsEpollCtl]⟩
    · omega
    · intro h fd hnone
      rwa [hepoll]

end

end LibSpe2.FailedCall
