import LibSpe2.SpeEvent.Footprint
import LibSpe2.SpeEvent.StopDelivery

/-!
# What a failing register or deregister leaves behind

The blocks of a call run one after the other and nothing is taken back when a later one fails, except
that the block of `SPE_EVENT_SPE_STOPPED` releases the pipe. So a call that fails has left everything as
it was only if the first event type of its mask failed, and only if that block had done nothing lasting:
a descriptor that was acquired is never given back.

* `Unchanged` — sets, live records, buffers, descriptors and counts are as they were.
* `RegisterClean`, `DeregisterClean` — the first block had done nothing lasting.

## Main results

* `failure_atomic` — exactly when a failing call leaves everything as it was, from every reachable state;
* `register_leaks` — a failing registration that leaves a reference to a descriptor behind.
-/

namespace LibSpe2.FailedCall

open Function (update)
open Conc (Prog Config Solo)

/-! ## What a failing call should leave alone -/

/-- Some handler has a live registration for the record. -/
def Live (s : World) (c : Spe) (k : EventType) : Prop :=
  ∃ h fd e, s.epoll h fd = some e ∧ e.spe = c ∧ e.type = k

/-- What is as it was. Among the `int` members are the descriptors and the counts of the slots and of the pipe. -/
structure Unchanged (s s' : World) : Prop where
  epoll : s'.epoll = s.epoll
  records : ∀ c k, Live s c k → (s'.records c k).events = (s.records c k).events ∧
    (s'.records c k).data = (s.records c k).data
  buffer : s'.buffer = s.buffer
  mem : s'.mem = s.mem

/-- A successful `epoll_ctl`. -/
def EpollOk : Sigma Ans → Prop
  | ⟨.epollAdd _ _ _, .ok _⟩ | ⟨.epollDel _ _, .ok _⟩ => True
  | _ => False

/-- No `epoll_ctl` has succeeded. -/
def NoneMoved (tr : List (Sigma Ans)) : Prop := ∀ e ∈ tr, ¬ EpollOk e

/-- `epoll_ctl` was reached. -/
def Tried (tr : List (Sigma Ans)) : Prop := ∃ e ∈ tr, IsEpollCtl e

/-- The record is not in use, or it holds already what is to be stored. -/
def RecordClean (c : Spe) (k : EventType) (data : UInt64) (s : World) : Prop :=
  Live s c k → (s.records c k).events = k.bit ∧ (s.records c k).data = data

/-- The block for the pipe has done nothing lasting: no stop info was lost when the pipe was opened. -/
def StoppedClean (c : Spe) (data : UInt64) (s : World) (tr : List (Sigma Ans)) : Prop :=
  Tried tr → RecordClean c .speStopped data s ∧
    (s.mem (.stopEventHandlerCount c) = 0 → s.mem (.stopEventBufferCount c) = 0)

/-- The block of register for an event type has done nothing lasting. -/
def RegisterClean (c : Spe) (ev : EventArg) (s : World) : EventType → List (Sigma Ans) → Prop
  | .outIntrMbox => SlotClean c .ibox s
  | .inMbox => SlotClean c .wbox s
  | .tagGroup => SlotClean c .mfc s
  | .speStopped => StoppedClean c ev.data s

/-- The block of deregister for an event type has done nothing lasting. -/
def DeregisterClean (c : Spe) (_ : EventArg) (s : World) : EventType → List (Sigma Ans) → Prop
  | .outIntrMbox => SlotClean c .ibox s
  | .inMbox => SlotClean c .wbox s
  | .tagGroup => SlotClean c .mfc s
  | .speStopped => fun _ => True

/-- The types in the order of the blocks. -/
def blockOrder : List EventType := [.outIntrMbox, .inMbox, .tagGroup, .speStopped]

/-- The type of the first block that runs. -/
def firstOf (events : UInt32) (ks : List EventType) : Option EventType :=
  ks.find? fun k => decide (events &&& k.bit ≠ 0)

/-- The checks of the arguments are passed. -/
structure Checked (s : World) (evhandler : Option Handler) (event : Option EventArg) (c : Spe) (ev : EventArg) :
    Prop where
  handler : evhandler ≠ none
  event : event = some ev
  spe : ev.spe = some c
  enabled : s.flags c &&& speEventsEnable ≠ 0
  known : ev.events &&& ~~~speEventAll = 0

/-- What a failing call must have been like: nothing was added or removed, and the first block has done nothing
lasting. -/
def FailedClean (clean : Spe → EventArg → World → EventType → List (Sigma Ans) → Prop) (s : World)
    (evhandler : Option Handler) (event : Option EventArg) (tr : List (Sigma Ans)) : Prop :=
  NoneMoved tr ∧ ∀ c ev, Checked s evhandler event c ev → ∀ k, firstOf ev.events blockOrder = some k →
    clean c ev s k tr

section

variable {t : Tid} {s s₁ s' : World} {h : Handler} {c : Spe} {d : FdName} {k : EventType}
  {tr tr₁ tr₂ : List (Sigma Ans)} {data : UInt64} {ok : Bool} {dir : Bool}

theorem Unchanged.of_same (hs : SameData s s') : Unchanged s s' := by
  refine ⟨hs.epoll, fun c k _ => ?_, hs.buffer, hs.mem⟩
  rw [hs.records]
  exact ⟨rfl, rfl⟩

theorem unchanged_congr {u u' : World} (hs : SameData s u) (hs' : SameData s' u') :
    Unchanged u u' ↔ Unchanged s s' := by
  have hlive (c : Spe) (k : EventType) : Live u c k ↔ Live s c k := by
    unfold Live
    rw [hs.epoll]
  constructor
  · rintro ⟨hepoll, hrecords, hbuffer, hmem⟩
    rw [hs.epoll, hs'.epoll] at hepoll
    rw [hs.buffer, hs'.buffer] at hbuffer
    rw [hs.mem, hs'.mem] at hmem
    simp only [hlive, hs.records, hs'.records] at hrecords
    exact ⟨hepoll, hrecords, hbuffer, hmem⟩
  · rintro ⟨hepoll, hrecords, hbuffer, hmem⟩
    rw [← hs.epoll, ← hs'.epoll] at hepoll
    rw [← hs.buffer, ← hs'.buffer] at hbuffer
    rw [← hs.mem, ← hs'.mem] at hmem
    simp only [← hlive, ← hs.records, ← hs'.records] at hrecords
    exact ⟨hepoll, hrecords, hbuffer, hmem⟩

/-! ## Traces -/

theorem EpollOk.isEpollCtl {e : Sigma Ans} (h : EpollOk e) : IsEpollCtl e := by
  obtain ⟨cmd, r⟩ := e
  cases cmd <;> first | exact trivial | cases h

@[simp] theorem noneMoved_nil : NoneMoved [] := nofun

@[simp] theorem noneMoved_cons {e : Sigma Ans} : NoneMoved (e :: tr) ↔ ¬ EpollOk e ∧ NoneMoved tr :=
  List.forall_mem_cons

@[simp] theorem noneMoved_append : NoneMoved (tr₁ ++ tr₂) ↔ NoneMoved tr₁ ∧ NoneMoved tr₂ :=
  List.forall_mem_append

theorem NoEpollCtl.noneMoved (h : NoEpollCtl tr) : NoneMoved tr := fun e he hok => h e he hok.isEpollCtl

theorem NoEpollCtl.not_tried (h : NoEpollCtl tr) : ¬ Tried tr := fun ⟨e, he, hctl⟩ => h e he hctl

/-- What the conditions look at in a trace. -/
def Relevant : Sigma Ans → Prop
  | ⟨.openat _ _, _⟩ => True
  | e => IsEpollCtl e

/-- The traces have the same events that matter. -/
def SameAnswers (tr tr' : List (Sigma Ans)) : Prop := ∀ e, Relevant e → (e ∈ tr' ↔ e ∈ tr)

theorem IsEpollCtl.relevant {e : Sigma Ans} (h : IsEpollCtl e) : Relevant e := by
  obtain ⟨cmd, r⟩ := e
  cases cmd <;> first | exact trivial | exact h

theorem SameAnswers.noneMoved {tr' : List (Sigma Ans)} (h : SameAnswers tr tr') : NoneMoved tr' ↔ NoneMoved tr := by
  constructor
  · intro hn e he hok
    exact hn e ((h e hok.isEpollCtl.relevant).mpr he) hok
  · intro hn e he hok
    exact hn e ((h e hok.isEpollCtl.relevant).mp he) hok

theorem SameAnswers.tried {tr' : List (Sigma Ans)} (h : SameAnswers tr tr') : Tried tr' ↔ Tried tr := by
  constructor
  · rintro ⟨e, he, hctl⟩
    exact ⟨e, (h e hctl.relevant).mp he, hctl⟩
  · rintro ⟨e, he, hctl⟩
    exact ⟨e, (h e hctl.relevant).mpr he, hctl⟩

theorem SameAnswers.slotClean {tr' : List (Sigma Ans)} (h : SameAnswers tr tr') :
    SlotClean c d s tr' ↔ SlotClean c d s tr := by
  unfold SlotClean
  have hmem (fd : Fd) : (⟨.openat c d, .ok fd⟩ : Sigma Ans) ∈ tr' ↔ (⟨.openat c d, .ok fd⟩ : Sigma Ans) ∈ tr :=
    h _ trivial
  simp only [hmem]

theorem SameAnswers.registerClean {tr' : List (Sigma Ans)} (h : SameAnswers tr tr') {ev : EventArg} (k : EventType) :
    RegisterClean c ev s k tr' ↔ RegisterClean c ev s k tr := by
  cases k with
  | speStopped => simp only [RegisterClean, StoppedClean, h.tried]
  | _ => exact h.slotClean

theorem SameAnswers.deregisterClean {tr' : List (Sigma Ans)} (h : SameAnswers tr tr') {ev : EventArg}
    (k : EventType) : DeregisterClean c ev s k tr' ↔ DeregisterClean c ev s k tr := by
  cases k with
  | speStopped => exact Iff.rfl
  | _ => exact h.slotClean

/-! ## Blocks -/

/-- Where the set of `h` holds an entry (`dir = true`), or no entry, it still does. -/
def Kept (dir : Bool) (h : Handler) (s s' : World) : Prop :=
  ∀ fd, (s.epoll h fd).isSome = dir → (s'.epoll h fd).isSome = dir

/-- The set of `h` has gained an entry (`dir = true`), or lost one. -/
def Crossed (dir : Bool) (h : Handler) (s s' : World) : Prop :=
  ∃ fd, (s.epoll h fd).isSome = !dir ∧ (s'.epoll h fd).isSome = dir

theorem Kept.of_eq (he : s'.epoll = s.epoll) : Kept dir h s s' := by
  intro fd hfd
  rwa [he]

theorem Kept.trans (h₁ : Kept dir h s s₁) (h₂ : Kept dir h s₁ s') : Kept dir h s s' :=
  fun fd hfd => h₂ fd (h₁ fd hfd)

theorem Crossed.kept (h₁ : Crossed dir h s s₁) (h₂ : Kept dir h s₁ s') : Crossed dir h s s' := by
  obtain ⟨fd, hfd, hfd'⟩ := h₁
  exact ⟨fd, hfd, h₂ fd hfd'⟩

theorem Crossed.not_unchanged (hx : Crossed dir h s s') : ¬ Unchanged s s' := by
  intro hu
  obtain ⟨fd, hfd, hfd'⟩ := hx
  rw [hu.epoll, hfd] at hfd'
  cases dir <;> cases hfd'

/-- No pipe whose lock is free has descriptors without users. -/
def PipesIdle (s : World) : Prop := ∀ c, s.owner (.stopEventLock c) = none → PipeIdle c s

/-- A block that succeeds has moved an entry; one that fails has changed nothing if and only if
`clean`. -/
structure BlockEnd (dir : Bool) (h : Handler) (s : World) (clean : List (Sigma Ans) → Prop)
    (tr : List (Sigma Ans)) (ok : Bool) (s' : World) : Prop where
  kept : Kept dir h s s'
  moved : ok = true → ¬ NoneMoved tr ∧ Crossed dir h s s'
  failed : ok = false → NoneMoved tr ∧ (PipesIdle s → (Unchanged s s' ↔ clean tr))

/-- A block that failed before it reached `epoll_ctl`. -/
theorem BlockEnd.early {clean : List (Sigma Ans) → Prop} (hepoll : s'.epoll = s.epoll) (htr : NoneMoved tr)
    (hclean : PipesIdle s → (Unchanged s s' ↔ clean tr)) : BlockEnd dir h s clean tr false s' :=
  ⟨.of_eq hepoll, nofun, fun _ => ⟨htr, hclean⟩⟩

theorem Elsewhere.unchanged_iff (he : Elsewhere c d s s') : Unchanged s s' ↔ s'.mem = s.mem := by
  constructor
  · exact fun hu => hu.mem
  · intro hmem
    exact .of_same ⟨he.epoll, he.records, he.buffer, hmem⟩

/-- What stands between the acquisition and the record. -/
def CheckOnly (t : Tid) (check : Sys Bool) : Prop :=
  ∀ s, Solo machine t check s fun tr _ s' => SameData s s' ∧ ∀ e ∈ tr, ¬ Relevant e

theorem checkOnly_none : CheckOnly t (return true) :=
  fun _ => .ret ⟨⟨rfl, rfl, rfl, rfl⟩, nofun⟩

theorem checkOnly_mapPs : CheckOnly t (do
    let fl ← perform (.flags c)
    if fl &&& speMapPs ≠ 0 then
      perform (.setErrno .ENOTSUP)
      return false
    else return true) := by
  intro s
  refine .perform fun fl s₁ h₁ => ?_
  obtain ⟨rfl, rfl⟩ := of_guard h₁
  by_cases hps : s.flags c &&& speMapPs = 0
  · rw [if_neg (not_not_intro hps)]
    exact .ret ⟨⟨rfl, rfl, rfl, rfl⟩, by simp [Relevant, IsEpollCtl]⟩
  · rw [if_pos hps]
    refine .perform fun _ s₂ h₂ => ?_
    obtain rfl := Option.some.inj h₂
    exact .ret ⟨⟨rfl, rfl, rfl, rfl⟩, by simp [Relevant, IsEpollCtl]⟩

/-- The block of register for a descriptor: what was acquired stays. -/
theorem registerSource_solo {out : Bool} {check : Sys Bool} (hcheck : CheckOnly t check) :
    Solo machine t (registerSource h c k d out data check) s (BlockEnd true h s (SlotClean c d s)) := by
  refine .bind (acquire_solo.mono ?_)
  rintro tr₁ fd s₁ ⟨helse, hclean, hclosed, htr₁⟩
  by_cases hfd : fd = -1
  · rw [if_pos hfd]
    refine .ret ?_
    rw [List.append_nil]
    exact .early helse.epoll htr₁.noneMoved fun _ => helse.unchanged_iff.trans hclean
  rw [if_neg hfd]
  have hdirty : ¬ SlotClean c d s tr₁ := fun h => hfd (hclosed h)
  have hmoved : s₁.mem ≠ s.mem := fun h => hdirty (hclean.mp h)
  refine .bind ((hcheck s₁).mono ?_)
  rintro tr₂ b s₂ ⟨hsame, htr₂⟩
  have htr : NoEpollCtl (tr₁ ++ tr₂) := htr₁.append fun e he hctl => htr₂ e he hctl.relevant
  have helse := helse.same hsame
  have hmoved₂ : s₂.mem ≠ s.mem := hsame.mem ▸ hmoved
  cases b with
  | false =>
    refine .ret ?_
    rw [List.append_nil]
    refine .early helse.epoll htr.noneMoved fun _ => iff_of_false ?_ ?_
    · exact fun hu => hmoved₂ hu.mem
    · exact fun h => hdirty h.of_append
  | true =>
    refine .perform fun _ s₃ h₃ => ?_
    obtain rfl := Option.some.inj h₃
    refine .perform fun x s₄ h₄ => ?_
    cases x with
    | ok u =>
      obtain ⟨⟨-, hfree⟩, rfl⟩ := of_guard h₄
      have hnone : s.epoll h fd = none := by
        rw [← helse.epoll]
        exact hfree
      refine .ret ⟨?_, fun _ => ⟨?_, fd, ?_, ?_⟩, nofun⟩
      · intro fd' hfd'
        by_cases heq : fd' = fd
        · simp [World.setEpoll, World.setRecord, heq]
        · simpa [World.setEpoll, World.setRecord, heq, helse.epoll] using hfd'
      · exact fun hnone => hnone ⟨.epollAdd h fd ⟨out, c, k, data⟩, .ok u⟩ (by simp) trivial
      · simp [hnone]
      · simp [World.setEpoll, World.setRecord]
    | error e =>
      obtain rfl := Option.some.inj h₄
      refine .ret (.early helse.epoll ?_ fun _ => iff_of_false ?_ ?_)
      · simpa [EpollOk] using htr.noneMoved
      · exact fun hu => hmoved₂ hu.mem
      · exact fun h => hdirty h.of_append

/-- The block of deregister for a descriptor: what was acquired stays. -/
theorem deregisterSource_solo :
    Solo machine t (deregisterSource h c k d) s (BlockEnd false h s (SlotClean c d s)) := by
  refine .bind (acquire_solo.mono ?_)
  rintro tr₁ fd s₁ ⟨helse, hclean, hclosed, htr₁⟩
  by_cases hfd : fd = -1
  · rw [if_pos hfd]
    refine .ret ?_
    rw [List.append_nil]
    exact .early helse.epoll htr₁.noneMoved fun _ => helse.unchanged_iff.trans hclean
  rw [if_neg hfd]
  have hdirty : ¬ SlotClean c d s tr₁ := fun h => hfd (hclosed h)
  refine .perform fun x s₂ h₂ => ?_
  cases x with
  | ok u =>
    obtain ⟨hheld, rfl⟩ := of_guard h₂
    refine .perform fun _ s₃ h₃ => ?_
    obtain rfl := Option.some.inj h₃
    have hsome : s.epoll h fd ≠ none := by
      rw [← helse.epoll]
      exact hheld
    refine .ret ⟨?_, fun _ => ⟨?_, fd, ?_, ?_⟩, nofun⟩
    · intro fd' hfd'
      by_cases heq : fd' = fd
      · simp [World.setEpoll, World.setRecord, heq]
      · simpa [World.setEpoll, World.setRecord, heq, helse.epoll] using hfd'
    · exact fun hnone => hnone _ (List.mem_append_right _ (.head _)) trivial
    · exact Option.isSome_iff_ne_none.mpr hsome
    · simp [World.setEpoll, World.setRecord]
  | error e =>
    obtain rfl := Option.some.inj h₂
    refine .ret (.early helse.epoll ?_ fun _ => iff_of_false ?_ ?_)
    · simpa [EpollOk] using htr₁.noneMoved
    · exact fun hu => hdirty (hclean.mp hu.mem)
    · exact fun h => hdirty h.of_append

/-- A pipe that was acquired and released again is as it was, but for the buffer. -/
theorem mem_released {s₂ : World} (hidle : PipeIdle c s) (ha : Acquired c s s₁)
    (hr : Released c (s₁.setRecord c k { s₁.records c k with events := k.bit, data := data }) s₂) :
    s₂.mem = s.mem ↔ (s.mem (.stopEventHandlerCount c) = 0 → s.mem (.stopEventBufferCount c) = 0) := by
  have hbuffer : s₂.mem (.stopEventBufferCount c) =
      if s.mem (.stopEventHandlerCount c) = 0 then 0 else s.mem (.stopEventBufferCount c) :=
    (hr.mem _ (by simp) (by simp)).trans ha.bufferCount
  constructor
  · intro hmem hzero
    rw [← hmem, hbuffer, if_pos hzero]
  · intro hempty
    have hcount := ha.count
    funext l
    by_cases hends : ∃ i, l = .stopEventPipe c i
    · obtain ⟨i, rfl⟩ := hends
      by_cases hzero : s.mem (.stopEventHandlerCount c) = 0
      · -- the only user: the pipe was opened and closed
        have hone : s₁.mem (.stopEventHandlerCount c) = 1 := by omega
        exact (hr.last hone i).trans (hidle hzero i).symm
      · have hmore : s₁.mem (.stopEventHandlerCount c) ≠ 1 := by omega
        exact (hr.ends hmore i).trans (ha.ends hzero i)
    · have hpipe : ∀ i, l ≠ .stopEventPipe c i := fun i hi => hends ⟨i, hi⟩
      by_cases hl : l = .stopEventHandlerCount c
      · subst hl
        refine hr.count.trans ?_
        show s₁.mem _ - 1 = _
        rw [hcount, Int.add_sub_cancel]
      · by_cases hb : l = .stopEventBufferCount c
        · subst hb
          rw [hbuffer]
          split
          next hzero => exact (hempty hzero).symm
          next => rfl
        · exact (hr.mem l hpipe hl).trans (ha.mem l hpipe hl hb)

/-- A pipe that was acquired, a record that was overwritten and the pipe released again: that matters if the record
was in use and held something else, or if the pipe was opened and a stop info was in the buffer. -/
theorem unchanged_released {s₂ : World} (hidle : PipeIdle c s) (ha : Acquired c s s₁)
    (hr : Released c (s₁.setRecord c k { s₁.records c k with events := k.bit, data := data }) s₂) :
    Unchanged s s₂ ↔ RecordClean c k data s ∧
      (s.mem (.stopEventHandlerCount c) = 0 → s.mem (.stopEventBufferCount c) = 0) := by
  have hepoll : s₂.epoll = s.epoll := by
    refine (hr.epoll fun hone => ?_).trans ha.epoll
    have hone' : s₁.mem (.stopEventHandlerCount c) = 1 := hone
    have hcount := ha.count
    exact ha.unwatched (by omega)
  have hrecord (c' : Spe) (k' : EventType) (hck : (c', k') ≠ (c, k)) : s₂.records c' k' = s.records c' k' := by
    rw [hr.records]
    show update₂ s₁.records c k _ c' k' = _
    rw [update₂_of_ne _ _ hck, ha.records]
  have hself : s₂.records c k = { s₁.records c k with events := k.bit, data := data } := by
    rw [hr.records]
    exact update₂_self ..
  rw [← mem_released hidle ha hr]
  constructor
  · intro hu
    refine ⟨fun hlive => ?_, hu.mem⟩
    obtain ⟨hevents, hdata⟩ := hu.records c k hlive
    rw [hself] at hevents hdata
    exact ⟨hevents.symm, hdata.symm⟩
  · rintro ⟨hclean, hmem⟩
    refine ⟨hepoll, fun c' k' hlive => ?_, hr.buffer.trans ha.buffer, hmem⟩
    by_cases hck : (c', k') = (c, k)
    · obtain ⟨rfl, rfl⟩ := Prod.mk.inj hck
      obtain ⟨hevents, hdata⟩ := hclean hlive
      rw [hself]
      exact ⟨hevents.symm, hdata.symm⟩
    · rw [hrecord c' k' hck]
      exact ⟨rfl, rfl⟩

/-- The block of register for the pipe. -/
theorem registerSpeStopped_solo (hs : EpollOpen s) :
    Solo machine t (registerSpeStopped h c data) s (BlockEnd true h s (StoppedClean c data s)) := by
  refine .perform fun _ s₁ h₁ => ?_
  obtain ⟨hfree, rfl⟩ := of_guard h₁
  have hs₁ : EpollOpen (s.setOwner (.stopEventLock c) (some t)) := hs
  have hlock : SameData s (s.setOwner (.stopEventLock c) (some t)) := ⟨rfl, rfl, rfl, rfl⟩
  refine .bind ((stopEventPipeAcquire_solo hs₁).mono ?_)
  rintro tr₁ rc s₂ ⟨hfail, hgood, htr₁⟩
  by_cases hrc : rc = -1
  · obtain ⟨hepoll, hsame⟩ := hfail hrc
    rw [if_pos hrc]
    refine .cmd fun _ s₃ h₃ => ?_
    obtain ⟨-, rfl⟩ := of_guard h₃
    have htr : NoEpollCtl (⟨.lock (.stopEventLock c), ()⟩ :: (tr₁ ++ [⟨.unlock (.stopEventLock c), ()⟩])) := by
      simp [IsEpollCtl, htr₁, NoEpollCtl.append]
    refine .ret (.early hepoll htr.noneMoved fun hidle => iff_of_true ?_ fun htried => absurd htried htr.not_tried)
    have hset : SameData (s₂.setOwner (.stopEventLock c) none) s₂ := ⟨rfl, rfl, rfl, rfl⟩
    exact (unchanged_congr hlock hset).mp (.of_same (hsame (hidle c hfree)))
  · rw [if_neg hrc]
    have hacq := hgood hrc
    refine .perform fun fd s₃ h₃ => ?_
    obtain ⟨-, rfl⟩ := of_guard h₃
    refine .perform fun _ s₄ h₄ => ?_
    obtain rfl := Option.some.inj h₄
    refine .perform fun x s₅ h₅ => ?_
    cases x with
    | ok u =>
      obtain ⟨⟨-, hunset⟩, rfl⟩ := of_guard h₅
      have hnone : s.epoll h fd = none := by
        have hepoll : s₂.epoll = s.epoll := hacq.epoll
        rw [← hepoll]
        exact hunset
      refine .perform fun _ s₆ h₆ => ?_
      obtain rfl := Option.some.inj h₆
      refine .perform fun _ s₇ h₇ => ?_
      obtain ⟨-, rfl⟩ := of_guard h₇
      refine .ret ⟨?_, fun _ => ⟨?_, fd, ?_, ?_⟩, fun h => Bool.noConfusion h⟩
      · intro fd' hfd'
        have hepoll : s₂.epoll = s.epoll := hacq.epoll
        by_cases heq : fd' = fd
        · simp [World.setOwner, World.setEpoll, World.setRecord, heq]
        · simpa [World.setOwner, World.setEpoll, World.setRecord, heq, hepoll] using hfd'
      · intro hn
        have hadd : (⟨.epollAdd h fd ⟨false, c, .speStopped, data⟩, .ok u⟩ : Sigma Ans) ∈
            ⟨.lock (.stopEventLock c), ()⟩ :: (tr₁ ++ [⟨.load (.stopEventPipe c 0), fd⟩,
              ⟨.storeRecord c .speStopped EventType.speStopped.bit data, ()⟩,
              ⟨.epollAdd h fd ⟨false, c, .speStopped, data⟩, .ok u⟩, ⟨.note (.registered c), ()⟩,
              ⟨.unlock (.stopEventLock c), ()⟩]) := by
          simp
        exact hn _ hadd trivial
      · simp [hnone]
      · simp [World.setOwner, World.setEpoll, World.setRecord]
    | error e =>
      obtain rfl := Option.some.inj h₅
      refine .bind (stopEventPipeRelease_solo.mono ?_)
      rintro tr₂ _ s₆ ⟨hrel, htr₂⟩
      refine .cmd fun _ s₇ h₇ => ?_
      obtain ⟨-, rfl⟩ := of_guard h₇
      have hacq' : Acquired c s s₂ := ⟨hacq.epoll, hacq.records, hacq.buffer, hacq.count, hacq.bufferCount, hacq.mem,
        hacq.ends, hacq.unwatched⟩
      have hrel' : Released c (s₂.setRecord c .speStopped { s₂.records c .speStopped with
          events := EventType.speStopped.bit, data := data }) s₆ :=
        ⟨hrel.records, hrel.buffer, hrel.count, hrel.mem, hrel.last, hrel.ends, hrel.none, hrel.epoll⟩
      have hepoll : s₆.epoll = s.epoll := by
        refine (hrel'.epoll fun hone => ?_).trans hacq'.epoll
        have hone' : s₂.mem (.stopEventHandlerCount c) = 1 := hone
        have hcount := hacq'.count
        exact hacq'.unwatched (by omega)
      have hset : SameData s₆ (s₆.setOwner (.stopEventLock c) none) := ⟨rfl, rfl, rfl, rfl⟩
      refine .ret (.early hepoll ?_ fun hidle => ?_)
      · simp [EpollOk, htr₁.noneMoved, htr₂.noneMoved]
      · rw [unchanged_congr ⟨rfl, rfl, rfl, rfl⟩ hset, unchanged_released (hidle c hfree) hacq' hrel']
        have htried : Tried (⟨.lock (.stopEventLock c), ()⟩ :: (tr₁ ++ ⟨.load (.stopEventPipe c 0), fd⟩ ::
            ⟨.storeRecord c .speStopped EventType.speStopped.bit data, ()⟩ ::
            ⟨.epollAdd h fd ⟨false, c, .speStopped, data⟩, .error e⟩ ::
            (tr₂ ++ [⟨.unlock (.stopEventLock c), ()⟩]))) :=
          ⟨⟨.epollAdd h fd ⟨false, c, .speStopped, data⟩, .error e⟩, by simp, trivial⟩
        exact ⟨fun hclean _ => hclean, fun hclean => hclean htried⟩

/-- The block of deregister for the pipe: a failure leaves nothing behind. -/
theorem deregisterSpeStopped_solo :
    Solo machine t (deregisterSpeStopped h c) s (BlockEnd false h s fun _ => True) := by
  refine .perform fun _ s₁ h₁ => ?_
  obtain ⟨-, rfl⟩ := of_guard h₁
  refine .perform fun fd s₂ h₂ => ?_
  obtain ⟨-, rfl⟩ := of_guard h₂
  refine .perform fun x s₃ h₃ => ?_
  cases x with
  | ok u =>
    obtain ⟨hheld, rfl⟩ := of_guard h₃
    have hsome : s.epoll h fd ≠ none := hheld
    refine .perform fun _ s₄ h₄ => ?_
    obtain rfl := Option.some.inj h₄
    refine .perform fun _ s₅ h₅ => ?_
    obtain rfl := Option.some.inj h₅
    refine .bind (stopEventPipeRelease_solo.mono ?_)
    rintro tr₁ _ s₆ ⟨hrel, htr₁⟩
    refine .cmd fun _ s₇ h₇ => ?_
    obtain ⟨-, rfl⟩ := of_guard h₇
    have hgone (fd' : Fd) (hnone : update (s.epoll h) fd none fd' = none) : s₆.epoll h fd' = none := by
      apply hrel.none
      show update s.epoll h (update (s.epoll h) fd none) h fd' = none
      rw [Function.update_self]
      exact hnone
    refine .ret ⟨?_, fun _ => ⟨?_, fd, ?_, ?_⟩, nofun⟩
    · intro fd' hfd'
      have hnone : s.epoll h fd' = none := Option.isSome_eq_false_iff.mp hfd' |> Option.isNone_iff_eq_none.mp
      show (s₆.epoll h fd').isSome = false
      rw [hgone fd' (by by_cases heq : fd' = fd <;> simp [heq, hnone])]
      rfl
    · intro hn
      have hdel : (⟨.epollDel h fd, .ok u⟩ : Sigma Ans) ∈ ⟨.lock (.stopEventLock c), ()⟩ ::
          ⟨.load (.stopEventPipe c 0), fd⟩ :: ⟨.epollDel h fd, .ok u⟩ :: ⟨.clearRecord c .speStopped, ()⟩ ::
          ⟨.note (.deregistered c), ()⟩ :: (tr₁ ++ [⟨.unlock (.stopEventLock c), ()⟩]) := by
        simp
      exact hn _ hdel trivial
    · exact Option.isSome_iff_ne_none.mpr hsome
    · show (s₆.epoll h fd).isSome = false
      rw [hgone fd (by simp)]
      rfl
  | error e =>
    obtain rfl := Option.some.inj h₃
    refine .cmd fun _ s₄ h₄ => ?_
    obtain ⟨-, rfl⟩ := of_guard h₄
    refine .ret (.early rfl (by simp [EpollOk]) fun _ => iff_of_true ?_ trivial)
    exact .of_same ⟨rfl, rfl, rfl, rfl⟩

/-! ## Calls -/

/-- A sequence of blocks for the types `ks` that fails has changed nothing if and only if nothing was moved and
the first block that ran is clean. -/
structure BlocksEnd (dir : Bool) (h : Handler) (s : World) (events : UInt32) (ks : List EventType)
    (clean : EventType → List (Sigma Ans) → Prop) (tr : List (Sigma Ans)) (ok : Bool) (s' : World) : Prop where
  kept : Kept dir h s s'
  failed : PipesIdle s → ok = false →
    (Unchanged s s' ↔ NoneMoved tr ∧ ∀ k, firstOf events ks = some k → clean k tr)

variable {events : UInt32} {ks : List EventType}

theorem firstOf_cons : firstOf events (k :: ks) = if events &&& k.bit ≠ 0 then some k else firstOf events ks := by
  unfold firstOf
  rw [List.find?_cons]
  by_cases hk : events &&& k.bit = 0 <;> simp [hk]

/-- The last block. -/
theorem lastBlock_solo (clean : World → EventType → List (Sigma Ans) → Prop) {block : Sys Bool}
    (hblock : Solo machine t block s (BlockEnd dir h s (clean s k))) :
    Solo machine t (ifEvent events k block) s (BlocksEnd dir h s events [k] (clean s)) := by
  unfold ifEvent
  by_cases hk : events &&& k.bit = 0
  · rw [if_neg (not_not_intro hk)]
    exact .ret ⟨.of_eq rfl, fun _ hok => Bool.noConfusion hok⟩
  · rw [if_pos hk]
    refine hblock.mono fun tr ok s' hend => ⟨hend.kept, fun hidle hok => ?_⟩
    obtain ⟨hnone, hiff⟩ := hend.failed hok
    rw [hiff hidle, firstOf_cons, if_pos hk]
    constructor
    · intro hclean
      refine ⟨hnone, ?_⟩
      rintro _ ⟨⟩
      exact hclean
    · exact fun h => h.2 k rfl

/-- A block and the rest: the rest does not take back what the block has moved. -/
theorem andThen_solo (clean : World → EventType → List (Sigma Ans) → Prop) {block rest : Sys Bool} (hs : EpollOpen s)
    (hblock : Solo machine t block s (BlockEnd dir h s (clean s k)))
    (hrest : ∀ s, EpollOpen s → Solo machine t rest s (BlocksEnd dir h s events ks (clean s))) :
    Solo machine t (andThen (ifEvent events k block) rest) s (BlocksEnd dir h s events (k :: ks) (clean s)) := by
  unfold andThen ifEvent
  by_cases hk : events &&& k.bit = 0
  · rw [if_neg (not_not_intro hk)]
    refine (hrest s hs).mono fun tr ok s' hend => ⟨hend.kept, fun hidle hok => ?_⟩
    rw [hend.failed hidle hok, firstOf_cons, if_neg (not_not_intro hk)]
  · rw [if_pos hk]
    refine .bind fun tr₁ ok₁ s₁ hends hplay => ?_
    have hend := hblock tr₁ ok₁ s₁ hends hplay
    have hs₁ := hs.solo tr₁ ok₁ s₁ hends hplay
    cases ok₁ with
    | true =>
      obtain ⟨hmoved, hcrossed⟩ := hend.moved rfl
      refine (hrest s₁ hs₁).mono fun tr₂ ok s' hend₂ => ⟨hend.kept.trans hend₂.kept, fun _ _ => ?_⟩
      refine iff_of_false (hcrossed.kept hend₂.kept).not_unchanged ?_
      rintro ⟨hnone, -⟩
      exact hmoved (noneMoved_append.mp hnone).1
    | false =>
      obtain ⟨hnone, hiff⟩ := hend.failed rfl
      refine .ret ⟨hend.kept, fun hidle _ => ?_⟩
      rw [List.append_nil, hiff hidle, firstOf_cons, if_pos hk]
      constructor
      · intro hclean
        refine ⟨hnone, ?_⟩
        rintro _ ⟨⟩
        exact hclean
      · exact fun h => h.2 k rfl

variable {ev : EventArg}

/-- The blocks of register. -/
theorem registerBlocks_solo (hs : EpollOpen s) : Solo machine t
    (andThen (ifEvent ev.events .outIntrMbox (registerOutIntrMbox h c ev.data)) <|
      andThen (ifEvent ev.events .inMbox (registerInMbox h c ev.data)) <|
      andThen (ifEvent ev.events .tagGroup (registerTagGroup h c ev.data)) <|
      ifEvent ev.events .speStopped (registerSpeStopped h c ev.data)) s
    (BlocksEnd true h s ev.events blockOrder (RegisterClean c ev s)) := by
  refine andThen_solo (RegisterClean c ev) hs (registerSource_solo checkOnly_none) fun s hs => ?_
  refine andThen_solo (RegisterClean c ev) hs (registerSource_solo checkOnly_none) fun s hs => ?_
  refine andThen_solo (RegisterClean c ev) hs (registerSource_solo checkOnly_mapPs) fun s hs => ?_
  exact lastBlock_solo (RegisterClean c ev) (registerSpeStopped_solo hs)

/-- The blocks of deregister. -/
theorem deregisterBlocks_solo (hs : EpollOpen s) : Solo machine t
    (andThen (ifEvent ev.events .outIntrMbox (deregisterOutIntrMbox h c)) <|
      andThen (ifEvent ev.events .inMbox (deregisterInMbox h c)) <|
      andThen (ifEvent ev.events .tagGroup (deregisterTagGroup h c)) <|
      ifEvent ev.events .speStopped (deregisterSpeStopped h c)) s
    (BlocksEnd false h s ev.events blockOrder (DeregisterClean c ev s)) := by
  refine andThen_solo (DeregisterClean c ev) hs deregisterSource_solo fun s hs => ?_
  refine andThen_solo (DeregisterClean c ev) hs deregisterSource_solo fun s hs => ?_
  refine andThen_solo (DeregisterClean c ev) hs deregisterSource_solo fun s hs => ?_
  exact lastBlock_solo (DeregisterClean c ev) deregisterSpeStopped_solo

variable {evhandler : Option Handler} {event : Option EventArg}

/-- A call that is refused has changed nothing. -/
theorem fail_solo {clean : Spe → EventArg → World → EventType → List (Sigma Ans) → Prop} {e : Errno}
    {pre : List (Sigma Ans)} (hpre : NoneMoved pre) (hrefused : ∀ c ev, ¬ Checked s evhandler event c ev) :
    Solo machine t (fail e) s fun tr rc s' =>
      rc = -1 → (Unchanged s s' ↔ FailedClean clean s evhandler event (pre ++ tr)) := by
  refine .perform fun _ s₁ h₁ => ?_
  obtain rfl := Option.some.inj h₁
  refine .ret fun _ => iff_of_true ?_ ⟨?_, ?_⟩
  · have hset : SameData s (s.setErrno t e) := ⟨rfl, rfl, rfl, rfl⟩
    exact .of_same hset
  · simp [hpre, EpollOk]
  · exact fun c ev hchecked => absurd hchecked (hrefused c ev)

/-- What a call does around its blocks does not matter. -/
theorem sameAnswers_call {fl : UInt32} : SameAnswers tr
    (⟨.flags c, fl⟩ :: ⟨.lock (.lock c), ()⟩ :: (tr ++ [⟨.unlock (.lock c), ()⟩])) := by
  intro e he
  constructor
  · intro hmem
    simp only [List.mem_cons, List.mem_append, List.not_mem_nil, or_false] at hmem
    rcases hmem with rfl | rfl | hmem | rfl
    · exact he.elim
    · exact he.elim
    · exact hmem
    · exact he.elim
  · exact fun hmem => by simp [hmem]

/-- **The wrapper of a call**: a call that fails has changed nothing if and only if its blocks have not. -/
theorem call_solo (dir : Bool) {clean : Spe → EventArg → World → EventType → List (Sigma Ans) → Prop}
    {blocks : Handler → Spe → EventArg → Sys Bool} (hs : EpollOpen s) (hidle : PipesIdle s)
    (howner : ∀ c ev k tr m o, clean c ev (s.setOwner m o) k tr ↔ clean c ev s k tr)
    (hsame : ∀ c ev k tr tr', SameAnswers tr tr' → (clean c ev s k tr' ↔ clean c ev s k tr))
    (hblocks : ∀ h c ev s, EpollOpen s →
      Solo machine t (blocks h c ev) s (BlocksEnd dir h s ev.events blockOrder (clean c ev s))) :
    Solo machine t (withEventArgs evhandler event fun h c ev => underContextLock c (blocks h c ev)) s
      fun tr rc s' => rc = -1 → (Unchanged s s' ↔ FailedClean clean s evhandler event tr) := by
  cases evhandler with
  | none => exact fail_solo noneMoved_nil fun c ev hchecked => hchecked.handler rfl
  | some h =>
  cases event with
  | none =>
    refine fail_solo noneMoved_nil fun c ev hchecked => ?_
    cases hchecked.event
  | some ev =>
  obtain ⟨events, spe, data⟩ := ev
  cases spe with
  | none =>
    refine fail_solo noneMoved_nil fun c ev hchecked => ?_
    obtain rfl := Option.some.inj hchecked.event
    cases hchecked.spe
  | some c =>
  refine .perform fun fl s₁ h₁ => ?_
  obtain ⟨rfl, rfl⟩ := of_guard h₁
  have hflags : NoneMoved [⟨.flags c, s.flags c⟩] := by simp [EpollOk]
  by_cases henabled : s.flags c &&& speEventsEnable = 0
  · rw [if_pos henabled]
    refine fail_solo hflags fun c' ev' hchecked => ?_
    obtain rfl := Option.some.inj hchecked.event
    obtain rfl := Option.some.inj hchecked.spe
    exact hchecked.enabled henabled
  rw [if_neg henabled]
  by_cases hknown : events &&& ~~~speEventAll = 0
  · rw [if_neg (not_not_intro hknown)]
    refine .perform fun _ s₁ h₁ => ?_
    obtain ⟨-, rfl⟩ := of_guard h₁
    have hs₁ : EpollOpen (s.setOwner (.lock c) (some t)) := hs
    refine .bind ((hblocks h c ⟨events, some c, data⟩ _ hs₁).mono ?_)
    rintro tr ok s₂ ⟨-, hfailed⟩
    refine .perform fun _ s₃ h₃ => ?_
    obtain ⟨-, rfl⟩ := of_guard h₃
    refine .ret fun hrc => ?_
    cases ok with
    | true => cases hrc
    | false =>
      have hlock : SameData s (s.setOwner (.lock c) (some t)) := ⟨rfl, rfl, rfl, rfl⟩
      have hunlock : SameData (s₂.setOwner (.lock c) none) s₂ := ⟨rfl, rfl, rfl, rfl⟩
      have hans : SameAnswers tr
          (⟨.flags c, s.flags c⟩ :: ⟨.lock (.lock c), ()⟩ :: (tr ++ [⟨.unlock (.lock c), ()⟩])) := sameAnswers_call
      have hidle₁ : PipesIdle (s.setOwner (.lock c) (some t)) := by
        intro c' hfree
        exact hidle c' (by simpa [World.setOwner] using hfree)
      rw [← unchanged_congr hlock hunlock, hfailed hidle₁ rfl]
      constructor
      · rintro ⟨hnone, hclean⟩
        refine ⟨hans.noneMoved.mpr hnone, fun c' ev' hchecked k hk => ?_⟩
        obtain rfl := Option.some.inj hchecked.event
        obtain rfl := Option.some.inj hchecked.spe
        exact (hsame _ _ _ _ _ hans).mpr ((howner _ _ _ _ _ _).mp (hclean k hk))
      · rintro ⟨hnone, hclean⟩
        refine ⟨hans.noneMoved.mp hnone, fun k hk => (howner _ _ _ _ _ _).mpr ?_⟩
        exact (hsame _ _ _ _ _ hans).mp (hclean c _ ⟨Option.some_ne_none h, rfl, rfl, henabled, hknown⟩ k hk)
  · rw [if_pos hknown]
    refine fail_solo hflags fun c' ev' hchecked => ?_
    obtain rfl := Option.some.inj hchecked.event
    exact hknown hchecked.known

end

/-! ## Results -/

theorem pipesIdle_reach {cfg : Config Cmd Ans Tid World} (hr : eventSystem.Reachable cfg) : PipesIdle cfg.shared := by
  intro c hfree hzero
  have hrun : eventSystem.Reach (okStop False) cfg := hr.mono fun _ _ _ _ _ => False.elim
  obtain ⟨γ, hγ⟩ := stopInv_reach hrun
  obtain ⟨φ, hφ⟩ := hγ.stage c
  exact ((hφ.shape.account (hφ.rest hfree)).unused hzero).1

/-- **Failing calls.** From every reachable state a call of register or deregister that fails has left the sets,
the records of live registrations, the stop info, the descriptors and the counts as they were if and only if
nothing was added or removed, and the first block that ran had done nothing lasting. -/
theorem failure_atomic {cfg : Config Cmd Ans Tid World} (hr : eventSystem.Reachable cfg) (t : Tid)
    (evhandler : Option Handler) (event : Option EventArg) :
    Solo machine t (eventSpeEventHandlerRegister evhandler event) cfg.shared (fun tr rc s' => rc = -1 →
      (Unchanged cfg.shared s' ↔ FailedClean RegisterClean cfg.shared evhandler event tr)) ∧
    Solo machine t (eventSpeEventHandlerDeregister evhandler event) cfg.shared (fun tr rc s' => rc = -1 →
      (Unchanged cfg.shared s' ↔ FailedClean DeregisterClean cfg.shared evhandler event tr)) := by
  have hs := epollOpen_reach hr
  have hidle := pipesIdle_reach hr
  constructor
  · refine call_solo true hs hidle (fun c ev k tr m o => ?_) (fun c ev k tr tr' h => h.registerClean k) ?_
    · cases k <;> exact Iff.rfl
    · exact fun h c ev s hs => registerBlocks_solo hs
  · refine call_solo false hs hidle (fun c ev k tr m o => ?_) (fun c ev k tr tr' h => h.deregisterClean k) ?_
    · cases k <;> exact Iff.rfl
    · exact fun h c ev s hs => deregisterBlocks_solo hs

/-- A registration for the inbound mailbox of context `0` for which `epoll_ctl` fails. -/
def failedTrace : List (Sigma Ans) :=
  [⟨.flags 0, speEventsEnable⟩, ⟨.lock (.lock 0), ()⟩, ⟨.lock (.fdLock 0 .wbox), ()⟩,
    ⟨.load (.speFdsArray 0 .wbox), (-1 : Int)⟩, ⟨.openat 0 .wbox, .ok 5⟩,
    ⟨.store (.speFdsArray 0 .wbox) 5, ()⟩, ⟨.note (.opened 0 .wbox 5), ()⟩,
    ⟨.load (.speFdsArray 0 .wbox), (5 : Int)⟩, ⟨.load (.speFdsRefcount 0 .wbox), (0 : Int)⟩,
    ⟨.store (.speFdsRefcount 0 .wbox) 1, ()⟩, ⟨.unlock (.fdLock 0 .wbox), ()⟩,
    ⟨.load (.speFdsArray 0 .wbox), (5 : Int)⟩, ⟨.note (.openReturned 0 .wbox 5), ()⟩,
    ⟨.storeRecord 0 .inMbox 2 1, ()⟩, ⟨.epollAdd 1 5 ⟨true, 0, .inMbox, 1⟩, .error .ENOMEM⟩,
    ⟨.unlock (.lock 0), ()⟩]

/-- It fails and is not clean: a reference was taken for good. -/
theorem register_leaks : ∃ tr s', (eventSpeEventHandlerRegister (some 1) (some ⟨2, some 0, 1⟩)).Ends tr (-1) ∧
    machine.play 1 tr .boot = some s' ∧ ¬ Unchanged .boot s' := by
  have hends : (eventSpeEventHandlerRegister (some 1) (some ⟨2, some 0, 1⟩)).Ends failedTrace (-1) := by
    repeat first | exact .ret | refine .cmd ?_
  have hplay : machine.play 1 failedTrace .boot = some (World.boot.after 1 failedTrace) := rfl
  have hiff := (failure_atomic (Conc.System.Reach.init eventInit_boot) 1 (some 1) (some ⟨2, some 0, 1⟩)).1
    failedTrace (-1) _ hends hplay rfl
  refine ⟨_, _, hends, hplay, fun hu => ?_⟩
  have hchecked : Checked .boot (some 1) (some ⟨2, some 0, 1⟩) 0 ⟨2, some 0, 1⟩ :=
    ⟨nofun, rfl, rfl, by decide, by decide⟩
  have hclean : RegisterClean 0 ⟨2, some 0, 1⟩ .boot .inMbox failedTrace := (hiff.mp hu).2 0 _ hchecked _ rfl
  exact hclean.2 5 (by simp [failedTrace])

end LibSpe2.FailedCall
