import LibSpe2.SpeEvent.Event
import LibSpe2.Data.Blocks
import Mathlib.Data.Finset.Card

/-!
# The stop-event pipe: its invariant

The count of a context's pipe is moved by registrations, deregistrations and runs, each under
`stop_event_lock`, while runs write to the pipe with the lock dropped. The invariant says of every
context in which *stage* its pipe is, where only the holder of the lock can be in the middle of
anything:

* `Held` — the stages: no pipe, a pipe being set up or torn down, a pipe in use;
* `Shape` — what each stage means for the memory, the descriptors, the epoll sets and the history;
* `Stage` — all of what a thread remembers between two of its commands;
* `StopInv` — the invariant over all threads and contexts, and `stopProto`, the protocol it makes.

`strict` says that reads of a pipe only fail with `EAGAIN` and `poll` only with `EINTR`. Only then
does a reader never give up in the middle of a stop info, and only then is anything said about the
bytes.

## Main results

* `Shape.keeps` — a step that leaves a context's pipe alone leaves its stage alone;
* `StopInv.quiet`, `StopInv.held` — the two ways in which a step keeps the invariant: it has nothing
  to do with any pipe, or the holder of a context's lock moves that context to a new stage.
-/

namespace LibSpe2

open Function (update)

/-! ## Stages -/

/-- The stages of a context's pipe. -/
inductive Held where
  | shut
  /-- Set up or torn down: what the members `stop_event_pipe[]` hold, which ends are open, and
  whether `O_NONBLOCK` is set. -/
  | turning (p : PipeId) (r w m₀ m₁ : Fd) (open₀ open₁ nonblock : Bool)
  /-- In use: the count is `n`, of which `extra` is what the holder has not accounted for yet; the
  holder has changed an epoll set by `adj` without recording it, and has read `got` of a stop info. -/
  | inUse (p : PipeId) (r w : Fd) (n extra adj : Int) (got : List UInt8)

/-- The pipe and its write end, while the pipe is in use. -/
def Held.writeEnd : Held → Option (PipeId × Fd)
  | .inUse p _ w _ _ _ _ => some (p, w)
  | _ => none

/-- The stages in which the lock may be released. -/
inductive Held.Rest : Held → Prop
  | shut : Rest .shut
  | inUse {p : PipeId} {r w : Fd} {n : Int} (h : 0 < n) : Rest (.inUse p r w n 0 0 [])

/-- What a thread remembers. -/
structure Stage where
  /-- A descriptor of a spufs file it has got hold of. -/
  source : Option Fd
  /-- The context whose `stop_event_lock` it holds, and the stage of that pipe. -/
  held : Option (Spe × Held)
  /-- The pipe that its run acquired: the context, the pipe and the descriptor to write to. -/
  run : Option (Spe × PipeId × Fd)

def Stage.idle : Stage := ⟨none, none, none⟩

/-- The thread holds the lock of `c`, whose pipe is in stage `φ`. -/
def Stage.hold (g : Stage) (c : Spe) (φ : Held) : Stage := { g with held := some (c, φ) }

@[simp] theorem Stage.hold_held (g : Stage) (c : Spe) (φ : Held) :
    (g.hold c φ).held = some (c, φ) := rfl

@[simp] theorem Stage.hold_run (g : Stage) (c : Spe) (φ : Held) : (g.hold c φ).run = g.run := rfl

@[simp] theorem Stage.hold_source (g : Stage) (c : Spe) (φ : Held) :
    (g.hold c φ).source = g.source := rfl

/-! ## What a stage means -/

/-- The stop infos written are those returned, the bytes read since and those in the pipe. -/
def Stream (x : Pipe) (got : List UInt8) : Prop :=
  Blocks.Sized stopInfoSize x.returned ∧
    (x.written.map StopInfo.bytes).flatten = x.returned.flatten ++ got ++ x.queue

/-- A pipe whose two ends have been closed, once each. -/
def Gone (strict : Prop) (x : Pipe) : Prop :=
  x.closedR = 1 ∧ x.closedW = 1 ∧ (strict → Stream x [])

/-- All pipes of `c` but `cur` are gone. -/
def Past (strict : Prop) (c : Spe) (cur : Option PipeId) (s : World) : Prop :=
  ∀ q < s.nextPipe, (s.pipes q).spe = c → cur ≠ some q → Gone strict (s.pipes q)

/-- Nobody uses the pipe of `c`. -/
structure Unused (c : Spe) (s : World) : Prop where
  count : s.mem (.stopEventHandlerCount c) = 0
  runs : s.hist.runs c = []
  registered : s.hist.registrations c = s.hist.deregistrations c

structure Shut (strict : Prop) (c : Spe) (s : World) : Prop where
  past : Past strict c none s
  pipe : ∀ i, s.mem (.stopEventPipe c i) = -1
  unused : Unused c s

structure Turning (strict : Prop) (c : Spe) (p : PipeId) (r w m₀ m₁ : Fd)
    (open₀ open₁ nonblock : Bool) (s : World) : Prop where
  lt : p < s.nextPipe
  spe : (s.pipes p).spe = c
  past : Past strict c (some p) s
  pipe₀ : s.mem (.stopEventPipe c 0) = m₀
  pipe₁ : s.mem (.stopEventPipe c 1) = m₁
  unused : Unused c s
  closedR : (s.pipes p).closedR = if open₀ then 0 else 1
  closedW : (s.pipes p).closedW = if open₁ then 0 else 1
  readEnd : open₀ = true → s.fds r = some (.pipeR p) ∧ ∀ h, s.epoll h r = none
  writeEnd : open₁ = true → s.fds w = some (.pipeW p)
  nonblocking : nonblock = true → (s.pipes p).nonblock = true
  stream : strict → Stream (s.pipes p) []

structure InUse (strict : Prop) (c : Spe) (p : PipeId) (r w : Fd) (n extra adj : Int)
    (got : List UInt8) (s : World) : Prop where
  lt : p < s.nextPipe
  spe : (s.pipes p).spe = c
  past : Past strict c (some p) s
  pipe₀ : s.mem (.stopEventPipe c 0) = r
  pipe₁ : s.mem (.stopEventPipe c 1) = w
  count : s.mem (.stopEventHandlerCount c) = n
  pos : 0 < n
  readEnd : s.fds r = some (.pipeR p)
  writeEnd : s.fds w = some (.pipeW p)
  closedR : (s.pipes p).closedR = 0
  closedW : (s.pipes p).closedW = 0
  nonblocking : (s.pipes p).nonblock = true
  stream : strict → Stream (s.pipes p) got
  /-- The handlers whose set holds the read end. -/
  users : ∃ live : Finset Handler, (∀ h, h ∈ live ↔ s.epoll h r ≠ none) ∧
    n = live.card + (s.hist.runs c).length + extra ∧
    (s.hist.registrations c : Int) + adj = s.hist.deregistrations c + live.card

/-- The state of the pipe of `c` in a stage. -/
def Shape (strict : Prop) (c : Spe) : Held → World → Prop
  | .shut => Shut strict c
  | .turning p r w m₀ m₁ open₀ open₁ nonblock =>
    Turning strict c p r w m₀ m₁ open₀ open₁ nonblock
  | .inUse p r w n extra adj got => InUse strict c p r w n extra adj got

/-! ## Frames -/

/-- `fd` is an end of pipe `q`. -/
def EndOf (s : World) (fd : Fd) (q : PipeId) : Prop :=
  s.fds fd = some (.pipeR q) ∨ s.fds fd = some (.pipeW q)

/-- The descriptor refers to a spufs file. -/
def IsSource (s : World) (fd : Fd) : Prop := ∃ spe d, s.fds fd = some (.spufs spe d)

/-- What the shape of the pipe of `c` depends on is the same in `s` and `s'`. -/
structure Keeps (c : Spe) (s s' : World) : Prop where
  pipe : ∀ i, s'.mem (.stopEventPipe c i) = s.mem (.stopEventPipe c i)
  count : s'.mem (.stopEventHandlerCount c) = s.mem (.stopEventHandlerCount c)
  next : s.nextPipe ≤ s'.nextPipe
  old : ∀ q < s.nextPipe, (s.pipes q).spe = c → s'.pipes q = s.pipes q
  new : ∀ q < s'.nextPipe, (s'.pipes q).spe = c → q < s.nextPipe ∧ (s.pipes q).spe = c
  ends : ∀ fd q, EndOf s fd q → (s.pipes q).spe = c →
    s'.fds fd = s.fds fd ∧ ∀ h, s'.epoll h fd = s.epoll h fd
  registrations : s'.hist.registrations c = s.hist.registrations c
  deregistrations : s'.hist.deregistrations c = s.hist.deregistrations c
  runs : s'.hist.runs c = s.hist.runs c

section Frame

variable {strict : Prop} {c : Spe} {s s' : World} {φ : Held}

theorem Past.keeps {cur : Option PipeId} (h : Past strict c cur s) (hk : Keeps c s s') :
    Past strict c cur s' := by
  intro q hq hc hne
  obtain ⟨hq', hc'⟩ := hk.new q hq hc
  rw [hk.old q hq' hc']
  exact h q hq' hc' hne

theorem Unused.keeps (h : Unused c s) (hk : Keeps c s s') : Unused c s' where
  count := hk.count.trans h.count
  runs := hk.runs.trans h.runs
  registered := by rw [hk.registrations, hk.deregistrations, h.registered]

/-- **Frame**: a step that leaves the pipe of `c` alone leaves it in its stage. -/
theorem Shape.keeps (h : Shape strict c φ s) (hk : Keeps c s s') : Shape strict c φ s' := by
  cases φ with
  | shut =>
    exact ⟨h.past.keeps hk, fun i => (hk.pipe i).trans (h.pipe i), h.unused.keeps hk⟩
  | turning p r w m₀ m₁ open₀ open₁ nonblock =>
    have hp := hk.old p h.lt h.spe
    refine ⟨h.lt.trans_le hk.next, hp ▸ h.spe, h.past.keeps hk, (hk.pipe 0).trans h.pipe₀,
      (hk.pipe 1).trans h.pipe₁, h.unused.keeps hk, hp ▸ h.closedR, hp ▸ h.closedW, fun ho => ?_,
      fun ho => ?_, hp ▸ h.nonblocking, hp ▸ h.stream⟩
    · obtain ⟨hr, he⟩ := h.readEnd ho
      obtain ⟨hf, he'⟩ := hk.ends r p (.inl hr) h.spe
      exact ⟨hf.trans hr, fun x => (he' x).trans (he x)⟩
    · have hw := h.writeEnd ho
      exact (hk.ends w p (.inr hw) h.spe).1.trans hw
  | inUse p r w n extra adj got =>
    have hp := hk.old p h.lt h.spe
    obtain ⟨hf, he⟩ := hk.ends r p (.inl h.readEnd) h.spe
    refine ⟨h.lt.trans_le hk.next, hp ▸ h.spe, h.past.keeps hk, (hk.pipe 0).trans h.pipe₀,
      (hk.pipe 1).trans h.pipe₁, hk.count.trans h.count, h.pos, hf.trans h.readEnd,
      (hk.ends w p (.inr h.writeEnd) h.spe).1.trans h.writeEnd, hp ▸ h.closedR, hp ▸ h.closedW,
      hp ▸ h.nonblocking, hp ▸ h.stream, ?_⟩
    simpa only [he, hk.runs, hk.registrations, hk.deregistrations] using h.users

end Frame

/-! ## The invariant -/

/-- What holds of the descriptors, whatever the stages are. -/
structure Files (s : World) : Prop where
  numbers : ∀ fd, s.fds fd ≠ none → 0 ≤ fd
  sets : ∀ h fd, s.epoll h fd ≠ none → s.fds fd ≠ none
  ends : ∀ fd q, EndOf s fd q → q < s.nextPipe
  arrays : ∀ c d, s.mem (.speFdsArray c d) ≠ -1 → IsSource s (s.mem (.speFdsArray c d))

/-- The pipe of `c` is in stage `φ`: the stage has the right shape, it is one to rest in when nobody
holds the lock and otherwise known to the holder, and the runs counted are those that remember the
pipe. -/
structure InStage (strict : Prop) (γ : Tid → Stage) (s : World) (c : Spe) (φ : Held) : Prop where
  shape : Shape strict c φ s
  rest : s.owner (.stopEventLock c) = none → φ.Rest
  holder : ∀ t, s.owner (.stopEventLock c) = some t ↔ ∃ φ', (γ t).held = some (c, φ')
  held : ∀ t φ', (γ t).held = some (c, φ') → φ' = φ
  nodup : (s.hist.runs c).Nodup
  runs : ∀ t, t ∈ s.hist.runs c ↔ ∃ x, (γ t).run = some (c, x)
  run : ∀ t p fd, (γ t).run = some (c, p, fd) → φ.writeEnd = some (p, fd) ∧ s.hist.saw t = some p

/-- **The invariant** of the stop-event pipes. -/
structure StopInv (strict : Prop) (γ : Tid → Stage) (s : World) : Prop where
  files : Files s
  source : ∀ t fd, (γ t).source = some fd → IsSource s fd
  stage : ∀ c, ∃ φ, InStage strict γ s c φ

/-- A step that has nothing to do with any stop-event pipe; it may open a spufs file and put such
files into epoll sets. -/
structure Quiet (s s' : World) : Prop where
  fds : ∀ fd, s'.fds fd = s.fds fd ∨ s.fds fd = none ∧ 0 ≤ fd ∧ IsSource s' fd
  epoll : ∀ h fd, s'.epoll h fd = s.epoll h fd ∨ IsSource s fd
  arrays : ∀ c d, s'.mem (.speFdsArray c d) = s.mem (.speFdsArray c d) ∨
    s'.mem (.speFdsArray c d) = -1 ∨ IsSource s' (s'.mem (.speFdsArray c d))
  pipe : ∀ c i, s'.mem (.stopEventPipe c i) = s.mem (.stopEventPipe c i)
  count : ∀ c, s'.mem (.stopEventHandlerCount c) = s.mem (.stopEventHandlerCount c)
  pipes : s'.pipes = s.pipes
  next : s'.nextPipe = s.nextPipe
  owner : ∀ c, s'.owner (.stopEventLock c) = s.owner (.stopEventLock c)
  registrations : s'.hist.registrations = s.hist.registrations
  deregistrations : s'.hist.deregistrations = s.hist.deregistrations
  runs : s'.hist.runs = s.hist.runs
  saw : s'.hist.saw = s.hist.saw

section Steps

variable {strict : Prop} {γ γ' : Tid → Stage} {s s' : World} {t : Tid} {g : Stage} {c : Spe}
  {φ φ' : Held}

theorem IsSource.ne_end {fd : Fd} {q : PipeId} (h : IsSource s fd) : ¬ EndOf s fd q := by
  obtain ⟨spe, d, h⟩ := h
  simp [EndOf, h]

theorem IsSource.open {fd : Fd} (h : IsSource s fd) : s.fds fd ≠ none := by
  obtain ⟨spe, d, h⟩ := h
  simp [h]

theorem EndOf.open {fd : Fd} {q : PipeId} (h : EndOf s fd q) : s.fds fd ≠ none := by
  rcases h with h | h <;> simp [h]

/-- An open descriptor still refers to the same file. -/
theorem Quiet.same (hq : Quiet s s') {fd : Fd} (h : s.fds fd ≠ none) : s'.fds fd = s.fds fd :=
  (hq.fds fd).resolve_right fun h' => h h'.1

theorem Quiet.isSource (hq : Quiet s s') {fd : Fd} (h : IsSource s fd) : IsSource s' fd := by
  rw [IsSource, hq.same h.open]
  exact h

theorem Quiet.keeps (hq : Quiet s s') (c : Spe) : Keeps c s s' where
  pipe := hq.pipe c
  count := hq.count c
  next := hq.next.ge
  old q _ _ := congrFun hq.pipes q
  new _ hlt hspe := ⟨hq.next ▸ hlt, hq.pipes ▸ hspe⟩
  ends fd _ he _ := ⟨hq.same he.open, fun h => (hq.epoll h fd).resolve_right fun hs => hs.ne_end he⟩
  registrations := congrFun hq.registrations c
  deregistrations := congrFun hq.deregistrations c
  runs := congrFun hq.runs c

theorem Files.quiet (h : Files s) (hq : Quiet s s') : Files s' where
  numbers fd hfd := by
    rcases hq.fds fd with he | ⟨-, hle, -⟩
    · exact h.numbers fd (he ▸ hfd)
    · exact hle
  sets x fd hx := by
    have hopen : s.fds fd ≠ none := by
      rcases hq.epoll x fd with he | hs
      · exact h.sets x fd (he ▸ hx)
      · exact hs.open
    rwa [hq.same hopen]
  ends fd q he := by
    rcases hq.fds fd with hsame | ⟨-, -, hs⟩
    · rw [EndOf, hsame] at he
      exact hq.next ▸ h.ends fd q he
    · exact absurd he hs.ne_end
  arrays c d hne := by
    rcases hq.arrays c d with he | he | he
    · rw [he] at hne ⊢
      exact hq.isSource (h.arrays c d hne)
    · exact absurd he hne
    · exact he

/-- The stage of a pipe that a step, and the stages of the threads, leave alone. -/
theorem InStage.keeps (h : InStage strict γ s c φ) (hk : Keeps c s s')
    (howner : s'.owner (.stopEventLock c) = s.owner (.stopEventLock c))
    (hheld : ∀ u ψ, (γ' u).held = some (c, ψ) ↔ (γ u).held = some (c, ψ))
    (hrun : ∀ u x, (γ' u).run = some (c, x) ↔ (γ u).run = some (c, x))
    (hsaw : ∀ u x, (γ u).run = some (c, x) → s'.hist.saw u = s.hist.saw u) :
    InStage strict γ' s' c φ where
  shape := h.shape.keeps hk
  rest ho := h.rest (howner ▸ ho)
  holder u := by simp only [howner, hheld, h.holder]
  held u ψ hu := h.held u ψ ((hheld u ψ).mp hu)
  nodup := hk.runs ▸ h.nodup
  runs u := by simp only [hk.runs, hrun, h.runs]
  run u p fd hu := by
    have hu := (hrun u _).mp hu
    exact ⟨(h.run u p fd hu).1, (hsaw u _ hu).trans (h.run u p fd hu).2⟩

/-- **Quiet steps** keep the invariant; the thread may come to know a source. -/
theorem StopInv.quiet (hi : StopInv strict γ s) (hq : Quiet s s') (hheld : g.held = (γ t).held)
    (hrun : g.run = (γ t).run) (hsrc : ∀ fd, g.source = some fd → IsSource s' fd) :
    StopInv strict (update γ t g) s' where
  files := hi.files.quiet hq
  source u fd hu := by
    by_cases ht : u = t
    · subst ht
      exact hsrc fd (by simpa using hu)
    · exact hq.isSource (hi.source u fd (by simpa [ht] using hu))
  stage c := by
    obtain ⟨φ, hφ⟩ := hi.stage c
    refine ⟨φ, hφ.keeps (hq.keeps c) (hq.owner c) (fun u ψ => ?_) (fun u x => ?_)
      (fun u x _ => congrFun hq.saw u)⟩
    · by_cases ht : u = t
      · subst ht
        simp [hheld]
      · simp [ht]
    · by_cases ht : u = t
      · subst ht
        simp [hrun]
      · simp [ht]

/-- A step of one thread on the pipe of one context: what remains to be shown is the stage of that
pipe. -/
theorem StopInv.on (hi : StopInv strict γ s) (c : Spe) (φ' : Held) (hf : Files s')
    (hsrc : ∀ fd, IsSource s fd → IsSource s' fd) (hg : g.source = (γ t).source)
    (hk : ∀ c', c' ≠ c → Keeps c' s s')
    (howner : ∀ c', c' ≠ c → s'.owner (.stopEventLock c') = s.owner (.stopEventLock c'))
    (hheld : ∀ c', c' ≠ c → ∀ ψ, g.held = some (c', ψ) ↔ (γ t).held = some (c', ψ))
    (hrun : ∀ c', c' ≠ c → ∀ x, g.run = some (c', x) ↔ (γ t).run = some (c', x))
    (hsaw : ∀ u, u ≠ t ∨ g.run = (γ t).run → s'.hist.saw u = s.hist.saw u)
    (hnone : g.run = (γ t).run ∨ (γ t).run = none ∨ g.run = none)
    (hc : InStage strict (update γ t g) s' c φ') : StopInv strict (update γ t g) s' where
  files := hf
  source u fd hu := by
    by_cases ht : u = t
    · subst ht
      exact hsrc fd (hi.source u fd (by simpa [hg] using hu))
    · exact hsrc fd (hi.source u fd (by simpa [ht] using hu))
  stage c' := by
    by_cases hcc : c' = c
    · subst hcc
      exact ⟨φ', hc⟩
    obtain ⟨φ, hφ⟩ := hi.stage c'
    refine ⟨φ, hφ.keeps (hk c' hcc) (howner c' hcc) (fun u ψ => ?_) (fun u x => ?_)
      (fun u x hu => hsaw u ?_)⟩
    · by_cases ht : u = t
      · subst ht
        simp [hheld c' hcc]
      · simp [ht]
    · by_cases ht : u = t
      · subst ht
        simp [hrun c' hcc]
      · simp [ht]
    · by_cases ht : u = t
      · subst ht
        refine .inr ?_
        rcases hnone with h | h | h
        · exact h
        · simp [h] at hu
        · have := (hrun c' hcc x).mpr hu
          simp [h] at this
      · exact .inl ht

/-- A step on the pipe of `c` by the holder of its lock. -/
structure Local (c : Spe) (s s' : World) : Prop where
  files : Files s → Files s'
  source : ∀ fd, IsSource s fd → IsSource s' fd
  others : ∀ c', c' ≠ c → Keeps c' s s'
  owner : s'.owner = s.owner
  runs : s'.hist.runs = s.hist.runs
  saw : s'.hist.saw = s.hist.saw

theorem StopInv.held (hi : StopInv strict γ s) (hg : (γ t).held = some (c, φ)) :
    InStage strict γ s c φ := by
  obtain ⟨ψ, hψ⟩ := hi.stage c
  rwa [hψ.held t φ hg]

theorem InStage.owner (h : InStage strict γ s c φ) (hg : (γ t).held = some (c, φ)) :
    s.owner (.stopEventLock c) = some t := (h.holder t).mpr ⟨φ, hg⟩

/-- **The holder** of a lock keeps the invariant by keeping the shape of the pipe. -/
theorem StopInv.local (hi : StopInv strict γ s) (hg : γ t = g.hold c φ) (hl : Local c s s')
    (hs : Shape strict c φ' s') (hw : φ'.writeEnd = φ.writeEnd ∨ s.hist.runs c = []) :
    StopInv strict (update γ t (g.hold c φ')) s' := by
  have hφ := hi.held (show (γ t).held = some (c, φ) by simp [hg])
  have ho := hφ.owner (t := t) (by simp [hg])
  refine hi.on c φ' (hl.files hi.files) hl.source (by simp [hg]) hl.others
    (fun _ _ => by rw [hl.owner]) (fun c' hne ψ => by simp [hg, Ne.symm hne])
    (fun c' _ x => by simp [hg]) (fun u _ => congrFun hl.saw u) (.inl (by simp [hg])) ?_
  refine ⟨hs, fun hn => ?_, fun u => ?_, fun u ψ hu => ?_, ?_, fun u => ?_, fun u p fd hu => ?_⟩
  · rw [hl.owner, ho] at hn
    cases hn
  · by_cases hut : u = t
    · subst hut
      simp [hl.owner, ho]
    · simp [hl.owner, hut, hφ.holder]
  · by_cases hut : u = t
    · subst hut
      simpa using hu.symm
    · have := (hφ.holder u).mpr ⟨ψ, by simpa [hut] using hu⟩
      rw [ho] at this
      exact absurd (Option.some.inj this).symm hut
  · rw [hl.runs]
    exact hφ.nodup
  · by_cases hut : u = t
    · subst hut
      simp [hl.runs, hφ.runs, hg]
    · simp [hl.runs, hφ.runs, hut]
  · have hu : (γ u).run = some (c, p, fd) := by
      by_cases hut : u = t
      · subst hut
        simpa [hg] using hu
      · simpa [hut] using hu
    obtain ⟨hwr, hsaw⟩ := hφ.run u p fd hu
    refine ⟨?_, (congrFun hl.saw u).trans hsaw⟩
    rcases hw with hw | hw
    · rw [hw, hwr]
    · have := (hφ.runs u).mpr ⟨_, hu⟩
      simp [hw] at this

end Steps

end LibSpe2
