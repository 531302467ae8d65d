import LibSpe2.Conc.Simulate
import LibSpe2.Context.Created

/-!
# Context resources are released exactly once

A context that could not be created leaves nothing behind, and one that is destroyed has released all
that was acquired for it, whatever has been called in between and whatever the kernel answered.

* `acquiredBy`, `releasedBy` — what the commands of a run acquire and release.
* `post_attachEvents`, `post_speContextDestroy` — the two ends of the invariant's validity.

Main results:
* `context_released` — what is acquired for a context is released, once, and nothing else is.
-/

namespace LibSpe2.Ctx

open Conc Function

variable {l : Life} {w : Watch} {spe : Spe} {s s' s₁ : Proc} {α : Type}

/-! ## From creation to destruction -/

theorem flags_or_and (a b c : UInt32) : (a ||| b) &&& c = (a &&& c) ||| (b &&& c) :=
  UInt32.toBitVec_inj.mp BitVec.and_or_distrib_right

theorem contextFlags_events (flags : UInt32) :
    contextFlags flags &&& speEventsEnable = flags &&& speEventsEnable := by
  unfold contextFlags
  split
  · rw [flags_or_and]
    exact UInt32.or_zero
  · rfl

/-- An isolated context maps its problem state. -/
theorem contextFlags_isolate {flags : UInt32} (h : contextFlags flags &&& speIsolate ≠ 0) :
    contextFlags flags &&& speMapPs ≠ 0 := by
  unfold contextFlags at h ⊢
  split
  · rw [flags_or_and]
    exact fun h => absurd (UInt32.or_eq_zero_iff.mp h).2 (by decide)
  · next hiso =>
    rw [if_neg hiso] at h
    exact absurd h hiso

/-- What is fixed for a context that `attachEvents` returns. -/
def Proc.lifeOf (s : Proc) (flags : UInt32) (mapped : Prop) : Life where
  flags := contextFlags flags
  event := flags &&& speEventsEnable ≠ 0
  others := s.live
  faults := s.faults
  mapped := mapped

/-- A context of the base layer with its event record, or without one. -/
theorem Created.inv {flags : UInt32} {mapped : Prop} {mem : Loc → Int}
    (hc : Created spe (contextFlags flags) s s')
    (hmapped : mapped → s'.wild = [] ∧
      (contextFlags flags &&& speMapPs ≠ 0 → ∀ a, s'.base.area a ≠ none))
    (hslots : ∀ d, mem (.speFdsArray spe d) = s'.mem (.speFdsArray spe d))
    (hends : (s.lifeOf flags mapped).event = true → ∀ i, mem (.stopEventPipe spe i) = -1) :
    Inv (s.lifeOf flags mapped) spe
      { s' with mem := mem, eventPrivate := (s.lifeOf flags mapped).event } where
  live := by
    have hlive : s'.live = s.live + (s'.base.owned + s'.slotFds spe fdNames + 0) := hc.live
    have hpipe : (if (s.lifeOf flags mapped).event = true then
        heldFd (mem (.stopEventPipe spe 0)) + heldFd (mem (.stopEventPipe spe 1)) else 0) = 0 := by
      split
      · next he =>
        rw [hends he 0, hends he 1]
        rfl
      · rfl
    have hslots : ({ s' with mem := mem } : Proc).slotFds spe fdNames = s'.slotFds spe fdNames :=
      slotFds_congr fun d _ => hslots d
    show s'.live = s.live + (s'.base.owned + ({ s' with mem := mem } : Proc).slotFds spe fdNames + _)
    rw [hslots, hlive]
    congr 2
    exact hpipe.symm
  faults := hc.faults
  slots d := by
    show mem _ = -1 ∨ 0 ≤ mem _
    rw [hslots]
    exact hc.slots d
  ends he i := .inl (hends he i)
  flags := hc.flags
  event := rfl
  hasEvent h := decide_eq_true (contextFlags_events flags ▸ h)
  isolate := contextFlags_isolate
  areas := hmapped
  counted he _ i := hends he i

theorem post_eventInitialize :
    CtxPost w (eventSpeContextInitialize spe) s fun ok s' =>
      ok = false ∧ s' = s ∨ ok = true ∧ ∃ mem, s' = { s with mem := mem } ∧
        (∀ d, mem (.speFdsArray spe d) = s.mem (.speFdsArray spe d)) ∧
        ∀ i, mem (.stopEventPipe spe i) = -1 := by
  apply post_step (c := .malloc) trivial
  intro addr s h
  obtain rfl := Option.some.inj h
  cases addr with
  | none => exact .ret (.inl ⟨rfl, rfl⟩)
  | some addr =>
  apply post_step (c := .store _ _) trivial
  intro _ s₁ h
  obtain rfl := Option.some.inj h
  apply post_step (c := .store _ _) trivial
  intro _ s₂ h
  obtain rfl := Option.some.inj h
  apply post_step (c := .store _ _) trivial
  intro _ s₃ h
  obtain rfl := Option.some.inj h
  apply post_step (c := .store _ _) trivial
  intro _ s₄ h
  obtain rfl := Option.some.inj h
  refine .ret (.inr ⟨rfl, _, rfl, fun d => ?_, fun i => ?_⟩)
  · simp [setMem_of_ne]
  · match i with
    | 0 => simp
    | 1 => simp

/-- The event record is attached, and the invariant holds, or the context is freed again. -/
theorem post_attachEvents {flags : UInt32} {mapped : Prop}
    (hc : Created spe (contextFlags flags) s s')
    (hmapped : mapped → s'.wild = [] ∧
      (contextFlags flags &&& speMapPs ≠ 0 → ∀ a, s'.base.area a ≠ none)) :
    CtxPost w (attachEvents spe flags) s' fun created s'' =>
      created = false ∧ s''.live = s.live ∧ s''.faults = s.faults ∨
      created = true ∧ Inv (s.lifeOf flags mapped) spe s'' := by
  unfold attachEvents
  split
  · next hev =>
    have hevent : (s.lifeOf flags mapped).event = true := decide_eq_true hev
    refine post_eventInitialize.bind ?_
    rintro ok s₁ (⟨rfl, rfl⟩ | ⟨rfl, mem, rfl, hslots, hends⟩)
    · apply post_step (c := .setEventPrivate false) trivial
      intro _ s₂ h
      obtain rfl := Option.some.inj h
      have hs : Holds (s.life (contextFlags flags)) spe { s₁ with eventPrivate := false } :=
        ⟨hc.live, hc.faults, hc.slots, hc.ends⟩
      exact (hs.free rfl).bind fun _ _ h => .ret (.inl ⟨rfl, h⟩)
    · apply post_step (c := .setEventPrivate true) trivial
      intro _ s₂ h
      obtain rfl := Option.some.inj h
      have hinv := hc.inv hmapped hslots fun _ => hends
      rw [hevent] at hinv
      exact .ret (.inr ⟨rfl, hinv⟩)
  · next hev =>
    have hevent : (s.lifeOf flags mapped).event = false := decide_eq_false hev
    apply post_step (c := .setEventPrivate false) trivial
    intro _ s₁ h
    obtain rfl := Option.some.inj h
    have hinv := hc.inv hmapped (fun _ => rfl) fun he => absurd (hevent ▸ he) Bool.false_ne_true
    rw [hevent] at hinv
    exact .ret (.inr ⟨rfl, hinv⟩)

/-- A context of the invariant that is destroyed leaves nothing behind. -/
theorem post_speContextDestroy (hs : Inv l spe s) :
    CtxPost w (speContextDestroy spe) s fun _ s' =>
      s'.live = l.others ∧ s'.faults = l.faults := by
  apply post_step (c := .eventPrivate) trivial
  intro event s h
  obtain ⟨rfl, rfl⟩ := of_guard h
  split
  · next he =>
    rw [hs.event] at he
    have hfinalize : CtxPost w (eventSpeContextFinalize spe) s fun ret s₁ => ret = 0 ∧
        s₁.live = s₁.base.owned + s₁.slotFds spe fdNames + l.others ∧ s₁.faults = l.faults := by
      apply post_step (c := .setEventPrivate false) trivial
      intro _ s₁ h
      obtain rfl := Option.some.inj h
      have hs₁ : Holds l spe { s with eventPrivate := false } :=
        ⟨hs.live, hs.faults, hs.slots, hs.ends⟩
      refine Post.bind (sysPost_pipeClose hs₁ he) ?_
      rintro _ s₂ h₂
      have hs₂ : Holds l spe s₂ := h₂ ▸ (hs₁.endClosed he).endClosed he
      refine .ret ⟨rfl, ?_, hs₂.faults⟩
      rw [hs₂.live, Proc.owned, Proc.pipeFds, he, h₂, closePipe_mem, closePipe_mem]
      simp only [heldFd_neg_one, ↓reduceIte]
      abel
    refine hfinalize.bind ?_
    rintro ret s₁ ⟨rfl, hlive, hfaults⟩
    rw [if_neg (by decide)]
    exact (post_freeSpeContext hlive).mono fun _ _ h => ⟨h.1, h.2.trans hfaults⟩
  · next he =>
    rw [hs.event] at he
    exact hs.toHolds.free (by simpa using he)

/-! ## What a run acquires and releases -/

def acquiredBy : (c : Cmd) → Ans c → Multiset Resource
  | .spuCreate _ _ _, .ok fd => {.fd fd}
  | .openat _ _ _, .ok fd => {.fd fd}
  | .mmap _ size, some base => {.map base size}
  | .pipe, .ok (r, w) => {.fd r} + {.fd w}
  | _, _ => 0

def releasedBy : Cmd → Multiset Resource
  | .munmap base size => {.map base size}
  | .close fd => {.fd fd}
  | _ => 0

def acquired (tr : List (Sigma Ans)) : Multiset Resource :=
  (tr.map fun e => acquiredBy e.1 e.2).sum

def released (tr : List (Sigma Ans)) : Multiset Resource :=
  (tr.map fun e => releasedBy e.1).sum

/-- The faults after a command, and what is held if there is no new one. -/
def Balance (s s' : Proc) (gain loss : Multiset Resource) : Prop :=
  ∃ faults, s'.faults = faults ++ s.faults ∧ (faults = [] → s'.live + loss = s.live + gain)

theorem balance_still (hl : s'.live = s.live) (hf : s'.faults = s.faults) : Balance s s' 0 0 :=
  ⟨[], hf, fun _ => by rw [hl]⟩

theorem balance_acquire {gain : Multiset Resource} (hl : s'.live = gain + s.live)
    (hf : s'.faults = s.faults) : Balance s s' gain 0 :=
  ⟨[], hf, fun _ => by rw [hl, add_zero, add_comm]⟩

theorem balance_release {r : Resource} : Balance s (s.release r) 0 {r} := by
  unfold Proc.release
  split
  · next hr =>
    refine ⟨[], rfl, fun _ => ?_⟩
    rw [add_zero, add_comm, Multiset.singleton_add, Multiset.cons_erase hr]
  · exact ⟨[r], rfl, fun h => by cases h⟩

theorem exec_balance {c : Cmd} {r : Ans c} (h : exec () c r s = some s') :
    Balance s s' (acquiredBy c r) (releasedBy c) := by
  cases c with
  | munmap base size =>
    obtain rfl := Option.some.inj h
    exact balance_release
  | close fd =>
    obtain rfl := Option.some.inj h
    exact balance_release
  | spuCreate pathname flags affSpeFd =>
    cases r with
    | error e =>
      obtain rfl := Option.some.inj h
      exact balance_still rfl rfl
    | ok fd =>
      obtain ⟨-, rfl⟩ := of_guard h
      exact balance_acquire rfl rfl
  | openat dir filename mode =>
    cases r with
    | error e =>
      obtain rfl := Option.some.inj h
      exact balance_still rfl rfl
    | ok fd =>
      obtain ⟨-, rfl⟩ := of_guard h
      exact balance_acquire rfl rfl
  | mmap fd size =>
    cases r with
    | none =>
      obtain rfl := Option.some.inj h
      exact balance_still rfl rfl
    | some base =>
      obtain ⟨-, rfl⟩ := of_guard h
      exact balance_acquire rfl rfl
  | pipe =>
    rcases r with e | ⟨r, w⟩
    · obtain rfl := Option.some.inj h
      exact balance_still rfl rfl
    · obtain ⟨-, rfl⟩ := of_guard h
      refine balance_acquire ?_ rfl
      show .fd w ::ₘ .fd r ::ₘ s.live = {.fd r} + {.fd w} + s.live
      rw [← Multiset.singleton_add, ← Multiset.singleton_add]
      abel
  | write fd bytes =>
    obtain rfl := Option.some.inj h
    unfold Proc.noteWrite
    split <;> exact balance_still rfl rfl
  | access a =>
    obtain rfl := Option.some.inj h
    unfold Proc.noteAccess
    split <;> exact balance_still rfl rfl
  | load loc =>
    obtain ⟨-, rfl⟩ := of_guard h
    exact balance_still rfl rfl
  | base =>
    obtain ⟨-, rfl⟩ := of_guard h
    exact balance_still rfl rfl
  | eventPrivate =>
    obtain ⟨-, rfl⟩ := of_guard h
    exact balance_still rfl rfl
  | _ =>
    obtain rfl := Option.some.inj h
    exact balance_still rfl rfl

theorem play_balance {tr : List (Sigma Ans)} (h : machine.play () tr s = some s') :
    Balance s s' (acquired tr) (released tr) := by
  induction tr generalizing s with
  | nil =>
    obtain rfl := Option.some.inj h
    exact balance_still rfl rfl
  | cons e tr ih =>
    obtain ⟨s₁, h₁, h⟩ := Option.bind_eq_some_iff.mp h
    obtain ⟨f₁, hf₁, hb₁⟩ := exec_balance h₁
    obtain ⟨f₂, hf₂, hb₂⟩ := ih h
    refine ⟨f₂ ++ f₁, by rw [hf₂, hf₁, List.append_assoc], fun hnil => ?_⟩
    obtain ⟨rfl, rfl⟩ := List.append_eq_nil_iff.mp hnil
    have h₁ := hb₁ rfl
    have h₂ := hb₂ rfl
    unfold acquired released at h₂ ⊢
    rw [List.map_cons, List.map_cons, List.sum_cons, List.sum_cons, add_left_comm, h₂, ← add_assoc,
      add_comm (releasedBy e.1), h₁, add_assoc]

/-- A run without a fault that ends with what it started with has released what it acquired. -/
theorem released_eq_acquired {tr : List (Sigma Ans)} (h : machine.play () tr s = some s')
    (hlive : s'.live = s.live) (hfaults : s'.faults = s.faults) : released tr = acquired tr := by
  obtain ⟨f, hf, hb⟩ := play_balance h
  have hnil : f = [] := by
    rw [hfaults] at hf
    exact List.append_left_eq_self.mp hf.symm
  exact add_left_cancel ((hlive ▸ hb hnil :))

/-! ## Whole lives -/

/-- Only the faults are watched. -/
def Proc.watch (s : Proc) : Watch := ⟨s.faults, False⟩

/-- What a call that creates a context leads to: nothing is left of a context that is not returned. -/
def Returned (spe : Spe) (s : Proc) (created : Bool) (s' : Proc) : Prop :=
  created = false ∧ s'.live = s.live ∧ s'.faults = s.faults ∨
  created = true ∧ ∃ l, l.others = s.live ∧ l.watch = s.watch ∧ Inv l spe s'

theorem post_createContext {flags : UInt32} {gang : Option String} {affSpe : Option Fd} :
    CtxPost w (createContext spe flags gang affSpe) s (Returned spe s) := by
  refine post_baseCreate.bind ?_
  rintro created s₁ (⟨rfl, h⟩ | ⟨rfl, h⟩)
  · exact .ret (.inl ⟨rfl, h⟩)
  · refine (post_attachEvents h False.elim).mono ?_
    rintro created s' (h | ⟨hc, h⟩)
    · exact .inl h
    · exact .inr ⟨hc, _, rfl, rfl, h⟩

theorem post_creation {creation : Creation} :
    CtxPost w (creation.code spe) s (Returned spe s) := by
  rcases creation with ⟨flags, gang⟩ | ⟨flags, neighbor, _ | gang⟩
  · exact post_createContext
  · apply post_step (c := .setErrno esrch) trivial
    intro _ s₁ h
    obtain rfl := Option.some.inj h
    exact .ret (.inl ⟨rfl, rfl, rfl⟩)
  · exact post_createContext

/-- A context is created and used. -/
def life (spe : Spe) (creation : Creation) (calls : List Op) : Code Bool := do
  if ← creation.code spe then
    ops spe calls
    return true
  else return false

theorem post_life {creation : Creation} {calls : List Op} :
    CtxPost s.watch (life spe creation calls) s (Returned spe s) := by
  refine post_creation.bind ?_
  rintro created s₁ (⟨rfl, h⟩ | ⟨rfl, l, hl, hw, h⟩)
  · exact .ret (.inl ⟨rfl, h⟩)
  · rw [← hw]
    refine (keeps_ops.post h).bind fun _ s₂ h₂ => ?_
    exact .ret (.inr ⟨rfl, l, hl, hw, h₂.1⟩)

theorem post_session {creation : Creation} {calls : List Op} :
    CtxPost s.watch (session spe creation calls) s fun _ s' =>
      s'.live = s.live ∧ s'.faults = s.faults := by
  refine post_creation.bind ?_
  rintro created s₁ (⟨rfl, h⟩ | ⟨rfl, l, hl, hw, h⟩)
  · exact .ret h
  · rw [← hw]
    refine (keeps_ops.post h).bind fun _ s₂ h₂ => ?_
    refine (post_speContextDestroy h₂.1).bind fun _ s₃ h₃ => ?_
    exact .ret ⟨h₃.1.trans hl, h₃.2.trans (congrArg Watch.faults hw)⟩

theorem Proc.calm (s : Proc) : s.watch.Calm s := ⟨rfl, False.elim⟩

/-- **Context resources are released exactly once.** At no moment of a context's life is anything released
that the process does not hold. A failed creation has released what it acquired; a context that is in use
holds what its records say; a context that is destroyed has released all that was acquired for it. -/
theorem context_released {creation : Creation} {calls : List Op} :
    (∀ tr s', (session spe creation calls).Starts tr → machine.play () tr s = some s' →
      s'.faults = s.faults) ∧
    (∀ tr s', (creation.code spe).Ends tr false → machine.play () tr s = some s' →
      s'.live = s.live ∧ released tr = acquired tr) ∧
    (∀ tr s', (life spe creation calls).Ends tr true → machine.play () tr s = some s' →
      ∃ event, s'.live = s.live + s'.owned spe event) ∧
    ∀ tr created s', (session spe creation calls).Ends tr created → machine.play () tr s = some s' →
      s'.live = s.live ∧ released tr = acquired tr := by
  have hsession := (post_session : CtxPost s.watch (session spe creation calls) s _) s.calm
  refine ⟨fun tr s' hp hs => ?_, fun tr s' hp hs => ?_, fun tr s' hp hs => ?_,
    fun tr created s' hp hs => ?_⟩
  · exact (hsession.2 tr s' hp hs).1
  · rcases (post_creation s.calm).1 tr false s' hp hs with ⟨-, hl, hf⟩ | ⟨h, -⟩
    · exact ⟨hl, released_eq_acquired hs hl hf⟩
    · cases h
  · rcases (post_life s.calm).1 tr true s' hp hs with ⟨h, -⟩ | ⟨-, l, hl, -, h⟩
    · cases h
    · exact ⟨l.event, hl ▸ h.live⟩
  · obtain ⟨hl, hf⟩ := hsession.1 tr created s' hp hs
    exact ⟨hl, released_eq_acquired hs hl hf⟩

/-! ## A context that signals -/

/-- Answers to the embedded commands: every write takes all bytes, every read fails. -/
def sysAnswer (c : LibSpe2.Cmd) : LibSpe2.Ans c := by
  cases c with
  | load | flags | readMboxStat | readOutMbox | spuPop => exact 0
  | loadBuffer => exact .fill 0
  | loadRecord spe => exact ⟨0, spe, 0⟩
  | errno => exact .zero
  | write fd bytes => exact .ok bytes.length
  | openat | pipe | fcntlGetfl | fcntlSetfl | read | poll | epollAdd | epollDel | epollWait =>
    exact .error Errno.EIO
  | malloc => exact false
  | baseRun => exact (0, .fill 0)
  | _ => exact ()

/-- A kernel that grants everything, with descriptors and addresses that nobody has. -/
def obliging (c : Cmd) (s : Proc) : Ans c := by
  cases c with
  | malloc => exact some 1
  | getpid => exact 7
  | emulatedLoaderPresent => exact true
  | spuCreate | openat => exact .ok (3 + s.live.card)
  | mmap => exact some (lsSize * (1 + s.live.card))
  | write fd bytes => exact .ok bytes.length
  | pipe => exact .ok (3 + s.live.card, 4 + s.live.card)
  | load l => exact s.mem l
  | base => exact s.base
  | eventPrivate => exact s.eventPrivate
  | loadSpeElf => exact (0, 0)
  | loadEmulatedLoader => exact some (0, 0)
  | parseIsolatedElf => exact (0, 0, 0)
  | someWord => exact 0
  | sys c => exact sysAnswer c
  | dma c => cases c <;> first | exact () | exact (0 : UInt32) | exact (0 : Int) | exact (0, false) |
      exact ((0 : Int), (0 : UInt32))
  | run c => cases c <;> first | exact () | exact (0 : Int) |
      exact (⟨0, 0, 0, 0⟩, ⟨0, 0, 0, 0⟩, ⟨0, 0, 0, 0⟩) | exact ⟨0, 0, 0, 0⟩
  | _ => exact ()

/-- A process that holds nothing. -/
def Proc.empty : Proc where
  mem _ := 0
  base := ⟨0, 0, 0, 0, none, none, none, none, none, none, none, none⟩
  eventPrivate := false
  live := 0
  files _ := ""
  faults := []
  wild := []
  mapped := []
  written := []
  refused := []

theorem context_released_signal : ∃ tr s',
    (session 0 (.create 0 none) [.signalWrite 1 7]).Ends tr true ∧
      machine.play () tr .empty = some s' ∧ s'.mapped = ["mem"] ∧ s'.faults = [] ∧ s'.live = 0 ∧
      released tr = acquired tr := by
  have hrun : ((machine.run () obliging 0 (session 0 (.create 0 none) [.signalWrite 1 7])
      .empty).any fun x => x.2.1 && x.2.2.mapped = ["mem"]) = true := by decide
  obtain ⟨tr, created, s', hp, hs, h⟩ :=
    exists_run (P := fun created (s' : Proc) => created && s'.mapped = ["mem"]) hrun
  obtain ⟨rfl, hmapped⟩ := (Bool.and_eq_true _ _).mp h
  obtain ⟨hfaults, -, -, hdestroyed⟩ :=
    @context_released 0 .empty (.create 0 none) [.signalWrite 1 7]
  refine ⟨tr, s', hp, hs, of_decide_eq_true hmapped, hfaults tr s' hp.starts hs, ?_⟩
  exact hdestroyed tr true s' hp hs

end LibSpe2.Ctx
