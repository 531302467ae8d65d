import LibSpe2.SpeEvent.StopPipe

/-!
# The stop-event pipe: accounting and delivery

What the invariant of `SpeEvent/StopInv.lean` says about the states that any number of threads can
reach.

## Main results

* `stopEventPipe_account` — whenever nobody holds the lock, the count is that of the users of the
  pipe, there is a pipe exactly while there are users, and every other pipe is closed, once;
* `stopInfo_delivery` — every pipe delivers the stop infos written to it whole, once and in order.
-/

namespace LibSpe2

open Conc (Prog Config)

/-! ## A run: a registration, a run that stops, and a read -/

/-- The first registration for `SPE_EVENT_SPE_STOPPED`, of context `0` with handler `7`. -/
def registerTrace : List (Sigma Ans) :=
  [⟨.flags 0, speEventsEnable⟩, ⟨.lock (.lock 0), ()⟩, ⟨.lock (.stopEventLock 0), ()⟩,
    ⟨.load (.stopEventHandlerCount 0), (0 : Int)⟩, ⟨.pipe 0, .ok (3, 4)⟩,
    ⟨.store (.stopEventPipe 0 0) 3, ()⟩, ⟨.store (.stopEventPipe 0 1) 4, ()⟩,
    ⟨.load (.stopEventPipe 0 0), (3 : Int)⟩, ⟨.fcntlGetfl 3, .ok false⟩,
    ⟨.load (.stopEventPipe 0 0), (3 : Int)⟩, ⟨.fcntlSetfl 3 true, .ok ()⟩,
    ⟨.store (.stopEventBufferCount 0) 0, ()⟩, ⟨.load (.stopEventHandlerCount 0), (0 : Int)⟩,
    ⟨.store (.stopEventHandlerCount 0) 1, ()⟩, ⟨.load (.stopEventPipe 0 0), (3 : Int)⟩,
    ⟨.storeRecord 0 .speStopped 8 5, ()⟩, ⟨.epollAdd 7 3 ⟨false, 0, .speStopped, 5⟩, .ok ()⟩,
    ⟨.note (.registered 0), ()⟩, ⟨.unlock (.stopEventLock 0), ()⟩, ⟨.unlock (.lock 0), ()⟩]

def someInfo : StopInfo := .fill 1

/-- A run of context `0` while the pipe is in use. -/
def runTrace : List (Sigma Ans) :=
  [⟨.baseRun 0, (0, someInfo)⟩, ⟨.errno, Errno.EINVAL⟩, ⟨.lock (.stopEventLock 0), ()⟩,
    ⟨.load (.stopEventPipe 0 1), (4 : Int)⟩, ⟨.load (.stopEventHandlerCount 0), (1 : Int)⟩,
    ⟨.load (.stopEventHandlerCount 0), (1 : Int)⟩, ⟨.store (.stopEventHandlerCount 0) 2, ()⟩,
    ⟨.note (.runAcquired 0 4), ()⟩, ⟨.unlock (.stopEventLock 0), ()⟩,
    ⟨.write 4 someInfo.bytes, .ok stopInfoSize⟩, ⟨.lock (.stopEventLock 0), ()⟩,
    ⟨.note (.runReleased 0), ()⟩, ⟨.load (.stopEventHandlerCount 0), (2 : Int)⟩,
    ⟨.store (.stopEventHandlerCount 0) 1, ()⟩, ⟨.load (.stopEventHandlerCount 0), (1 : Int)⟩,
    ⟨.unlock (.stopEventLock 0), ()⟩, ⟨.setErrno .EINVAL, ()⟩]

/-- A read of the pipe in one piece. -/
def readTrace : List (Sigma Ans) :=
  [⟨.lock (.stopEventLock 0), ()⟩, ⟨.load (.stopEventPipe 0 0), (3 : Int)⟩,
    ⟨.read 3 stopInfoSize, .ok someInfo.bytes⟩, ⟨.noteStopInfo 3 someInfo.bytes, ()⟩,
    ⟨.unlock (.stopEventLock 0), ()⟩]

/-- The configuration in which a stop info has been written and read. -/
def readConfig : Config Cmd Ans Tid World :=
  ⟨((World.boot.after 1 registerTrace).after 2 runTrace).after 1 readTrace, fun _ => none⟩

theorem registered_reach {ok : Tid → (c : Cmd) → Ans c → World → Prop}
    (hok : machine.Passes ok 1 registerTrace .boot) :
    eventSystem.Reach ok ⟨World.boot.after 1 registerTrace, fun _ => none⟩ := by
  refine (Conc.System.Reach.init eventInit_boot).solo (t := 1)
    (c := .register (some 7) (some ⟨8, some 0, 5⟩)) rfl ?_ rfl hok
  repeat first | exact .ret | refine .cmd ?_

theorem read_reach : eventSystem.Reach retryErrors readConfig := by
  have h₁ : eventSystem.Reach retryErrors ⟨World.boot.after 1 registerTrace, fun _ => none⟩ :=
    registered_reach (by repeat' constructor)
  have h₂ : eventSystem.Reach retryErrors
      ⟨(World.boot.after 1 registerTrace).after 2 runTrace, fun _ => none⟩ := by
    refine h₁.solo (t := 2) (c := .run 0) rfl ?_
      (show machine.play 2 runTrace _ = some _ from rfl) (by repeat' constructor)
    repeat first | exact .ret | refine .cmd ?_
  refine h₂.solo (t := 1) (c := .stopInfoRead 0) rfl ?_
    (show machine.play 1 readTrace _ = some _ from rfl) (by repeat' constructor)
  refine .cmd (.cmd (.cmd ?_))
  exact Prog.ends_loop.mpr ⟨[], _, .inr (false, someInfo.bytes), rfl, .ret, .cmd (.cmd .ret)⟩

/-! ## Accounting -/

/-- The books of the pipe of `c`. -/
structure PipeAccount (c : Spe) (s : World) : Prop where
  count : s.mem (.stopEventHandlerCount c) =
    (s.hist.registrations c : Int) - s.hist.deregistrations c + (s.hist.runs c).length
  nonneg : 0 ≤ s.mem (.stopEventHandlerCount c)
  /-- While somebody uses the pipe, the members are the two open ends of one pipe. -/
  used : 0 < s.mem (.stopEventHandlerCount c) → ∃ p < s.nextPipe, (s.pipes p).spe = c ∧
    s.fds (s.mem (.stopEventPipe c 0)) = some (.pipeR p) ∧
    s.fds (s.mem (.stopEventPipe c 1)) = some (.pipeW p) ∧
    (s.pipes p).closedR = 0 ∧ (s.pipes p).closedW = 0 ∧
    ∀ q < s.nextPipe, (s.pipes q).spe = c → q ≠ p →
      (s.pipes q).closedR = 1 ∧ (s.pipes q).closedW = 1
  unused : s.mem (.stopEventHandlerCount c) = 0 → (∀ i, s.mem (.stopEventPipe c i) = -1) ∧
    ∀ q < s.nextPipe, (s.pipes q).spe = c → (s.pipes q).closedR = 1 ∧ (s.pipes q).closedW = 1

theorem stopInv_reach {strict : Prop} {cfg : Config Cmd Ans Tid World}
    (h : eventSystem.Reach (okStop strict) cfg) : ∃ γ, StopInv strict γ cfg.shared := by
  obtain ⟨γ, hγ, -⟩ := Conc.Proto.reach (P := stopProto strict) (fun _ => stopInv_init strict)
    (eventSystem_safe strict) h
  exact ⟨γ, hγ⟩

theorem stopPre_reach {strict : Prop} {cfg : Config Cmd Ans Tid World} {t : Tid} {c : Cmd}
    {k : Ans c → Sys Unit} (h : eventSystem.Reach (okStop strict) cfg)
    (ht : cfg.threads t = some (.cmd c k)) : stopPre t c cfg.shared :=
  Conc.Proto.reach_pre (P := stopProto strict) (fun _ => stopInv_init strict)
    (eventSystem_safe strict) h ht

theorem Shape.account {strict : Prop} {c : Spe} {φ : Held} {s : World} (hs : Shape strict c φ s)
    (hφ : φ.Rest) : PipeAccount c s := by
  cases hφ with
  | shut =>
    have hs : Shut strict c s := hs
    obtain ⟨hcount, hruns, hreg⟩ := hs.unused
    refine ⟨by simp [hcount, hruns, hreg], hcount.ge, fun h => ?_, fun _ => ⟨hs.pipe, ?_⟩⟩
    · rw [hcount] at h
      exact absurd h (lt_irrefl 0)
    · intro q hq hc
      obtain ⟨hr, hw, -⟩ := hs.past q hq hc nofun
      exact ⟨hr, hw⟩
  | @inUse p r w n hn =>
    have hs : InUse strict c p r w n 0 0 [] s := hs
    obtain ⟨live, -, hsum, hreg⟩ := hs.users
    refine ⟨by rw [hs.count]; omega, hs.count.symm ▸ hn.le, fun _ => ?_, fun h => ?_⟩
    · refine ⟨p, hs.lt, hs.spe, hs.pipe₀.symm ▸ hs.readEnd, hs.pipe₁.symm ▸ hs.writeEnd, hs.closedR,
        hs.closedW, fun q hq hc hne => ?_⟩
      obtain ⟨hr, hw, -⟩ := hs.past q hq hc (by simpa using Ne.symm hne)
      exact ⟨hr, hw⟩
    · rw [hs.count] at h
      exact absurd h hn.ne'

/-- **The reference count of the stop-event pipe.** In every reachable state the books of a context
whose lock is free are in order, and whoever is about to close an end of a pipe holds the lock of a
context whose count is `0`. -/
theorem stopEventPipe_account {cfg : Config Cmd Ans Tid World} (h : eventSystem.Reachable cfg) :
    (∀ c, cfg.shared.owner (.stopEventLock c) = none → PipeAccount c cfg.shared) ∧
    ∀ t fd k p, cfg.threads t = some (.cmd (.close fd) k) → EndOf cfg.shared fd p →
      cfg.shared.mem (.stopEventHandlerCount (cfg.shared.pipes p).spe) = 0 ∧
      cfg.shared.owner (.stopEventLock (cfg.shared.pipes p).spe) = some t := by
  have h' : eventSystem.Reach (okStop False) cfg := h.mono fun _ _ _ _ _ => False.elim
  constructor
  · intro c hfree
    obtain ⟨γ, hγ⟩ := stopInv_reach h'
    obtain ⟨φ, hφ⟩ := hγ.stage c
    exact hφ.shape.account (hφ.rest hfree)
  · intro t fd k p ht hp
    obtain ⟨hunused, ho⟩ := stopPre_reach h' ht p hp
    exact ⟨hunused.count, ho⟩

theorem stopEventPipe_account_read : PipeAccount 0 readConfig.shared ∧
    readConfig.shared.mem (.stopEventHandlerCount 0) = 1 :=
  ⟨(stopEventPipe_account (read_reach.mono fun _ _ _ _ _ => trivial)).1 0 rfl, rfl⟩
/-! ## Delivery -/

/-- What is delivered, in every state of a run whose reads and polls fail only with `EAGAIN` and
`EINTR`. -/
structure StopDelivery (cfg : Config Cmd Ans Tid World) : Prop where
  /-- Of every pipe, open or closed, the stop infos returned begin those written. -/
  inOrder : ∀ p < cfg.shared.nextPipe,
    (cfg.shared.pipes p).returned <+: (cfg.shared.pipes p).written.map StopInfo.bytes
  /-- While a registration is live there is a pipe, and it holds exactly what has not been returned. -/
  noLoss : ∀ c, cfg.shared.owner (.stopEventLock c) = none →
    cfg.shared.hist.registrations c ≠ cfg.shared.hist.deregistrations c →
    ∃ p rest, cfg.shared.fds (cfg.shared.mem (.stopEventPipe c 0)) = some (.pipeR p) ∧
      cfg.shared.fds (cfg.shared.mem (.stopEventPipe c 1)) = some (.pipeW p) ∧
      (cfg.shared.pipes p).written.map StopInfo.bytes = (cfg.shared.pipes p).returned ++ rest ∧
      rest.flatten = (cfg.shared.pipes p).queue
  /-- A run writes to the pipe that it saw open under the lock. -/
  writes : ∀ t fd bytes k, cfg.threads t = some (.cmd (.write fd bytes) k) →
    ∃ p, cfg.shared.hist.saw t = some p ∧ cfg.shared.fds fd = some (.pipeW p)
  /-- No pipe is closed while a registration on it is live. -/
  closes : ∀ t fd k p, cfg.threads t = some (.cmd (.close fd) k) → EndOf cfg.shared fd p →
    cfg.shared.hist.registrations (cfg.shared.pipes p).spe =
      cfg.shared.hist.deregistrations (cfg.shared.pipes p).spe
  /-- A read of an empty pipe is answered at once, with `EAGAIN`, and takes nothing. -/
  empty : ∀ t fd m k, cfg.threads t = some (.cmd (.read fd m) k) →
    ∃ p, cfg.shared.fds fd = some (.pipeR p) ∧ ((cfg.shared.pipes p).queue = [] →
      ∀ r s', retryErrors t (.read fd m) r cfg.shared ∧ exec t (.read fd m) r cfg.shared = some s' ↔
        r = .error .EAGAIN ∧ s' = cfg.shared.setErrno t .EAGAIN)

theorem Stream.prefix {x : Pipe} {got : List UInt8} (h : Stream x got) :
    x.returned <+: x.written.map StopInfo.bytes := by
  refine h.1.prefix_of_flatten (k := stopInfoSize) (by decide) (fun b hb => ?_) ?_
  · obtain ⟨info, -, rfl⟩ := List.mem_map.mp hb
    exact info.length_bytes
  · rw [h.2, List.append_assoc]
    exact List.prefix_append ..

theorem Stream.rest {x : Pipe} (h : Stream x []) :
    ∃ rest, x.written.map StopInfo.bytes = x.returned ++ rest ∧ rest.flatten = x.queue := by
  obtain ⟨rest, hrest⟩ := h.prefix
  refine ⟨rest, hrest.symm, ?_⟩
  have := h.2
  rw [← hrest] at this
  simpa using this

/-- In every stage every pipe of the context is a stream of stop infos. -/
theorem Shape.stream {c : Spe} {φ : Held} {s : World} (hs : Shape True c φ s) {p : PipeId}
    (hp : p < s.nextPipe) (hc : (s.pipes p).spe = c) : ∃ got, Stream (s.pipes p) got := by
  have hpast : ∀ cur, Past True c cur s → (∀ q, cur = some q → ∃ got, Stream (s.pipes q) got) →
      ∃ got, Stream (s.pipes p) got := by
    intro cur hpast hcur
    by_cases h : cur = some p
    · exact hcur p h
    · exact ⟨[], (hpast p hp hc h).2.2 trivial⟩
  cases φ with
  | shut => exact hpast none (Shut.past hs) nofun
  | turning q r w m₀ m₁ o₀ o₁ nb =>
    refine hpast (some q) (Turning.past hs) fun q' hq => ?_
    obtain rfl := Option.some.inj hq
    exact ⟨[], Turning.stream hs trivial⟩
  | inUse q r w n extra adj got =>
    refine hpast (some q) (InUse.past hs) fun q' hq => ?_
    obtain rfl := Option.some.inj hq
    exact ⟨got, InUse.stream hs trivial⟩

theorem exec_read_empty {t : Tid} {fd : Fd} {m : Nat} {s s' : World} {p : PipeId}
    {r : Ans (.read fd m)} (hfd : s.fds fd = some (.pipeR p)) (hnb : (s.pipes p).nonblock = true)
    (hq : (s.pipes p).queue = []) :
    retryErrors t (.read fd m) r s ∧ exec t (.read fd m) r s = some s' ↔
      r = .error .EAGAIN ∧ s' = s.setErrno t .EAGAIN := by
  cases r with
  | ok bytes =>
    have : ¬ (0 < bytes.length ∧ bytes.length ≤ m ∧ bytes <+: (s.pipes p).queue) := by
      rintro ⟨hpos, -, hpre⟩
      rw [hq, List.prefix_nil] at hpre
      simp [hpre] at hpos
    simp [exec, hfd, this]
  | error e =>
    simp only [retryErrors, exec, hfd, hnb, implies_true, ↓reduceIte, Option.some.injEq,
      Except.error.injEq]
    constructor
    · rintro ⟨rfl, rfl⟩
      exact ⟨rfl, rfl⟩
    · rintro ⟨rfl, rfl⟩
      exact ⟨rfl, rfl⟩

theorem stopDelivery_reach {cfg : Config Cmd Ans Tid World}
    (h : eventSystem.Reach retryErrors cfg) : StopDelivery cfg := by
  have h' : eventSystem.Reach (okStop True) cfg := h.mono fun _ _ _ _ ho _ => ho
  obtain ⟨γ, hγ⟩ := stopInv_reach h'
  refine ⟨fun p hp => ?_, fun c hfree hreg => ?_, fun t fd bytes k ht => stopPre_reach h' ht,
    fun t fd k p ht hp => (stopPre_reach h' ht p hp).1.registered, fun t fd m k ht => ?_⟩
  · obtain ⟨φ, hφ⟩ := hγ.stage (cfg.shared.pipes p).spe
    obtain ⟨got, hgot⟩ := hφ.shape.stream hp rfl
    exact hgot.prefix
  · obtain ⟨φ, hφ⟩ := hγ.stage c
    have hs := hφ.shape
    cases hφ.rest hfree with
    | shut => exact absurd (Shut.unused hs).registered hreg
    | @inUse p r w n hn =>
      have hs : InUse True c p r w n 0 0 [] cfg.shared := hs
      obtain ⟨rest, hrest, hq⟩ := (hs.stream trivial).rest
      exact ⟨p, rest, hs.pipe₀.symm ▸ hs.readEnd, hs.pipe₁.symm ▸ hs.writeEnd, hrest, hq⟩
  · obtain ⟨p, hp, hnb⟩ := stopPre_reach h' ht
    exact ⟨p, hp, fun hq r s' => exec_read_empty hp hnb hq⟩

/-! ## One call of the reader -/

def Cmd.isRead : Cmd → Bool
  | .read _ _ => true
  | _ => false

def Cmd.isStopInfo : Cmd → Bool
  | .noteStopInfo _ _ => true
  | _ => false

/-- What a call of the reader that answered `rc` and `got` did to the pipe. -/
structure ReadCall (tr : List (Sigma Ans)) (rc : Int) (got : List UInt8) : Prop where
  /-- If its first read fails, that is its only one, and the call fails. -/
  first : ∀ fd m e rest, only Cmd.isRead tr = ⟨.read fd m, .error e⟩ :: rest →
    rc = -1 ∧ rest = []
  /-- A stop info is recorded as returned just where it is returned. -/
  recorded : only Cmd.isStopInfo tr = [] ∨
    rc = 0 ∧ ∃ fd, only Cmd.isStopInfo tr = [⟨.noteStopInfo fd got, ()⟩]
  success : rc = 0 → only Cmd.isRead tr ≠ [] → only Cmd.isStopInfo tr ≠ []

theorem stopInfoReadRest_all (fd : Fd) (got : List UInt8) :
    (stopInfoReadRest fd got).All fun c => c.isStopInfo = false := by
  refine Prog.all_repeats.mpr fun got => ?_
  split
  · refine .bind (.perform rfl) fun x => ?_
    split
    · trivial
    · trivial
    · split
      · refine .bind (.perform rfl) fun y => ?_
        split <;> trivial
      · trivial
  · trivial

theorem readCall_of_ends {c : Spe} {tr : List (Sigma Ans)} {rc : Int} {got : List UInt8}
    (h : (eventSpeStopInfoRead c).Ends tr (rc, got)) : ReadCall tr rc got := by
  obtain ⟨_, tr₁, rfl, h₁⟩ := h.perform
  obtain ⟨fd, tr₂, rfl, h₂⟩ := h₁.perform
  split at h₂
  · -- from the buffer
    obtain ⟨n, tr₃, rfl, h₃⟩ := h₂.perform
    split at h₃
    · obtain ⟨info, tr₄, rfl, h₄⟩ := h₃.perform
      obtain ⟨_, tr₅, rfl, h₅⟩ := h₄.perform
      obtain ⟨_, tr₆, rfl, h₆⟩ := h₅.perform
      obtain ⟨rfl, -⟩ := Prog.ends_ret.mp h₆
      constructor <;> simp [Cmd.isRead, Cmd.isStopInfo]
    · obtain ⟨_, tr₄, rfl, h₄⟩ := h₃.perform
      obtain ⟨_, tr₅, rfl, h₅⟩ := h₄.perform
      obtain ⟨rfl, -⟩ := Prog.ends_ret.mp h₅
      constructor <;> simp [Cmd.isRead, Cmd.isStopInfo]
  · obtain ⟨x, tr₃, rfl, h₃⟩ := h₂.perform
    split at h₃
    · obtain ⟨_, tr₄, rfl, h₄⟩ := h₃.perform
      obtain ⟨rfl, heq⟩ := Prog.ends_ret.mp h₄
      obtain ⟨rfl, rfl⟩ := Prod.mk.inj heq
      constructor <;> simp [Cmd.isRead, Cmd.isStopInfo]
    · obtain ⟨tr₄, tr₅, ⟨failed, bytes⟩, rfl, hrest, h₅⟩ := Prog.ends_bind.mp h₃
      have hnone : only Cmd.isStopInfo tr₄ = [] := by
        simpa [only] using (stopInfoReadRest_all fd _).ends hrest
      cases failed with
      | true =>
        obtain ⟨_, tr₆, rfl, h₆⟩ := h₅.perform
        obtain ⟨rfl, heq⟩ := Prog.ends_ret.mp h₆
        obtain ⟨rfl, rfl⟩ := Prod.mk.inj heq
        constructor <;> simp [Cmd.isRead, Cmd.isStopInfo, hnone]
      | false =>
        obtain ⟨_, tr₆, rfl, h₆⟩ := h₅.perform
        obtain ⟨_, tr₇, rfl, h₇⟩ := h₆.perform
        obtain ⟨rfl, heq⟩ := Prog.ends_ret.mp h₇
        obtain ⟨rfl, rfl⟩ := Prod.mk.inj heq
        constructor <;> simp [Cmd.isRead, Cmd.isStopInfo, hnone]

/-- **Stop-info delivery.** In every state of a run whose reads and polls fail only with `EAGAIN` and
`EINTR`, stop infos are delivered whole, once and in order, and a call of the reader that finds the
pipe empty fails without taking anything. -/
theorem stopInfo_delivery {cfg : Config Cmd Ans Tid World} (h : eventSystem.Reach retryErrors cfg) :
    StopDelivery cfg ∧ ∀ c tr rc got, (eventSpeStopInfoRead c).Ends tr (rc, got) →
      ReadCall tr rc got :=
  ⟨stopDelivery_reach h, fun _ _ _ _ => readCall_of_ends⟩

theorem stopInfo_delivery_read : StopDelivery readConfig ∧
    (readConfig.shared.pipes 0).returned = [someInfo.bytes] :=
  ⟨(stopInfo_delivery read_reach).1, rfl⟩

end LibSpe2
