import LibSpe2.SpeEvent.RecordInv

/-!
# Event delivery

What `spe_event_wait` hands out, over all interleavings of register, deregister and wait.

## Main results

* `event_delivery` — in every run whose steps all meet `recordOk`, every unit handed out is that of the
  registration it was reported for;
* `event_delivery_breaks` — a second handler registers for the same context and type, and the first
  one is handed its user data.
-/

namespace LibSpe2

open Conc (Prog Config)

section

variable {t : Tid} {g : RecStage} {c : Spe} {k : EventType} {data : UInt64}

/-! ## The functions -/

theorem neutral_baseSpeEventSourceAcquire {d : FdName} :
    (baseSpeEventSourceAcquire c d).All Cmd.Neutral := by
  show (do
    baseSpeContextLock c d
    _ : Sys Fd).All _
  repeat' first
    | trivial
    | refine .bind (.perform trivial) fun _ => ?_
    | split

theorem neutral_stopEventPipeClose : (stopEventPipeClose c).All Cmd.Neutral := by
  have hend : ∀ i, (stopEventPipeCloseEnd c i).All Cmd.Neutral := fun i => by
    refine .bind (.perform trivial) fun fd => ?_
    split
    · exact .bind (.perform trivial) fun _ => .perform trivial
    · trivial
  exact .bind (hend 0) fun _ => .bind (hend 1) fun _ => trivial

theorem neutral_stopEventPipeOpen : (stopEventPipeOpen c).All Cmd.Neutral := by
  repeat' first
    | trivial
    | refine .bind neutral_stopEventPipeClose fun _ => ?_
    | refine .bind (.perform trivial) fun _ => ?_
    | split

theorem neutral_stopEventPipeAcquire : (stopEventPipeAcquire c).All Cmd.Neutral := by
  have hcount : (do
      let count ← load (.stopEventHandlerCount c)
      store (.stopEventHandlerCount c) (count + 1)
      return 0 : Sys Int).All Cmd.Neutral :=
    .bind (.perform trivial) fun _ => .bind (.perform trivial) fun _ => trivial
  refine .bind (.perform trivial) fun n => ?_
  dsimp only
  split
  · refine .bind neutral_stopEventPipeOpen fun rc => ?_
    split
    · trivial
    · exact .bind (.perform trivial) fun _ => hcount
  · exact hcount

theorem neutral_stopEventPipeRelease : (stopEventPipeRelease c).All Cmd.Neutral := by
  refine .bind (.perform trivial) fun _ => .bind (.perform trivial) fun _ =>
    .bind (.perform trivial) fun n => ?_
  dsimp only
  split
  · exact .bind neutral_stopEventPipeClose fun _ => trivial
  · trivial

theorem neutral_eventSpeStopInfoRead : (eventSpeStopInfoRead c).All Cmd.Neutral := by
  have hrest : ∀ fd got, (stopInfoReadRest fd got).All Cmd.Neutral := fun fd got => by
    refine Prog.all_repeats.mpr fun got => ?_
    repeat' first
      | trivial
      | refine .bind (.perform trivial) fun _ => ?_
      | split
  repeat' first
    | trivial
    | refine .bind (hrest _ _) fun _ => ?_
    | refine .bind (.perform trivial) fun _ => ?_
    | split

theorem neutral_eventSpeContextRun : (eventSpeContextRun c).All Cmd.Neutral := by
  repeat' first
    | trivial
    | refine .bind neutral_stopEventPipeAcquire fun _ => ?_
    | refine .bind neutral_stopEventPipeRelease fun _ => ?_
    | refine .bind (.perform trivial) fun _ => ?_
    | split

/-- A program that touches neither records nor entries. -/
theorem rec_all {α : Type} {p : Sys α} (hp : p.All Cmd.Neutral) :
    RecSafe t p g fun _ g' => g' = g :=
  .all hp fun _ => rec_neutral

/-- Inside register or deregister on `c`, with nothing reported. -/
def RecStage.In (c : Spe) (g : RecStage) : Prop := g.ctx = some c ∧ g.todo = []

/-- A block keeps the thread inside. -/
abbrev RecBlock (t : Tid) (c : Spe) (block : Sys Bool) : Prop :=
  ∀ g : RecStage, g.In c → RecSafe t block g fun _ g' => g'.In c

theorem rec_registerSource {h : Handler} {d : FdName} {out : Bool} {check : Sys Bool}
    (hc : check.All Cmd.Neutral) : RecBlock t c (registerSource h c k d out data check) := by
  intro g hg
  refine .bind (rec_all neutral_baseSpeEventSourceAcquire) ?_
  rintro fd _ rfl
  by_cases hfd : fd = -1
  · rw [if_pos hfd]
    exact hg
  rw [if_neg hfd]
  refine .bind (rec_all hc) ?_
  rintro (_ | _) _ rfl
  · exact hg
  refine .bind (rec_store hg.1) ?_
  rintro _ _ rfl
  refine .bind (rec_epollAdd rfl) ?_
  rintro (_ | _) _ rfl <;> exact hg

theorem rec_registerSpeStopped {h : Handler} : RecBlock t c (registerSpeStopped h c data) := by
  intro g hg
  refine .bind (rec_neutral trivial) ?_
  rintro _ _ rfl
  refine .bind (rec_all neutral_stopEventPipeAcquire) ?_
  rintro rc _ rfl
  by_cases hrc : rc = -1
  · rw [if_pos hrc]
    exact .bind (rec_neutral trivial) fun _ _ h => h ▸ hg
  rw [if_neg hrc]
  refine .bind (rec_neutral trivial) ?_
  rintro fd _ rfl
  refine .bind (rec_store (k := .speStopped) hg.1) ?_
  rintro _ _ rfl
  refine .bind (rec_epollAdd rfl) ?_
  rintro (_ | _) _ rfl
  · refine .bind (rec_all neutral_stopEventPipeRelease) ?_
    rintro _ _ rfl
    exact .bind (rec_neutral trivial) fun _ _ h => h ▸ hg
  · refine .bind (rec_neutral trivial) ?_
    rintro _ _ rfl
    exact .bind (rec_neutral trivial) fun _ _ h => h ▸ hg

theorem rec_deregisterSource {h : Handler} {d : FdName} :
    RecBlock t c (deregisterSource h c k d) := by
  intro g hg
  refine .bind (rec_all neutral_baseSpeEventSourceAcquire) ?_
  rintro fd _ rfl
  by_cases hfd : fd = -1
  · rw [if_pos hfd]
    exact hg
  rw [if_neg hfd]
  refine .bind (rec_neutral trivial) ?_
  rintro (_ | _) _ rfl
  · exact hg
  · refine .bind (rec_clear hg.1) ?_
    rintro _ _ rfl
    exact hg

theorem rec_deregisterSpeStopped {h : Handler} : RecBlock t c (deregisterSpeStopped h c) := by
  intro g hg
  refine .bind (rec_neutral trivial) ?_
  rintro _ _ rfl
  refine .bind (rec_neutral trivial) ?_
  rintro fd _ rfl
  refine .bind (rec_neutral trivial) ?_
  rintro (_ | _) _ rfl
  · exact .bind (rec_neutral trivial) fun _ _ h => h ▸ hg
  · refine .bind (rec_clear hg.1) ?_
    rintro _ _ rfl
    refine .bind (rec_neutral trivial) ?_
    rintro _ _ rfl
    refine .bind (rec_all neutral_stopEventPipeRelease) ?_
    rintro _ _ rfl
    exact .bind (rec_neutral trivial) fun _ _ h => h ▸ hg

theorem rec_andThen {block rest : Sys Bool} (hb : RecBlock t c block) (hr : RecBlock t c rest) :
    RecBlock t c (andThen block rest) := by
  intro g hg
  refine .bind (hb g hg) ?_
  rintro (_ | _) g' hg'
  · exact hg'
  · exact hr g' hg'

theorem rec_ifEvent {events : UInt32} {block : Sys Bool} (hb : RecBlock t c block) :
    RecBlock t c (ifEvent events k block) := by
  intro g hg
  unfold ifEvent
  split
  · exact hb g hg
  · exact hg

theorem rec_fail {e : Errno} : RecSafe t (fail e) g fun _ g' => g' = g :=
  .bind (rec_neutral trivial) fun _ _ h => h

/-- The checks and the context's lock around the blocks. -/
theorem rec_withEventArgs {h : Option Handler} {ev : Option EventArg}
    {blocks : Handler → Spe → EventArg → Sys Bool} (hb : ∀ h c ev, RecBlock t c (blocks h c ev)) :
    RecSafe t (withEventArgs h ev fun h c ev => underContextLock c (blocks h c ev)) .idle
      fun _ g' => g' = .idle := by
  unfold withEventArgs
  split
  · exact rec_fail
  · exact rec_fail
  · split
    · exact rec_fail
    refine .bind (rec_neutral trivial) ?_
    rintro fl _ rfl
    split
    · exact rec_fail
    split
    · exact rec_fail
    refine .bind (rec_lock rfl) ?_
    rintro _ _ rfl
    refine .bind (hb _ _ _ _ ⟨rfl, rfl⟩) ?_
    rintro ok g ⟨hctx, htodo⟩
    refine .bind (rec_unlock hctx) ?_
    rintro _ _ rfl
    exact congrArg (RecStage.mk none none) htodo

/-- What is copied for the reported entries, one after the other. -/
theorem rec_copyEvents {h : Handler} (l : List (Fd × EpollEntry)) :
    RecSafe t (copyEvents h l) ⟨none, none, l.map Prod.snd⟩ fun us g' =>
      us = l.map (fun x => x.2.expected) ∧ g' = .idle := by
  induction l with
  | nil => exact ⟨rfl, rfl⟩
  | cons x rest ih =>
    refine .bind (rec_loadRecord (.head _)) ?_
    rintro ev _ ⟨rfl, rfl⟩
    refine .bind (rec_lock rfl) ?_
    rintro _ _ rfl
    refine .bind (rec_loadRecord (.head _)) ?_
    rintro u _ ⟨rfl, rfl⟩
    refine .bind (rec_note_delivered rfl) ?_
    rintro _ _ rfl
    refine .bind (rec_unlock rfl) ?_
    rintro _ _ rfl
    refine .bind ih ?_
    rintro us _ ⟨rfl, rfl⟩
    exact ⟨rfl, rfl⟩

theorem rec_eventSpeEventWait {h : Option Handler} {events : Bool} {maxEvents timeout : Int} :
    RecSafe t (eventSpeEventWait h events maxEvents timeout) .idle fun _ g' => g' = .idle := by
  unfold eventSpeEventWait
  split
  · exact .bind rec_fail fun _ _ h => h
  split
  · exact .bind rec_fail fun _ _ h => h
  refine .bind (rec_neutral trivial) ?_
  rintro (_ | _) _ rfl
  · exact rfl
  refine .repeats (fun _ g => g = .idle) rfl ?_
  rintro _ _ rfl
  refine .bind (rec_epollWait rfl) ?_
  rintro (e | l) _ rfl
  · split
    · split <;> rfl
    · rfl
    · contradiction
  · refine .bind (rec_copyEvents l) ?_
    rintro us _ ⟨-, rfl⟩
    rfl

end

/-! ## All interleavings -/

theorem recInv_init {s : World} (h : EventInit s) : RecInv (fun _ => .idle) s where
  spe c k := by rw [h.records]
  live hd fd e he := by simp [h.epoll] at he
  pending t := by simp [h.hist, History.empty, RecStage.idle]
  todo t e he := by simp [RecStage.idle] at he
  owner t c hc := by simp [RecStage.idle] at hc
  wrote t c k data hw := by simp [RecStage.idle] at hw
  delivered d hd := by simp [h.hist, History.empty] at hd

/-- Every call keeps to the protocol. -/
theorem eventSystem_rec (t : Tid) (call : EventCall) :
    RecSafe t (eventSystem.code t call) .idle fun _ g' => g' = .idle := by
  cases call with
  | register h ev =>
    refine .bind (rec_withEventArgs fun h c ev => ?_) fun _ _ h => h
    exact rec_andThen (rec_ifEvent (rec_registerSource trivial)) <|
      rec_andThen (rec_ifEvent (rec_registerSource trivial)) <|
      rec_andThen (rec_ifEvent (rec_registerSource (.bind (.perform trivial) fun fl => by
        split
        · exact .bind (.perform trivial) fun _ => trivial
        · trivial))) <|
      rec_ifEvent rec_registerSpeStopped
  | deregister h ev =>
    refine .bind (rec_withEventArgs fun h c ev => ?_) fun _ _ h => h
    exact rec_andThen (rec_ifEvent rec_deregisterSource) <|
      rec_andThen (rec_ifEvent rec_deregisterSource) <|
      rec_andThen (rec_ifEvent rec_deregisterSource) <| rec_ifEvent rec_deregisterSpeStopped
  | wait h events maxEvents timeout => exact .bind rec_eventSpeEventWait fun _ _ h => h
  | stopInfoRead c => exact .bind (rec_all neutral_eventSpeStopInfoRead) fun _ _ h => h
  | run c => exact .bind (rec_all neutral_eventSpeContextRun) fun _ _ h => h

/-! ## One call of `spe_event_wait` -/

def Cmd.isDelivered : Cmd → Bool
  | .note (.delivered _ _ _) => true
  | _ => false

/-- The notes of a wait on `h` that was reported `l` and returned `us`. -/
def deliveries (h : Handler) (l : List (Fd × EpollEntry)) (us : List EventUnit) :
    List (Sigma Ans) :=
  (l.zip us).map fun x => ⟨.note (.delivered h x.1.2 x.2), ()⟩

/-- A wait on `h` that returned `rc` and `us` delivered nothing, or one unit for each entry that
`epoll_wait` reported. -/
structure WaitCall (h : Handler) (tr : List (Sigma Ans)) (rc : Int) (us : List EventUnit) : Prop where
  units : us.length = rc.toNat
  reported : us = [] ∧ only Cmd.isDelivered tr = [] ∨ ∃ m l, ⟨.epollWait h m, .ok l⟩ ∈ tr ∧
    l.length = us.length ∧ only Cmd.isDelivered tr = deliveries h l us

theorem copyEvents_ends {h : Handler} {l : List (Fd × EpollEntry)} {tr : List (Sigma Ans)}
    {us : List EventUnit} (he : (copyEvents h l).Ends tr us) :
    l.length = us.length ∧ only Cmd.isDelivered tr = deliveries h l us := by
  induction l generalizing tr us with
  | nil =>
    obtain ⟨rfl, rfl⟩ := Prog.ends_ret.mp he
    exact ⟨rfl, rfl⟩
  | cons x rest ih =>
    obtain ⟨ev, tr₁, rfl, h₁⟩ := he.perform
    obtain ⟨_, tr₂, rfl, h₂⟩ := h₁.perform
    obtain ⟨u, tr₃, rfl, h₃⟩ := h₂.perform
    obtain ⟨_, tr₄, rfl, h₄⟩ := h₃.perform
    obtain ⟨_, tr₅, rfl, h₅⟩ := h₄.perform
    obtain ⟨tr₆, tr₇, us', rfl, h₆, h₇⟩ := Prog.ends_bind.mp h₅
    obtain ⟨rfl, rfl⟩ := Prog.ends_ret.mp h₇
    obtain ⟨hlen, hnotes⟩ := ih h₆
    refine ⟨by simp [hlen], ?_⟩
    simp [Cmd.isDelivered, hnotes, deliveries]

theorem waitCall_of_ends {h : Handler} {events : Bool} {maxEvents timeout rc : Int}
    {tr : List (Sigma Ans)} {us : List EventUnit}
    (he : (eventSpeEventWait (some h) events maxEvents timeout).Ends tr (rc, us)) :
    WaitCall h tr rc us := by
  simp only [eventSpeEventWait] at he
  split at he
  · obtain ⟨_, tr₁, rfl, h₁⟩ := Prog.ends_cmd.mp he
    obtain ⟨rfl, heq⟩ := Prog.ends_ret.mp h₁
    obtain ⟨rfl, rfl⟩ := Prod.mk.inj heq
    exact ⟨rfl, .inl ⟨rfl, rfl⟩⟩
  obtain ⟨r, tr₁, rfl, h₁⟩ := he.perform
  cases r with
  | false =>
    obtain ⟨rfl, heq⟩ := Prog.ends_ret.mp h₁
    obtain ⟨rfl, rfl⟩ := Prod.mk.inj heq
    exact ⟨rfl, .inl ⟨rfl, rfl⟩⟩
  | true =>
    -- nothing is delivered before the round that leaves
    refine Prog.Ends.repeats_rule (J := fun _ tr => only Cmd.isDelivered tr = [])
      (Q := fun tr x => WaitCall h tr x.1 x.2) h₁
      (show only Cmd.isDelivered [⟨.malloc, true⟩] = [] from rfl) ?_ ?_
    · intro _ tr₀ tr₂ _ h₀ h₂
      obtain ⟨x, tr₃, rfl, h₃⟩ := h₂.perform
      rcases x with e | l
      · split at h₃
        · split at h₃
          · cases h₃
          · obtain ⟨rfl, -⟩ := Prog.ends_ret.mp h₃
            simp [h₀, Cmd.isDelivered]
        · cases h₃
        · contradiction
      · obtain ⟨tr₄, tr₅, us', rfl, -, h₅⟩ := Prog.ends_bind.mp h₃
        cases h₅
    · intro _ tr₀ tr₂ x h₀ h₂
      obtain ⟨y, tr₃, rfl, h₃⟩ := h₂.perform
      rcases y with e | l
      · split at h₃
        · split at h₃
          · obtain ⟨rfl, heq⟩ := Prog.ends_ret.mp h₃
            obtain rfl := Sum.inr.inj heq
            exact ⟨rfl, .inl ⟨rfl, by simp [h₀, Cmd.isDelivered]⟩⟩
          · cases h₃
        · obtain ⟨rfl, heq⟩ := Prog.ends_ret.mp h₃
          obtain rfl := Sum.inr.inj heq
          exact ⟨rfl, .inl ⟨rfl, by simp [h₀, Cmd.isDelivered]⟩⟩
        · contradiction
      · obtain ⟨tr₄, tr₅, us', rfl, hcopy, h₅⟩ := Prog.ends_bind.mp h₃
        obtain ⟨rfl, heq⟩ := Prog.ends_ret.mp h₅
        obtain rfl := Sum.inr.inj heq
        obtain ⟨hlen, hnotes⟩ := copyEvents_ends hcopy
        refine ⟨by simp [hlen], .inr ⟨maxEvents.toNat, l, ?_, hlen, by simp [h₀, Cmd.isDelivered, hnotes]⟩⟩
        exact List.mem_append_right _ (.head _)

/-! ## Runs of two handlers -/

/-- The first registration for `SPE_EVENT_IN_MBOX` of context `0`, by handler `1` with `1`. -/
def registerInMboxTrace : List (Sigma Ans) :=
  [⟨.flags 0, speEventsEnable⟩, ⟨.lock (.lock 0), ()⟩, ⟨.lock (.fdLock 0 .wbox), ()⟩,
    ⟨.load (.speFdsArray 0 .wbox), (-1 : Int)⟩, ⟨.openat 0 .wbox, .ok 5⟩,
    ⟨.store (.speFdsArray 0 .wbox) 5, ()⟩, ⟨.note (.opened 0 .wbox 5), ()⟩,
    ⟨.load (.speFdsArray 0 .wbox), (5 : Int)⟩, ⟨.load (.speFdsRefcount 0 .wbox), (0 : Int)⟩,
    ⟨.store (.speFdsRefcount 0 .wbox) 1, ()⟩, ⟨.unlock (.fdLock 0 .wbox), ()⟩,
    ⟨.load (.speFdsArray 0 .wbox), (5 : Int)⟩, ⟨.note (.openReturned 0 .wbox 5), ()⟩,
    ⟨.storeRecord 0 .inMbox 2 1, ()⟩, ⟨.epollAdd 1 5 ⟨true, 0, .inMbox, 1⟩, .ok ()⟩,
    ⟨.unlock (.lock 0), ()⟩]

/-- The same registration by handler `2` with `2`. -/
def registerAgainTrace : List (Sigma Ans) :=
  [⟨.flags 0, speEventsEnable⟩, ⟨.lock (.lock 0), ()⟩, ⟨.lock (.fdLock 0 .wbox), ()⟩,
    ⟨.load (.speFdsArray 0 .wbox), (5 : Int)⟩, ⟨.load (.speFdsRefcount 0 .wbox), (1 : Int)⟩,
    ⟨.store (.speFdsRefcount 0 .wbox) 2, ()⟩, ⟨.note (.opened 0 .wbox 5), ()⟩,
    ⟨.unlock (.fdLock 0 .wbox), ()⟩, ⟨.load (.speFdsArray 0 .wbox), (5 : Int)⟩,
    ⟨.note (.openReturned 0 .wbox 5), ()⟩, ⟨.storeRecord 0 .inMbox 2 2, ()⟩,
    ⟨.epollAdd 2 5 ⟨true, 0, .inMbox, 2⟩, .ok ()⟩, ⟨.unlock (.lock 0), ()⟩]

/-- A wait on handler `1` that is handed `data`. -/
def waitTrace (data : UInt64) : List (Sigma Ans) :=
  [⟨.malloc, true⟩, ⟨.epollWait 1 1, .ok [(5, ⟨true, 0, .inMbox, 1⟩)]⟩,
    ⟨.loadRecord 0 .inMbox, (⟨2, 0, data⟩ : EventUnit)⟩, ⟨.lock (.lock 0), ()⟩,
    ⟨.loadRecord 0 .inMbox, (⟨2, 0, data⟩ : EventUnit)⟩,
    ⟨.note (.delivered 1 ⟨true, 0, .inMbox, 1⟩ ⟨2, 0, data⟩), ()⟩, ⟨.unlock (.lock 0), ()⟩]

/-- Handler `1` alone. -/
def deliveredConfig : Config Cmd Ans Tid World :=
  ⟨(World.boot.after 1 registerInMboxTrace).after 1 (waitTrace 1), fun _ => none⟩

/-- Handler `2` in between. -/
def mixedUpConfig : Config Cmd Ans Tid World :=
  ⟨((World.boot.after 1 registerInMboxTrace).after 2 registerAgainTrace).after 1 (waitTrace 2),
    fun _ => none⟩

theorem registerInMbox_reach : eventSystem.Reach recordOk
    ⟨World.boot.after 1 registerInMboxTrace, fun _ => none⟩ := by
  refine (Conc.System.Reach.init eventInit_boot).solo (t := 1)
    (c := .register (some 1) (some ⟨2, some 0, 1⟩)) rfl ?_
    (show machine.play 1 registerInMboxTrace _ = some _ from rfl) ?_
  · repeat first | exact .ret | refine .cmd ?_
  · have hfree : ∀ s : World, s.epoll = (fun _ _ => none) → s.hist.pending = (fun _ => []) →
        Unreferenced 0 .inMbox s := by
      intro s he hp
      exact ⟨by simp [he], by simp [hp]⟩
    repeat' first | exact .inl (hfree _ rfl rfl) | constructor

theorem waitTrace_ends {data : UInt64} :
    (eventSystem.code 1 (.wait (some 1) true 1 0)).Ends (waitTrace data) () := by
  refine .cmd (Prog.ends_loop.mpr
    ⟨_, [], .inr (1, [⟨2, 0, data⟩]), (List.append_nil _).symm, ?_, .ret⟩)
  repeat first | exact .ret | refine .cmd ?_

theorem delivered_reach : eventSystem.Reach recordOk deliveredConfig :=
  registerInMbox_reach.solo (t := 1) rfl waitTrace_ends
    (show machine.play 1 (waitTrace 1) _ = some _ from rfl) (by repeat' constructor)

theorem mixedUp_reach : eventSystem.Reachable mixedUpConfig := by
  have hok (t tr s) : machine.Passes (Conc.System.always Cmd Ans Tid World) t tr s :=
    Conc.Machine.passes_of_forall _ (fun _ _ _ _ => trivial) t tr s
  have h₁ : eventSystem.Reachable ⟨World.boot.after 1 registerInMboxTrace, fun _ => none⟩ :=
    registerInMbox_reach.mono fun _ _ _ _ _ => trivial
  have h₂ : eventSystem.Reachable
      ⟨(World.boot.after 1 registerInMboxTrace).after 2 registerAgainTrace, fun _ => none⟩ := by
    refine h₁.solo (t := 2) (c := .register (some 2) (some ⟨2, some 0, 2⟩)) rfl ?_
      (show machine.play 2 registerAgainTrace _ = some _ from rfl) (hok _ _ _)
    repeat first | exact .ret | refine .cmd ?_
  exact h₂.solo (t := 1) rfl waitTrace_ends
    (show machine.play 1 (waitTrace 2) _ = some _ from rfl) (hok _ _ _)

/-! ## Results -/

/-- **Event delivery.** In every run whose steps all meet `recordOk`, whatever was handed out is what
the registration behind the reported entry asked for, and a wait hands out one unit for each entry that
was reported to it. -/
theorem event_delivery {cfg : Config Cmd Ans Tid World} (h : eventSystem.Reach recordOk cfg) :
    (∀ d ∈ cfg.shared.hist.delivered, d.unit = d.entry.expected) ∧
    ∀ h events maxEvents timeout tr rc us,
      (eventSpeEventWait (some h) events maxEvents timeout).Ends tr (rc, us) →
        WaitCall h tr rc us := by
  obtain ⟨γ, hγ, -⟩ := Conc.Proto.reach (P := recProto) (fun _ => recInv_init) eventSystem_rec h
  exact ⟨hγ.delivered, fun _ _ _ _ _ _ _ => waitCall_of_ends⟩

theorem event_delivery_one :
    deliveredConfig.shared.hist.delivered = [⟨1, ⟨true, 0, .inMbox, 1⟩, ⟨2, 0, 1⟩⟩] ∧
    ∀ d ∈ deliveredConfig.shared.hist.delivered, d.unit = d.entry.expected :=
  ⟨rfl, (event_delivery delivered_reach).1⟩

/-- Handler `1`, registered with `1`, is handed the `2` of handler `2`. -/
theorem event_delivery_breaks : ∃ cfg, eventSystem.Reachable cfg ∧
    ∃ d ∈ cfg.shared.hist.delivered, d.handler = 1 ∧ d.entry.reg = 1 ∧ d.unit = ⟨2, 0, 2⟩ ∧
      d.unit ≠ d.entry.expected :=
  ⟨mixedUpConfig, mixedUp_reach, _, .head _, rfl, rfl, rfl, by decide⟩

end LibSpe2
