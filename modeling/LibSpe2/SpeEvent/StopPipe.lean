import LibSpe2.SpeEvent.StopHolder

/-!
# The stop-event pipe over all interleavings

The functions of `SpeEvent/Event.lean` keep to the protocol, so the invariant holds in every state
that any number of threads can reach. What it says of the count and of the bytes is read off in
`SpeEvent/StopDelivery.lean`.

## Main results

* `stopInv_init` — the invariant holds at the start;
* `eventSystem_safe` — every call keeps to the protocol, from idle to idle.
-/

namespace LibSpe2

open Conc (Prog)

section

variable {strict : Prop} {t : Tid} {s s' : World} {g : Stage} {c : Spe} {φ : Held}
  {p : PipeId} {r w m₀ m₁ : Fd} {o₀ o₁ nb : Bool} {n : Int} {got : List UInt8}

/-! ## The pipe -/

theorem safe_stopEventPipeClose :
    StopSafe strict t (stopEventPipeClose c) (g.hold c (.turning p r w r w true true nb))
      fun _ g' => g' = g.hold c .shut := by
  refine .bind (Q := fun _ g' => g' = g.hold c (.turning p r w (-1) w false true nb)) ?_ ?_
  · refine .bind safe_load_pipe₀_turning ?_
    rintro v _ ⟨rfl, rfl, hne⟩
    rw [if_pos (hne rfl)]
    refine .bind safe_close₀ ?_
    rintro _ _ rfl
    exact safe_store_pipe₀
  rintro _ _ rfl
  refine .bind (Q := fun _ g' => g' = g.hold c .shut) ?_ fun _ _ h => h
  refine .bind safe_load_pipe₁_turning ?_
  rintro v _ ⟨rfl, rfl, hne⟩
  rw [if_pos (hne rfl)]
  refine .bind safe_close₁ ?_
  rintro _ _ rfl
  exact safe_store_shut

theorem safe_stopEventPipeOpen :
    StopSafe strict t (stopEventPipeOpen c) (g.hold c .shut) fun rc g' =>
      rc = -1 ∧ g' = g.hold c .shut ∨
        rc = 0 ∧ ∃ p r w, g' = g.hold c (.turning p r w r w true true true) := by
  refine .bind safe_pipe ?_
  rintro (e | ⟨r, w⟩) g' hg'
  · exact .inl ⟨rfl, hg'⟩
  obtain ⟨p, rfl⟩ := hg'
  refine .bind safe_store_pipe₀ ?_
  rintro _ _ rfl
  refine .bind safe_store_pipe₁ ?_
  rintro _ _ rfl
  refine .bind safe_load_pipe₀_turning ?_
  rintro _ _ ⟨rfl, rfl, -⟩
  refine .bind (safe_harmless trivial) ?_
  rintro (e | nonblock) _ rfl
  · refine .bind safe_stopEventPipeClose ?_
    rintro _ _ rfl
    exact .inl ⟨rfl, rfl⟩
  refine .bind safe_load_pipe₀_turning ?_
  rintro _ _ ⟨rfl, rfl, -⟩
  refine .bind safe_fcntlSetfl ?_
  rintro (e | _) _ rfl
  · refine .bind safe_stopEventPipeClose ?_
    rintro _ _ rfl
    exact .inl ⟨rfl, rfl⟩
  · exact .inr ⟨rfl, p, _, w, rfl⟩

/-- An acquire counts one more, with a new pipe for the first; only setting that up can fail. -/
theorem safe_stopEventPipeAcquire (hφ : φ.Rest) :
    StopSafe strict t (stopEventPipeAcquire c) (g.hold c φ) fun rc g' =>
      rc = -1 ∧ φ = .shut ∧ g' = g.hold c .shut ∨
        rc = 0 ∧ ∃ p r w n, g' = g.hold c (.inUse p r w n 1 0 []) ∧
          ∀ q fd, φ.writeEnd = some (q, fd) → q = p ∧ fd = w := by
  cases hφ with
  | shut =>
    refine .bind safe_load_count_shut ?_
    rintro _ _ ⟨rfl, rfl⟩
    rw [if_pos rfl]
    refine .bind safe_stopEventPipeOpen ?_
    rintro _ _ (⟨rfl, rfl⟩ | ⟨rfl, p, r, w, rfl⟩)
    · exact .inl ⟨rfl, rfl, rfl⟩
    refine .bind (safe_harmless trivial) ?_
    rintro _ _ rfl
    refine .bind safe_load_count_turning ?_
    rintro _ _ ⟨rfl, rfl⟩
    refine .bind safe_store_count_first ?_
    rintro _ _ rfl
    exact .inr ⟨rfl, p, r, w, 1, rfl, nofun⟩
  | @inUse p r w n hn =>
    refine .bind safe_load_count_inUse ?_
    rintro _ _ ⟨rfl, rfl, -⟩
    rw [if_neg hn.ne']
    refine .bind safe_load_count_inUse ?_
    rintro _ _ ⟨rfl, rfl, -⟩
    refine .bind safe_store_count_more ?_
    rintro _ _ rfl
    refine .inr ⟨rfl, p, r, w, _, rfl, fun q fd h => ?_⟩
    obtain ⟨rfl, rfl⟩ : p = q ∧ w = fd := by simpa [Held.writeEnd] using h
    exact ⟨rfl, rfl⟩

/-- A release counts one less and closes the pipe at `0`. -/
theorem safe_stopEventPipeRelease :
    StopSafe strict t (stopEventPipeRelease c) (g.hold c (.inUse p r w n 1 0 [])) fun _ g' =>
      ∃ φ : Held, φ.Rest ∧ g' = g.hold c φ := by
  refine .bind safe_load_count_inUse ?_
  rintro _ _ ⟨rfl, rfl, -⟩
  refine .bind safe_store_count_less ?_
  rintro _ _ (⟨hpos, rfl⟩ | ⟨-, rfl⟩)
  · refine .bind safe_load_count_inUse ?_
    rintro _ _ ⟨rfl, rfl, -⟩
    rw [if_neg hpos.ne']
    exact ⟨_, .inUse hpos, rfl⟩
  · refine .bind safe_load_count_turning ?_
    rintro _ _ ⟨rfl, rfl⟩
    rw [if_pos rfl]
    refine .bind safe_stopEventPipeClose ?_
    rintro _ _ rfl
    exact ⟨_, .shut, rfl⟩

/-! ## Registration and deregistration -/

theorem safe_registerSpeStopped {h : Handler} {data : UInt64} (hg : g.held = none)
    (hr : g.run = none) :
    StopSafe strict t (registerSpeStopped h c data) g fun _ g' => g' = g := by
  refine .bind (safe_lock hg) ?_
  rintro _ _ ⟨φ, hφ, rfl, -⟩
  refine .bind (safe_stopEventPipeAcquire hφ) ?_
  rintro _ _ (⟨rfl, -, rfl⟩ | ⟨rfl, p, r, w, n, rfl, -⟩)
  · refine .bind (safe_unlock hg .shut) ?_
    rintro _ _ rfl
    exact rfl
  refine .bind safe_load_pipe₀_inUse ?_
  rintro _ _ ⟨rfl, rfl, -⟩
  refine .bind (safe_harmless trivial) ?_
  rintro _ _ rfl
  refine .bind safe_epollAdd ?_
  rintro (e | _) _ rfl
  · refine .bind safe_stopEventPipeRelease ?_
    rintro _ _ ⟨φ, hφ, rfl⟩
    refine .bind (safe_unlock hg hφ.leaves) ?_
    rintro _ _ rfl
    exact rfl
  · refine .bind safe_note_registered ?_
    rintro _ _ rfl
    refine .bind (safe_unlock hg (.inUse fun _ => rfl)) ?_
    rintro _ _ rfl
    exact rfl

theorem safe_deregisterSpeStopped {h : Handler} (hg : g.held = none) :
    StopSafe strict t (deregisterSpeStopped h c) g fun _ g' => g' = g := by
  refine .bind (safe_lock hg) ?_
  rintro _ _ ⟨φ, hφ, rfl, -⟩
  cases hφ with
  | shut =>
    refine .bind safe_load_pipe_shut ?_
    rintro _ _ ⟨rfl, rfl⟩
    refine .bind safe_epollDel_shut ?_
    rintro _ _ ⟨rfl, e, rfl⟩
    refine .bind (safe_unlock hg .shut) ?_
    rintro _ _ rfl
    exact rfl
  | @inUse p r w n hn =>
    refine .bind safe_load_pipe₀_inUse ?_
    rintro _ _ ⟨rfl, rfl, -⟩
    refine .bind safe_epollDel ?_
    rintro (e | _) _ rfl
    · refine .bind (safe_unlock hg (.inUse fun _ => rfl)) ?_
      rintro _ _ rfl
      exact rfl
    · refine .bind (safe_harmless trivial) ?_
      rintro _ _ rfl
      refine .bind safe_note_deregistered ?_
      rintro _ _ rfl
      refine .bind safe_stopEventPipeRelease ?_
      rintro _ _ ⟨φ, hφ, rfl⟩
      refine .bind (safe_unlock hg hφ.leaves) ?_
      rintro _ _ rfl
      exact rfl

/-- A stage without lock or run; a source may be known. -/
def Stage.Free (g : Stage) : Prop := g.held = none ∧ g.run = none

/-- The cache hands out spufs files only. -/
theorem safe_baseSpeEventSourceAcquire {d : FdName} (hg : g.Free) :
    StopSafe strict t (baseSpeEventSourceAcquire c d) g fun fd g' =>
      g'.Free ∧ (fd ≠ -1 → g'.source = some fd) := by
  -- what follows once the slot has been looked after: the descriptor is read again
  have tail : ∀ g : Stage, g.Free → StopSafe strict t (do
      baseSpeContextUnlock c d
      let fd ← load (.speFdsArray c d)
      note (.openReturned c d fd)
      return fd) g fun fd g' => g'.Free ∧ (fd ≠ -1 → g'.source = some fd) := by
    intro g hg
    refine .bind (safe_harmless trivial) ?_
    rintro _ _ rfl
    refine .bind safe_load_array ?_
    rintro fd _ (⟨rfl, rfl⟩ | rfl)
    · refine .bind (safe_harmless trivial) ?_
      rintro _ _ rfl
      exact ⟨hg, fun h => absurd rfl h⟩
    · refine .bind (safe_harmless trivial) ?_
      rintro _ _ rfl
      exact ⟨hg, fun _ => rfl⟩
  -- a slot that has just been opened, or not
  have count : ∀ g : Stage, g.Free → StopSafe strict t (do
      let fd ← load (.speFdsArray c d)
      if fd > 0 then
        let n ← load (.speFdsRefcount c d)
        store (.speFdsRefcount c d) (toInt32 (n + 1))
      baseSpeContextUnlock c d
      let fd ← load (.speFdsArray c d)
      note (.openReturned c d fd)
      return fd) g fun fd g' => g'.Free ∧ (fd ≠ -1 → g'.source = some fd) := by
    intro g hg
    refine .bind (safe_harmless trivial) ?_
    rintro fd _ rfl
    by_cases hfd : fd > 0
    · simp only [hfd, ↓reduceIte]
      refine .bind (safe_harmless trivial) ?_
      rintro n _ rfl
      refine .bind (safe_harmless trivial) ?_
      rintro _ _ rfl
      exact tail _ hg
    · simp only [hfd, ↓reduceIte]
      exact tail _ hg
  refine .bind (safe_harmless trivial) ?_
  rintro _ _ rfl
  refine .bind (Q := fun _ g' => g'.Free) (safe_load_array.mono ?_) ?_
  · rintro v g' (⟨-, rfl⟩ | rfl) <;> exact hg
  intro fd g hg
  by_cases hfd : fd = -1
  · simp only [hfd, ne_eq, not_true_eq_false, ↓reduceIte]
    refine .bind safe_openat ?_
    rintro (e | fd') _ rfl
    · refine .bind (safe_store_array (.inl rfl)) ?_
      rintro _ _ rfl
      refine .bind (safe_harmless trivial) ?_
      rintro _ _ rfl
      exact count _ hg
    · refine .bind (safe_store_array (.inr rfl)) ?_
      rintro _ _ rfl
      refine .bind (safe_harmless trivial) ?_
      rintro _ _ rfl
      exact count _ hg
  · simp only [ne_eq, hfd, not_false_eq_true, ↓reduceIte]
    refine .bind (safe_harmless trivial) ?_
    rintro n _ rfl
    refine .bind (safe_harmless trivial) ?_
    rintro _ _ rfl
    refine .bind (safe_harmless trivial) ?_
    rintro _ _ rfl
    exact tail _ hg

theorem safe_registerSource {h : Handler} {k : EventType} {d : FdName} {out : Bool} {data : UInt64}
    {check : Sys Bool} (hg : g.Free) (hc : check.All Cmd.Harmless) :
    StopSafe strict t (registerSource h c k d out data check) g fun _ g' => g'.Free := by
  refine .bind (safe_baseSpeEventSourceAcquire hg) ?_
  rintro fd g ⟨hg, hfd⟩
  by_cases hn : fd = -1
  · rw [if_pos hn]
    exact hg
  rw [if_neg hn]
  refine .bind (.all hc fun _ => safe_harmless) ?_
  rintro (_ | _) _ rfl
  · exact hg
  refine .bind (safe_harmless trivial) ?_
  rintro _ _ rfl
  refine .bind (safe_epollAdd_source (hfd hn)) ?_
  rintro (_ | _) _ rfl <;> exact hg

theorem safe_deregisterSource {h : Handler} {k : EventType} {d : FdName} (hg : g.Free) :
    StopSafe strict t (deregisterSource h c k d) g fun _ g' => g'.Free := by
  refine .bind (safe_baseSpeEventSourceAcquire hg) ?_
  rintro fd g ⟨hg, hfd⟩
  by_cases hn : fd = -1
  · rw [if_pos hn]
    exact hg
  rw [if_neg hn]
  refine .bind (safe_epollDel_source (hfd hn)) ?_
  rintro (_ | _) _ rfl
  · exact hg
  refine .bind (safe_harmless trivial) ?_
  rintro _ _ rfl
  exact hg

/-- One block after the other. -/
theorem safe_andThen {block rest : Sys Bool}
    (hb : ∀ g : Stage, g.Free → StopSafe strict t block g fun _ g' => g'.Free)
    (hr : ∀ g : Stage, g.Free → StopSafe strict t rest g fun _ g' => g'.Free) :
    ∀ g : Stage, g.Free → StopSafe strict t (andThen block rest) g fun _ g' => g'.Free := by
  intro g hg
  refine .bind (hb g hg) ?_
  rintro (_ | _) g' hg'
  · exact hg'
  · exact hr g' hg'

theorem safe_ifEvent {events : UInt32} {k : EventType} {block : Sys Bool}
    (hb : ∀ g : Stage, g.Free → StopSafe strict t block g fun _ g' => g'.Free) :
    ∀ g : Stage, g.Free → StopSafe strict t (ifEvent events k block) g fun _ g' => g'.Free := by
  intro g hg
  unfold ifEvent
  split
  · exact hb g hg
  · exact hg

/-- The checks and the context's lock around the blocks. -/
theorem safe_withEventArgs {h : Option Handler} {ev : Option EventArg}
    {blocks : Handler → Spe → EventArg → Sys Bool}
    (hb : ∀ h c ev, ∀ g : Stage, g.Free → StopSafe strict t (blocks h c ev) g fun _ g' => g'.Free) :
    StopSafe strict t (withEventArgs h ev fun h c ev => underContextLock c (blocks h c ev)) .idle
      fun _ g' => g' = .idle := by
  have hfail : ∀ e, StopSafe strict t (fail e) .idle fun _ g' => g' = .idle := fun e => by
    refine .bind (safe_harmless trivial) ?_
    rintro _ _ rfl
    exact rfl
  unfold withEventArgs
  split
  · exact hfail _
  · exact hfail _
  · split
    · exact hfail _
    refine .bind (safe_harmless trivial) ?_
    rintro fl _ rfl
    split
    · exact hfail _
    split
    · exact hfail _
    refine .bind (safe_harmless trivial) ?_
    rintro _ _ rfl
    refine .bind (hb _ _ _ _ ⟨rfl, rfl⟩) ?_
    rintro ok ⟨source, held, run⟩ ⟨hheld, hrun⟩
    refine .bind (safe_forget trivial) ?_
    rintro _ _ rfl
    simp only at hheld hrun
    subst hheld hrun
    exact rfl

theorem safe_register {h : Option Handler} {ev : Option EventArg} :
    StopSafe strict t (eventSpeEventHandlerRegister h ev) .idle fun _ g' => g' = .idle :=
  safe_withEventArgs fun _ _ _ =>
    safe_andThen (safe_ifEvent fun _ hg => safe_registerSource hg trivial) <|
    safe_andThen (safe_ifEvent fun _ hg => safe_registerSource hg trivial) <|
    safe_andThen (safe_ifEvent fun _ hg => safe_registerSource hg (by
      refine .bind (.perform trivial) fun fl => ?_
      split
      · exact .bind (.perform trivial) fun _ => trivial
      · trivial)) <|
    safe_ifEvent fun _ hg => (safe_registerSpeStopped hg.1 hg.2).mono fun _ _ h => h ▸ hg

theorem safe_deregister {h : Option Handler} {ev : Option EventArg} :
    StopSafe strict t (eventSpeEventHandlerDeregister h ev) .idle fun _ g' => g' = .idle :=
  safe_withEventArgs fun _ _ _ =>
    safe_andThen (safe_ifEvent fun _ hg => safe_deregisterSource hg) <|
    safe_andThen (safe_ifEvent fun _ hg => safe_deregisterSource hg) <|
    safe_andThen (safe_ifEvent fun _ hg => safe_deregisterSource hg) <|
    safe_ifEvent fun _ hg => (safe_deregisterSpeStopped hg.1).mono fun _ _ h => h ▸ hg

/-! ## Waiting -/

theorem copyEvents_harmless (h : Handler) (l : List (Fd × EpollEntry)) :
    (copyEvents h l).All Cmd.Harmless := by
  induction l with
  | nil => trivial
  | cons x l ih =>
    refine .bind (.perform trivial) fun ev => ?_
    refine .bind (.perform trivial) fun _ => ?_
    refine .bind (.perform trivial) fun u => ?_
    refine .bind (.perform trivial) fun _ => ?_
    refine .bind (.perform trivial) fun _ => ?_
    exact .bind ih fun _ => trivial

theorem eventSpeEventWait_harmless (h : Option Handler) (events : Bool) (maxEvents timeout : Int) :
    (eventSpeEventWait h events maxEvents timeout).All Cmd.Harmless := by
  have hfail : ∀ e, ((fail e).bind fun rc => .ret (rc, ([] : List EventUnit))).All Cmd.Harmless :=
    fun e => .bind (.bind (.perform trivial) fun _ => trivial) fun _ => trivial
  unfold eventSpeEventWait
  split
  · exact hfail _
  · split
    · exact hfail _
    refine .bind (.perform trivial) fun ok => ?_
    split
    · refine Prog.all_repeats.mpr fun _ => .bind (.perform trivial) fun x => ?_
      split
      · split <;> trivial
      · trivial
      · exact .bind (copyEvents_harmless _ _) fun _ => trivial
    · trivial

/-! ## Reading -/

/-- Once a stop info has begun, only an error that `strict` excludes ends its reading early. -/
theorem safe_stopInfoReadRest (hlen : got.length ≤ stopInfoSize) :
    StopSafe strict t (stopInfoReadRest r got) (g.hold c (.inUse p r w n 0 0 got))
      fun x g' => (x.1 = true → ¬ strict) ∧ (x.1 = false → x.2.length = stopInfoSize) ∧
        g' = g.hold c (.inUse p r w n 0 0 x.2) := by
  refine .repeats (fun got g' => got.length ≤ stopInfoSize ∧
    g' = g.hold c (.inUse p r w n 0 0 got)) ⟨hlen, rfl⟩ ?_
  rintro got _ ⟨hlen, rfl⟩
  by_cases hlt : got.length < stopInfoSize
  · simp only [hlt, ↓reduceIte]
    refine .bind safe_poll ?_
    rintro x _ ⟨rfl, hx⟩
    split
    · exact ⟨hlen, rfl⟩
    · next e hne =>
      refine ⟨fun _ hst => ?_, by simp, rfl⟩
      exact hne (hx e rfl hst)
    · split
      · refine .bind safe_read ?_
        rintro (e | bytes) g' hb
        · obtain ⟨he, rfl⟩ := hb
          split
          · exact ⟨hlen, rfl⟩
          · next e' hne heq =>
            obtain rfl := Except.error.inj heq
            exact ⟨fun _ hst => hne (by rw [he hst]), by simp, rfl⟩
          · next heq => cases heq
        · obtain ⟨hle, rfl⟩ := hb
          refine ⟨?_, rfl⟩
          rw [List.length_append]
          omega
      · exact ⟨hlen, rfl⟩
  · simp only [hlt, ↓reduceIte]
    exact ⟨by simp, fun _ => by simp; omega, rfl⟩

theorem safe_eventSpeStopInfoRead (hg : g.held = none) :
    StopSafe strict t (eventSpeStopInfoRead c) g fun _ g' => g' = g := by
  refine .bind (safe_lock hg) ?_
  rintro _ _ ⟨φ, hφ, rfl, -⟩
  cases hφ with
  | shut =>
    refine .bind safe_load_pipe_shut ?_
    rintro _ _ ⟨rfl, rfl⟩
    rw [if_pos rfl]
    refine .bind (safe_harmless trivial) ?_
    rintro n _ rfl
    by_cases hn : n = 0
    · simp only [hn, ne_eq, not_true_eq_false, ↓reduceIte]
      refine .bind (safe_harmless trivial) ?_
      rintro _ _ rfl
      refine .bind (safe_unlock hg .shut) ?_
      rintro _ _ rfl
      exact rfl
    · simp only [ne_eq, hn, not_false_eq_true, ↓reduceIte]
      refine .bind (safe_harmless trivial) ?_
      rintro _ _ rfl
      refine .bind (safe_harmless trivial) ?_
      rintro _ _ rfl
      refine .bind (safe_unlock hg .shut) ?_
      rintro _ _ rfl
      exact rfl
  | @inUse p r w n hn =>
    refine .bind safe_load_pipe₀_inUse ?_
    rintro _ _ ⟨rfl, rfl, hne⟩
    rw [if_neg hne]
    refine .bind safe_read ?_
    rintro (e | bytes) g' hb
    · obtain ⟨-, rfl⟩ := hb
      refine .bind (safe_unlock hg (.inUse fun _ => rfl)) ?_
      rintro _ _ rfl
      exact rfl
    · obtain ⟨hle, rfl⟩ := hb
      refine .bind (safe_stopInfoReadRest hle) ?_
      rintro ⟨failed, got⟩ _ ⟨hf, hlen, rfl⟩
      cases failed with
      | true =>
        refine .bind (safe_unlock hg (.inUse fun hst => absurd hst (hf rfl))) ?_
        rintro _ _ rfl
        exact rfl
      | false =>
        refine .bind (safe_noteStopInfo fun _ => hlen rfl) ?_
        rintro _ _ rfl
        refine .bind (safe_unlock hg (.inUse fun _ => rfl)) ?_
        rintro _ _ rfl
        exact rfl

/-! ## Running -/

theorem safe_eventSpeContextRun (hheld : g.held = none) (hrun : g.run = none) :
    StopSafe strict t (eventSpeContextRun c) g fun _ g' => g' = { g with run := none } := by
  refine .bind (safe_harmless trivial) ?_
  rintro ⟨rc, stopinfo⟩ _ rfl
  refine .bind (safe_harmless trivial) ?_
  rintro errnoSaved _ rfl
  refine .bind (safe_lock hheld) ?_
  rintro _ _ ⟨φ, hφ, rfl, -⟩
  cases hφ with
  | shut =>
    refine .bind safe_load_pipe_shut ?_
    rintro _ _ ⟨rfl, rfl⟩
    rw [if_pos rfl]
    refine .bind (safe_harmless trivial) ?_
    rintro _ _ rfl
    refine .bind (safe_harmless trivial) ?_
    rintro _ _ rfl
    refine .bind (safe_unlock hheld .shut) ?_
    rintro _ g rfl
    exact show g = ⟨g.source, g.held, none⟩ by rw [← hrun]
  | @inUse p r w n hn =>
    refine .bind safe_load_pipe₁_inUse ?_
    rintro _ _ ⟨rfl, rfl, hne⟩
    rw [if_neg hne]
    refine .bind (safe_stopEventPipeAcquire (.inUse hn)) ?_
    rintro _ _ (⟨-, h, -⟩ | ⟨rfl, q, r', w', n', rfl, hq⟩)
    · cases h
    obtain ⟨rfl, rfl⟩ := hq p _ rfl
    refine .bind (safe_note_runAcquired hrun) ?_
    rintro _ _ rfl
    refine .bind (safe_unlock hheld (.inUse fun _ => rfl)) ?_
    rintro _ _ rfl
    refine .bind (safe_write rfl) ?_
    rintro _ _ rfl
    refine .bind (safe_lock hheld) ?_
    rintro _ _ ⟨φ, hφ, rfl, hw⟩
    -- the run has kept its pipe open
    have hw := hw _ _ rfl
    cases hφ with
    | shut => simp [Held.writeEnd] at hw
    | @inUse q' r'' w'' n'' hn' =>
      obtain ⟨rfl, rfl⟩ : q' = p ∧ w'' = _ := by simpa [Held.writeEnd] using hw
      refine .bind (safe_note_runReleased rfl) ?_
      rintro _ _ rfl
      refine .bind safe_stopEventPipeRelease ?_
      rintro _ _ ⟨φ, hφ, rfl⟩
      refine .bind (safe_unlock hheld hφ.leaves) ?_
      rintro _ _ rfl
      refine .bind (safe_harmless trivial) ?_
      rintro _ _ rfl
      exact rfl

end

/-! ## All interleavings -/

theorem stopInv_init (strict : Prop) {s : World} (h : EventInit s) :
    StopInv strict (fun _ => Stage.idle) s where
  files := by
    refine ⟨fun fd hfd => absurd (h.fds fd) hfd, fun x fd hx => absurd (h.epoll x fd) hx,
      fun fd q he => ?_, fun c d hne => absurd (h.closed c d) hne⟩
    simp [EndOf, h.fds] at he
  source _ _ h := by cases h
  stage c := by
    refine ⟨.shut, ⟨⟨fun q hq => ?_, h.pipe c, ⟨h.count c, ?_, ?_⟩⟩, fun _ => .shut, fun u => ?_,
      fun u ψ hu => ?_, ?_, fun u => ?_, fun u p fd hu => ?_⟩⟩
    · simp [h.nextPipe] at hq
    · simp [h.hist, History.empty]
    · simp [h.hist, History.empty]
    · simp [h.owner, Stage.idle]
    · simp [Stage.idle] at hu
    · simp [h.hist, History.empty]
    · simp [h.hist, History.empty, Stage.idle]
    · simp [Stage.idle] at hu

/-- Every call keeps to the protocol. -/
theorem eventSystem_safe (strict : Prop) (t : Tid) (call : EventCall) :
    StopSafe strict t (eventSystem.code t call) .idle fun _ g' => g' = .idle := by
  cases call with
  | register h ev => exact .bind safe_register fun _ _ h => h
  | deregister h ev => exact .bind safe_deregister fun _ _ h => h
  | wait h events maxEvents timeout =>
    exact .bind (.all (eventSpeEventWait_harmless ..) fun _ => safe_harmless) fun _ _ h => h
  | stopInfoRead c => exact .bind (safe_eventSpeStopInfoRead rfl) fun _ _ h => h
  | run c => exact .bind (safe_eventSpeContextRun rfl rfl) fun _ _ h => h

end LibSpe2
