import LibSpe2.Spe12.ThreadReleased

/-!
# The lifetime of a thread

What `spe_create_thread` acquires and a call of `spe_wait` releases, in every sequence of calls.

* `Start`, `system` — where the calls start.
* `Released` — what is asked of a wait that returns 0.
* `thread_lifetime` — exactly when a call that fails leaves nothing behind, and exactly when a wait releases all.
-/

namespace LibSpe2.Spe12.Threads

open Conc Function Groups
open Ctx (Resource ProgramHandle)

variable {s s' s₁ s₂ s₃ : World} {spe : Spe} {th : Thread} {gid : Option Groups.Gid}
  {t : Groups.ThreadStore} {w : Watched} {tr : List (Sigma Ans)}

/-! ## Sequences of calls -/

/-- Calls one after the other, from some states. -/
@[reducible] def system (init : World → Prop) : System Cmd Ans Unit World where
  toMachine := machine
  Call := Call
  code _ := Call.code
  init := init

/-- A process that has neither called the library nor opened anything for it. -/
structure Start (s : World) : Prop where
  store : s.store = .init
  contexts : s.contexts = ∅
  piped : s.piped = 0

theorem Start.kept (h : Start s) : Kept s := by
  constructor
  · refine ⟨s.live, ?_, ?_⟩
    · rw [h.contexts]
      exact (add_zero _).symm
    · rw [h.piped]
      exact Multiset.zero_le _
  · rw [h.contexts]
    exact fun c hc => absurd hc (Finset.notMem_empty c)
  · rw [h.store]
    exact fun t c hth => absurd rfl hth
  · rw [h.store]
    exact fun t t' c hth => absurd rfl hth
  · rw [h.store]
    exact fun g gs hg => nomatch hg

/-- **Every state** between two calls satisfies the invariant. -/
theorem reachable_kept (h : (system Start).Calls (fun _ _ _ _ => True) s) : Kept s := by
  induction h with
  | init h => exact h.kept
  | call _ hends hplay _ ih => exact (call_goes ih _ _ _ _ hends hplay).kept

/-- A call that does not join this thread. -/
def NotJoining (th : Thread) : Unit → Call → List (Sigma Ans) → World → Prop := fun _ _ tr _ => ¬Joined th tr

/-- **While a thread is not joined** it keeps what it has. -/
theorem watched_in (h : Kept s) (hw : w.In s) (hcalls : (system (· = s)).Calls (NotJoining w.th) s') :
    Kept s' ∧ w.In s' := by
  induction hcalls with
  | init h' =>
    rw [h']
    exact ⟨h, hw⟩
  | call _ hends hplay hok ih =>
    have hgoes := call_goes ih.1 _ _ _ _ hends hplay
    exact ⟨hgoes.kept, hgoes.watched w ih.2 hok⟩

/-! ## What is asked of a wait -/

/-- **Released**: what the thread has acquired in `s₁`, when it was created, and had in `s₂`, before the wait. -/
structure Released (th : Thread) (spe : Spe) (s₁ s₂ s₃ : World) : Prop where
  context : spe ∉ s₃.contexts
  /-- What the base layer has of the context; the record for events is not the context's own. -/
  held : s₃.live + (s₂.records spe).owned spe false = s₂.live
  evPipe : ∀ fd, fd = (s₁.evPipe spe).1 ∨ fd = (s₁.evPipe spe).2 → 0 ≤ fd → .fd fd ∉ s₃.live
  member : ∀ g, s₁.store.threads th = some ⟨some g⟩ → th ∉ members s₃.store g

/-- `remove_thread_from_group` takes the thread off the list of its group. -/
def CanLeave (s : World) (th : Thread) : Prop :=
  ∀ g gs, s.store.threads th = some ⟨some g⟩ → s.store.groups g = some gs → Removable gs th

/-- A pipe that has been opened is there still. -/
theorem Piped.released_iff (hp : Piped s₁ spe) (hlive : s₁.piped ≤ s₃.live) :
    (∀ fd, fd = (s₁.evPipe spe).1 ∨ fd = (s₁.evPipe spe).2 → 0 ≤ fd → .fd fd ∉ s₃.live) ↔
      s₁.evPipe spe = (-1, -1) := by
  constructor
  · intro h
    rcases hp with hnone | ⟨hfd, hmem⟩
    · exact hnone
    · exact absurd (Multiset.mem_of_le hlive hmem) (h _ (.inl rfl) hfd)
  · intro h fd hfd hnonneg
    rw [h] at hfd
    rcases hfd with rfl | rfl
    · exact absurd hnonneg (by decide)
    · exact absurd hnonneg (by decide)

/-- **A wait that cleans up** releases all but the pipe and the place on a list that the thread cannot leave. -/
theorem Cleaned.released_iff (hc : Cleaned th s₂ s₃) (hw : Watched.In ⟨th, t, spe, s₁.evPipe spe, s₁.piped⟩ s₂)
    (ht : s₁.store.threads th = some t) (hp : Piped s₁ spe) :
    Released th spe s₁ s₂ s₃ ↔ s₁.evPipe spe = (-1, -1) ∧ CanLeave s₂ th := by
  obtain ⟨g, gs, hg, hgs, hgone⟩ := hc.member
  have hpiped := hp.released_iff (hw.piped.trans hc.piped)
  obtain rfl : t = ⟨some g⟩ := Option.some.inj (hw.thread.symm.trans hg)
  constructor
  · intro h
    refine ⟨hpiped.mp h.evPipe, ?_⟩
    intro g' gs' hg' hgs'
    cases hg.symm.trans hg'
    cases hgs.symm.trans hgs'
    exact hgone.mp (h.member g ht)
  · rintro ⟨hclosed, hleave⟩
    obtain ⟨hcontext, hheld⟩ := hc.context spe hw.spectx
    refine ⟨hcontext, hheld, hpiped.mpr hclosed, ?_⟩
    intro g' hg'
    cases ht.symm.trans hg'
    exact hgone.mpr (hleave g gs hg hgs)

/-- **The lifetime of a thread**, in any sequence of calls. A call that returns no thread leaves nothing behind if
and only if it has neither put a group of its own on the list nor created a context. And a call that waits for the
thread and returns 0 releases all that was acquired if and only if it does not return at once, there is no pipe, and
the thread can leave its group. -/
theorem thread_lifetime (hs : (system Start).Calls (fun _ _ _ _ => True) s) {handle : Option ProgramHandle}
    {argp : Bool} {mask : Nat} {flags : UInt32} {r : Option Thread}
    (hends : (speCreateThread gid handle argp mask flags).Ends tr r) (hplay : machine.play () tr s = some s₁) :
    (r = none → (Balanced s s₁ ↔ ¬Listed tr ∧ ¬Made tr)) ∧
      ∀ th, r = some th → ∃ spe, spe ∉ s.contexts ∧ s₁.spectx th = some spe ∧
        ∀ s₂, (system (· = s₁)).Calls (NotJoining th) s₂ → ∀ status options tr' s₃,
          (speWait th status options).Ends tr' 0 → machine.play () tr' s₂ = some s₃ →
          (Released th spe s₁ s₂ s₃ ↔ ¬AtOnce th options tr' ∧ s₁.evPipe spe = (-1, -1) ∧ CanLeave s₂ th) := by
  have h : Kept s := reachable_kept hs
  constructor
  · rintro rfl
    exact speCreateThread_spec tr none s₁ hends hplay
  rintro th rfl
  have hy : Yields s (some th) s₁ := speCreateThread_yields h tr _ s₁ hends hplay
  obtain ⟨spe, hnew, ho, hp⟩ := hy.result th rfl
  refine ⟨spe, hnew, ho.spectx, ?_⟩
  intro s₂ hcalls status options tr' s₃ hends' hplay'
  obtain ⟨t, ht⟩ := Option.ne_none_iff_exists'.mp ho.allocated
  have hin : Watched.In ⟨th, t, spe, s₁.evPipe spe, s₁.piped⟩ s₁ := ⟨ht, ho.spectx, rfl, le_rfl⟩
  obtain ⟨h₂, hw⟩ := watched_in hy.kept hin hcalls
  rcases (speWait_waits h₂ tr' 0 s₃ hends' hplay').result rfl with ⟨honce, hsame⟩ | ⟨hnot, hc⟩
  · -- the context is there still
    have hcontext : spe ∈ s₃.contexts := hsame ▸ hw.context h₂
    exact ⟨fun hr => absurd hcontext hr.context, fun hr => absurd honce hr.1⟩
  · rw [hc.released_iff hw ht hp]
    exact (and_iff_right hnot).symm

/-! ## Runs -/

/-- A process that holds nothing. -/
def World.empty : World where
  store := .init
  spectx _ := none
  contexts := ∅
  records _ := .empty
  evPipe _ := (-1, -1)
  live := 0
  piped := 0

theorem start_empty : Start .empty := ⟨rfl, rfl, rfl⟩

/-- A system that grants everything, but for what it answers to `pipe` and `pthread_create`. -/
def granting (pipe : Except Errno (Fd × Fd)) (pthread : Int) (c : Cmd) (s : World) : Ans c := by
  cases c with
  | srchGroup g => exact (Groups.srchGroup g s.store).1.isSome
  | srchThread th => exact (Groups.srchThread th s.store).elim false fun x => x.1.isSome
  | entries => exact some 4
  | numListSize g => exact (s.store.groups g).elim 0 Groups.GroupStore.numListSize
  | speGidSetup | speCreateGroup => exact (some 1, true)
  | callocThread => exact some 1
  | mallocContext => exact (1 : Nat)
  | ctx spe c => exact Ctx.obliging c (s.focus spe)
  | pipe => exact pipe
  | addThreadToGroup => exact true
  | pthreadCreate => exact pthread
  | threadStatus => exact (99 : Int)
  | pthreadJoin => exact (0 : Int)
  | spectx th => exact (s.spectx th).getD 0
  | groupId th => exact (s.store.threads th).bind Groups.ThreadStore.groupId
  | _ => exact ()

/-- A call of `spe_create_thread` for the default group. -/
abbrev create : Code (Option Thread) := speCreateThread none (some ⟨none⟩) true 1 0

/-- A thread that is created and waited for, found by evaluation. -/
theorem exists_lifetime (pipe : Except Errno (Fd × Fd)) {P : World → World → Bool}
    (h : ((machine.run () (granting pipe 0) 1 create .empty).any fun x => x.2.1 = some 1 &&
      (machine.run () (granting pipe 0) 1 (speWait 1 true 0) x.2.2).any fun y => y.2.1 = 0 &&
        P x.2.2 y.2.2) = true) :
    ∃ tr s₁ tr' s₃, create.Ends tr (some 1) ∧ machine.play () tr .empty = some s₁ ∧
      (speWait 1 true 0).Ends tr' 0 ∧ machine.play () tr' s₁ = some s₃ ∧ P s₁ s₃ = true := by
  obtain ⟨tr, r, s₁, hends, hplay, hrest⟩ := exists_run (P := fun r s₁ => r = some 1 &&
    (machine.run () (granting pipe 0) 1 (speWait 1 true 0) s₁).any fun y => y.2.1 = 0 && P s₁ y.2.2) h
  obtain ⟨hr, hwait⟩ := (Bool.and_eq_true _ _).mp hrest
  obtain rfl := of_decide_eq_true hr
  obtain ⟨tr', rc, s₃, hends', hplay', hP⟩ := exists_run
    (P := fun (rc : Int) s₃ => rc = 0 && P s₁ s₃) hwait
  obtain ⟨hrc, hP⟩ := (Bool.and_eq_true _ _).mp hP
  obtain rfl := of_decide_eq_true hrc
  exact ⟨tr, s₁, tr', s₃, hends, hplay, hends', hplay', hP⟩

/-- `pthread_create` has failed, and the context is there; a thread has been waited for, and its pipe is open. -/
theorem thread_leaks :
    (∃ tr s₁, create.Ends tr none ∧ machine.play () tr .empty = some s₁ ∧ ¬Balanced .empty s₁) ∧
      ∃ tr s₁ tr' s₃, create.Ends tr (some 1) ∧ machine.play () tr .empty = some s₁ ∧
        (speWait 1 true 0).Ends tr' 0 ∧ machine.play () tr' s₁ = some s₃ ∧ s₁.spectx 1 = some 1 ∧
        ¬Released 1 1 s₁ s₁ s₃ := by
  constructor
  · have hrun : ((machine.run () (granting (.error .EMFILE) 11) 1 create .empty).any
        fun x => x.2.1 = none && decide (1 ∈ x.2.2.contexts)) = true := by decide
    obtain ⟨tr, r, s₁, hends, hplay, h⟩ := exists_run
      (P := fun r (s₁ : World) => r = none && decide (1 ∈ s₁.contexts)) hrun
    obtain ⟨hr, hmem⟩ := (Bool.and_eq_true _ _).mp h
    obtain rfl := of_decide_eq_true hr
    refine ⟨tr, s₁, hends, hplay, ?_⟩
    intro hb
    have hmem : (1 : Spe) ∈ s₁.contexts := of_decide_eq_true hmem
    rw [hb.contexts] at hmem
    exact Finset.notMem_empty 1 hmem
  · obtain ⟨tr, s₁, tr', s₃, hends, hplay, hends', hplay', h⟩ := exists_lifetime (.ok (100, 101))
      (P := fun s₁ s₃ => s₁.spectx 1 = some 1 ∧ 0 ≤ (s₁.evPipe 1).1 ∧ .fd (s₁.evPipe 1).1 ∈ s₃.live) (by decide +kernel)
    obtain ⟨hspectx, hfd, hlive⟩ := of_decide_eq_true h
    exact ⟨tr, s₁, tr', s₃, hends, hplay, hends', hplay', hspectx, fun hr => hr.evPipe _ (.inl rfl) hfd hlive⟩

/-- Where `pipe` fails, a thread that is alone in its group is released. -/
theorem thread_lifetime_alone : ∃ tr s₁ tr' s₃, create.Ends tr (some 1) ∧
    machine.play () tr .empty = some s₁ ∧ (speWait 1 true 0).Ends tr' 0 ∧ machine.play () tr' s₁ = some s₃ ∧
    Released 1 1 s₁ s₁ s₃ := by
  obtain ⟨tr, s₁, tr', s₃, hends, hplay, hends', hplay', h⟩ := exists_lifetime (.error .EMFILE)
    (P := fun s₁ _ => s₁.spectx 1 = some 1 ∧ s₁.evPipe 1 = (-1, -1) ∧ s₁.store.threads 1 = some ⟨some 1⟩ ∧
      ∃ gs ∈ s₁.store.groups 1, gs.grpMembers.length = 1) (by decide +kernel)
  obtain ⟨hspectx, hclosed, hthread, gs, hgs, hlen⟩ := of_decide_eq_true h
  refine ⟨tr, s₁, tr', s₃, hends, hplay, hends', hplay', ?_⟩
  obtain ⟨-, hlife⟩ := thread_lifetime (.init start_empty) hends hplay
  obtain ⟨spe, -, hspe, hwait⟩ := hlife 1 rfl
  obtain rfl : 1 = spe := Option.some.inj (hspectx.symm.trans hspe)
  refine (hwait s₁ (.init rfl) true 0 tr' s₃ hends' hplay').mpr ⟨?_, hclosed, ?_⟩
  · exact fun honce => honce.1 (by decide)
  · intro g gs' hg hgs'
    cases hthread.symm.trans hg
    cases hgs.symm.trans hgs'
    exact .inl hlen

end LibSpe2.Spe12.Threads
