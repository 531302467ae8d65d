import LibSpe2.Context.OpsSound

/-!
# Freeing a context

`free_spe_context` releases what the records of a context hold: each mapping and each descriptor once,
and no part of the `psmap` mapping by itself.

* `Frees` — a program releases exactly these resources.
* `post_freeSpeContext`, `Holds.free` — what is left of a context after it has been freed.
-/

namespace LibSpe2.Ctx

open Conc Function

variable {l : Life} {w : Watch} {spe : Spe} {s s' s₀ s₁ s₂ : Proc} {α β : Type}

/-! ## Releasing -/

/-- Where the members are as in `s₀`, the program releases `r`, and nothing else. -/
def Frees (s₀ : Proc) (p : Code α) (r : Multiset Resource) : Prop :=
  ∀ w s rest, s.mem = s₀.mem → s.live = r + rest → CtxPost w p s fun _ s' =>
    s'.mem = s₀.mem ∧ s'.live = rest ∧ s'.faults = s.faults

namespace Frees

variable {r₁ r₂ : Multiset Resource}

theorem ret {a : α} : Frees s₀ (.ret a) 0 := by
  intro w s rest hm hlive
  rw [zero_add] at hlive
  exact .ret ⟨hm, hlive, rfl⟩

theorem bind {p : Code α} {q : α → Code β} (hp : Frees s₀ p r₁) (hq : ∀ a, Frees s₀ (q a) r₂) :
    Frees s₀ (p.bind q) (r₁ + r₂) := by
  intro w s rest hm hlive
  rw [add_assoc] at hlive
  refine (hp w s _ hm hlive).bind fun a s₁ h₁ => ?_
  refine (hq a w s₁ rest h₁.1 h₁.2.1).mono fun _ s' h' => ?_
  exact ⟨h'.1, h'.2.1, h'.2.2.trans h₁.2.2⟩

theorem bind_ret {p : Code α} {b : β} (hp : Frees s₀ p r₁) :
    Frees s₀ (p.bind fun _ => .ret b) r₁ := by
  have hret : Frees s₀ (.ret b : Code β) 0 := ret
  rw [← add_zero r₁]
  exact hp.bind fun _ => hret

theorem release {c : Cmd} {r : Resource}
    (hc : ∀ a s s', exec () c a s = some s' → s' = s.release r) :
    Frees s₀ (perform c) {r} := by
  intro w s rest hm hlive
  have hr : r ∈ s.live := by simp [hlive]
  exact post_release (fun a s₁ he => hc a s s₁ he) hr fun _ =>
    .ret ⟨release_mem.trans hm, release_live hlive⟩

end Frees

theorem frees_close {fd : Fd} : Frees s₀ (perform (.close fd)) {.fd fd} :=
  .release fun _ _ _ he => (Option.some.inj he).symm

theorem frees_munmap {base size : Nat} : Frees s₀ (perform (.munmap base size)) {.map base size} :=
  .release fun _ _ _ he => (Option.some.inj he).symm

theorem frees_unmap {base : Option Nat} {size : Nat} :
    Frees s₀ (unmap base size) (heldMap base size) := by
  cases base with
  | none => exact .ret
  | some base => exact frees_munmap

theorem frees_unmapProblemState {b : BasePriv} : Frees s₀ (unmapProblemState b) b.psMaps := by
  unfold unmapProblemState BasePriv.psMaps
  cases b.psmapMmapBase with
  | some base => exact frees_munmap
  | none =>
    simp only [add_assoc]
    refine frees_unmap.bind fun _ => frees_unmap.bind fun _ => ?_
    exact frees_unmap.bind fun _ => frees_unmap.bind fun _ => frees_unmap

theorem frees_closeFds {ds : List FdName} :
    Frees s₀ (closeFds spe ds) (s₀.slotFds spe ds) := by
  induction ds with
  | nil => exact .ret
  | cons d ds ih =>
    rw [slotFds_cons]
    intro w s rest hm hlive
    apply post_step (c := .load _) trivial
    intro fd s h
    obtain ⟨rfl, rfl⟩ := of_guard h
    rw [hm]
    by_cases hfd : 0 ≤ s₀.mem (.speFdsArray spe d)
    · rw [if_pos hfd]
      rw [heldFd_of_nonneg hfd] at hlive
      exact (frees_close.bind fun _ => ih) w s rest hm hlive
    · rw [if_neg hfd]
      rw [heldFd, if_neg hfd, zero_add] at hlive
      exact ih w s rest hm hlive

theorem frees_closeIf {fd : Fd} {b : Int} :
    Frees s₀ (do
      if fd ≥ 0 then perform (.close fd)
      return b) (heldFd fd) := by
  unfold heldFd
  split
  · exact frees_close.bind_ret
  · exact .ret

/-- `free_spe_context` releases what the base record holds. -/
theorem post_freeSpeContext {rest : Multiset Resource}
    (hlive : s.live = s.base.owned + s.slotFds spe fdNames + rest) :
    CtxPost w (freeSpeContext spe) s fun _ s' => s'.live = rest ∧ s'.faults = s.faults := by
  apply post_step (c := .base) trivial
  intro b s h
  obtain ⟨rfl, rfl⟩ := of_guard h
  have hfree : Frees s (do
      unmapProblemState s.base
      unmap s.base.memMmapBase lsSize
      closeFds spe fdNames
      if s.base.fdSpeDir ≥ 0 then perform (.close s.base.fdSpeDir)
      return (0 : Int)) (s.base.psMaps + (heldMap s.base.memMmapBase lsSize +
        (s.slotFds spe fdNames + heldFd s.base.fdSpeDir))) := by
    refine frees_unmapProblemState.bind fun _ => frees_unmap.bind fun _ => ?_
    exact frees_closeFds.bind fun _ => frees_closeIf
  refine (hfree w s rest rfl ?_).mono fun _ s' h => h.2
  rw [hlive, BasePriv.owned]
  abel

/-- What a context without an event record is left with when it is freed. -/
theorem Holds.free (hs : Holds l spe s) (he : l.event = false) :
    CtxPost w (freeSpeContext spe) s fun _ s' =>
      s'.live = l.others ∧ s'.faults = l.faults := by
  have hlive : s.live = s.base.owned + s.slotFds spe fdNames + l.others := by
    rw [hs.live, Proc.owned, he]
    simp only [Bool.false_eq_true, ↓reduceIte]
    abel
  exact (post_freeSpeContext hlive).mono fun _ _ h => ⟨h.1, h.2.trans hs.faults⟩

theorem Holds.abandon (hs : Holds l spe s) (he : l.event = false) {e : Int} :
    CtxPost w (abandon spe e) s fun created s' =>
      created = false ∧ s'.live = l.others ∧ s'.faults = l.faults := by
  refine (hs.free he).bind fun _ s₁ h₁ => ?_
  apply post_step (c := .setErrno e) trivial
  intro _ s₂ h₂
  obtain rfl := Option.some.inj h₂
  exact .ret ⟨rfl, h₁⟩

end LibSpe2.Ctx
