import LibSpe2.Conc.Machine

/-!
# Phase protocols: invariants over all interleavings

To prove something about every interleaving of a `System`, say for each thread in which *phase* of
its call it is (a value of a type `G`), and state one invariant on the phases of all threads and the
shared state. A `Proto` is that invariant, with a condition `pre` under which a command is safe to
issue.

`Safe P ok t p g Q` says that thread `t`, in phase `g` with the program `p` ahead of it, is fine
whatever the others do: before each of its commands the invariant gives `pre`, after the command
there is a new phase for `t` that restores the invariant, and when `p` returns `a` the phase
satisfies `Q a`. All that a thread knows is its own phase and the invariant, and no other thread
changes its phase, so no separate interference check is needed.

`Proto.reach` is the one induction over runs: if every call is `Safe` from idle to idle, the
invariant holds in every configuration of every run.
-/

namespace Conc

variable {C : Type} {R : C → Type} {T σ : Type} [DecidableEq T] {α β ι : Type}

/-- An invariant on the phases of the threads and the shared state. -/
structure Proto (C : Type) (T σ G : Type) where
  idle : G
  inv : (T → G) → σ → Prop
  /-- A command may be issued only where this holds. -/
  pre : T → C → σ → Prop := fun _ _ _ => True

namespace Proto

variable {G : Type} (M : Machine C R T σ) (ok : T → (c : C) → R c → σ → Prop) (P : Proto C T σ G)

/-- Thread `t` in phase `g` runs `p` safely and ends in a phase that satisfies `Q`. -/
def Safe (t : T) : {α : Type} → Prog C R α → G → (α → G → Prop) → Prop
  | _, .ret a, g, Q => Q a g
  | _, .cmd c k, g, Q => ∀ γ s, P.inv γ s → γ t = g → P.pre t c s ∧
      ∀ r s', ok t c r s → M.exec t c r s = some s' →
        ∃ g', P.inv (Function.update γ t g') s' ∧ Safe t (k r) g' Q
  | _, .loop (ι := ι) body i k, g, Q => ∃ J : ι → G → Prop, J i g ∧ ∀ j h, J j h →
      Safe t (body j) h fun x h' => x.elim (fun j' => J j' h') (fun b => Safe t (k b) h' Q)

variable {M ok P} {t : T} {g : G}

/-! ## Rules -/

theorem Safe.mono {p : Prog C R α} {Q Q' : α → G → Prop} (h : Safe M ok P t p g Q)
    (hQ : ∀ a g', Q a g' → Q' a g') : Safe M ok P t p g Q' := by
  induction p generalizing g with
  | ret a => exact hQ _ _ h
  | cmd c k ih =>
    intro γ s hi hg
    obtain ⟨hp, hk⟩ := h γ s hi hg
    refine ⟨hp, fun r s' ho hs => ?_⟩
    obtain ⟨g', hi', hk'⟩ := hk r s' ho hs
    exact ⟨g', hi', ih r hk' hQ⟩
  | loop body i k ihb ihk =>
    obtain ⟨J, hJ, hb⟩ := h
    refine ⟨J, hJ, fun j h' hj => ihb j (hb j h' hj) fun x h'' hx => ?_⟩
    cases x with
    | inl j' => exact hx
    | inr b => exact ihk b hx hQ

/-- **Sequencing**: run `p`, then `f` from whatever `p` left. -/
theorem Safe.bind {p : Prog C R α} {f : α → Prog C R β} {Q : α → G → Prop} {Q' : β → G → Prop}
    (h : Safe M ok P t p g Q) (hf : ∀ a g', Q a g' → Safe M ok P t (f a) g' Q') :
    Safe M ok P t (p.bind f) g Q' := by
  induction p generalizing g with
  | ret a => exact hf _ _ h
  | cmd c k ih =>
    intro γ s hi hg
    obtain ⟨hp, hk⟩ := h γ s hi hg
    refine ⟨hp, fun r s' ho hs => ?_⟩
    obtain ⟨g', hi', hk'⟩ := hk r s' ho hs
    exact ⟨g', hi', ih r hk' hf⟩
  | loop body i k ihb ihk =>
    obtain ⟨J, hJ, hb⟩ := h
    refine ⟨J, hJ, fun j h' hj => (hb j h' hj).mono fun x h'' hx => ?_⟩
    cases x with
    | inl j' => exact hx
    | inr b => exact ihk b hx hf

theorem Safe.ret {a : α} {Q : α → G → Prop} (h : Q a g) : Safe M ok P t (.ret a) g Q := h

theorem Safe.perform {c : C} {Q : R c → G → Prop}
    (h : ∀ γ s, P.inv γ s → γ t = g → P.pre t c s ∧
      ∀ r s', ok t c r s → M.exec t c r s = some s' →
        ∃ g', P.inv (Function.update γ t g') s' ∧ Q r g') :
    Safe M ok P t (Prog.perform c) g Q := h

/-- **Loops**: an invariant `J` on the loop's state and the thread's phase. -/
theorem Safe.repeats {body : ι → Prog C R (ι ⊕ β)} {i : ι} {Q : β → G → Prop} (J : ι → G → Prop)
    (hJ : J i g)
    (hb : ∀ j h, J j h → Safe M ok P t (body j) h fun x h' => x.elim (fun j' => J j' h') (fun b => Q b h')) :
    Safe M ok P t (Prog.repeats body i) g Q :=
  ⟨J, hJ, fun j h hj => (hb j h hj).mono fun x _ hx => by cases x <;> exact hx⟩

/-- A program all of whose commands leave the phase alone. -/
theorem Safe.all {p : Prog C R α} {I : C → Prop} (hp : p.All I)
    (h : ∀ c, I c → Safe M ok P t (Prog.perform c) g fun _ g' => g' = g) :
    Safe M ok P t p g fun _ g' => g' = g := by
  induction p with
  | ret a => rfl
  | cmd c k ih =>
    refine Safe.bind (p := Prog.perform c) (h c hp.1) ?_
    rintro r _ rfl
    exact ih r (hp.2 r)
  | loop body i k ihb ihk =>
    refine ⟨fun _ g' => g' = g, rfl, ?_⟩
    rintro j _ rfl
    refine (ihb j (hp.1 j)).mono ?_
    rintro x _ rfl
    cases x with
    | inl j' => rfl
    | inr b => exact ihk b (hp.2 b)

/-- The remaining program of a loop that is about to start another round. -/
theorem Safe.unroll {body : ι → Prog C R (ι ⊕ β)} {i : ι} {k : β → Prog C R α} {Q : α → G → Prop}
    (h : Safe M ok P t (.loop body i k) g Q) :
    Safe M ok P t ((body i).bind (Prog.next body k)) g Q := by
  obtain ⟨J, hJ, hb⟩ := h
  refine (hb i g hJ).bind fun x g' hx => ?_
  cases x with
  | inl j => exact ⟨J, hx, hb⟩
  | inr b => exact hx

/-! ## Soundness -/

variable {S : System C R T σ}

/-- Where a thread may be: idle, or safely inside a call. -/
def At (S : System C R T σ) (ok : T → (c : C) → R c → σ → Prop) (P : Proto C T σ G) (t : T) (g : G) :
    Option (Prog C R Unit) → Prop
  | none => g = P.idle
  | some p => Safe S.toMachine ok P t p g fun _ g' => g' = P.idle

variable (hinit : ∀ s, S.init s → P.inv (fun _ => P.idle) s)
  (hcode : ∀ t c, Safe S.toMachine ok P t (S.code t c) P.idle fun _ g' => g' = P.idle)

include hinit hcode

/-- **Soundness**: in every configuration of every run the invariant holds of some assignment of
phases, and each thread is safe in its phase. -/
theorem reach {cfg : Config C R T σ} (h : S.Reach ok cfg) :
    ∃ γ, P.inv γ cfg.shared ∧ ∀ t, At S ok P t (γ t) (cfg.threads t) := by
  induction h with
  | init h => exact ⟨_, hinit _ h, fun _ => rfl⟩
  | step _ hs ih =>
    obtain ⟨γ, hi, hat⟩ := ih
    cases hs with
    | @call s th t c ht =>
      refine ⟨γ, hi, fun u => ?_⟩
      by_cases hu : u = t
      · subst hu
        have hg : γ u = P.idle := by simpa [At, ht] using hat u
        simpa [At, hg] using hcode u c
      · simpa [Function.update_of_ne hu] using hat u
    | @act s s' th t c k r ht ho he =>
      have hsafe := hat t
      simp only [ht, At] at hsafe
      obtain ⟨g', hi', hk⟩ := (hsafe γ s hi rfl).2 r s' ho he
      refine ⟨_, hi', fun u => ?_⟩
      by_cases hu : u = t
      · subst hu
        simpa [At] using hk
      · simpa [Function.update_of_ne hu] using hat u
    | @unroll s th t ι β body i k ht =>
      have hsafe := hat t
      simp only [ht, At] at hsafe
      refine ⟨γ, hi, fun u => ?_⟩
      by_cases hu : u = t
      · subst hu
        simpa [At] using hsafe.unroll
      · simpa [Function.update_of_ne hu] using hat u
    | @finish s th t ht =>
      have hg : γ t = P.idle := by simpa [At, ht, Safe] using hat t
      refine ⟨γ, hi, fun u => ?_⟩
      by_cases hu : u = t
      · subst hu
        simpa [At] using hg
      · simpa [Function.update_of_ne hu] using hat u

/-- A command that a thread is about to execute satisfies `pre`. -/
theorem reach_pre {cfg : Config C R T σ} (h : S.Reach ok cfg) {t : T} {c : C}
    {k : R c → Prog C R Unit} (ht : cfg.threads t = some (.cmd c k)) : P.pre t c cfg.shared := by
  obtain ⟨γ, hi, hat⟩ := reach hinit hcode h
  have hsafe := hat t
  simp only [ht, At] at hsafe
  exact (hsafe γ _ hi rfl).1

end Proto

end Conc
