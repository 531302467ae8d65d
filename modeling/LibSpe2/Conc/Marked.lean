import LibSpe2.Conc.Phase

/-!
# Observed systems

A property of whole calls, such as what they return, is not a property of single commands. An observed
system has its calls *marked* where something about them is to be remembered, and an observer that
follows the run in a state of its own; neither has an influence on what the threads do.

* `Marked` — a command, or a mark; `Prog.marked` is a program without marks, `Prog.erase` forgets them.
* `Observer`, `Machine.observed` — the machine beside its observer.
* `System.Reach.erase` — every run of an observed system is a run of the system without the marks.
* `System.Reach.observed` — and the other way round, if all calls are observed; so the same states are reached
  (`System.Observes.reachable_iff`).
-/

namespace Conc

/-- A command of the machine, or a mark for its observer. -/
inductive Marked (C K : Type) where
  | cmd (c : C)
  | mark (k : K)

variable {C K : Type} {R : C → Type} {T σ G : Type} {α β ι : Type}

namespace Marked

/-- A mark has no answer. -/
@[reducible] def Ans (R : C → Type) : Marked C K → Type
  | .cmd c => R c
  | .mark _ => Unit

/-- Leave out a mark. -/
def erase : (m : Marked C K) → Prog C R (Ans R m)
  | .cmd c => Prog.perform c
  | .mark _ => .ret ()

end Marked

namespace Prog

/-- The program in an observed system. -/
def marked (p : Prog C R α) : Prog (Marked C K) (Marked.Ans R) α := p.interp fun c => perform (Marked.cmd c)

/-- A mark. -/
abbrev mark (k : K) : Prog (Marked C K) (Marked.Ans R) Unit := perform (Marked.mark k)

/-- The program without its marks. -/
def erase (p : Prog (Marked C K) (Marked.Ans R) α) : Prog C R α := p.interp Marked.erase

@[simp] theorem marked_ret (a : α) : (Prog.ret a : Prog C R α).marked (K := K) = .ret a := rfl

@[simp] theorem marked_cmd (c : C) (k : R c → Prog C R α) :
    (Prog.cmd c k).marked (K := K) = .cmd (.cmd c) fun r => (k r).marked := rfl

@[simp] theorem marked_perform (c : C) :
    (perform c : Prog C R (R c)).marked (K := K) = perform (Marked.cmd c) := rfl

@[simp] theorem marked_bind (p : Prog C R α) (f : α → Prog C R β) :
    (p.bind f).marked (K := K) = p.marked.bind fun a => (f a).marked := interp_bind ..

@[simp] theorem marked_repeats (body : ι → Prog C R (ι ⊕ β)) (i : ι) :
    (repeats body i).marked (K := K) = repeats (fun j => (body j).marked) i := interp_repeats ..

@[simp] theorem erase_bind (p : Prog (Marked C K) (Marked.Ans R) α)
    (f : α → Prog (Marked C K) (Marked.Ans R) β) :
    (p.bind f).erase = p.erase.bind fun a => (f a).erase := interp_bind ..

/-- A program without marks. -/
@[simp] theorem erase_marked (p : Prog C R α) : (p.marked (K := K)).erase = p := by
  induction p with
  | ret a => rfl
  | cmd c k ih => exact congrArg (Prog.cmd c) (funext ih)
  | loop body i k ihb ihk =>
    show Prog.loop (fun j => ((body j).marked (K := K)).erase) i
      (fun b => ((k b).marked (K := K)).erase) = _
    rw [funext ihb, funext ihk]

/-- A property of the commands of a program, in an observed system. -/
theorem All.marked {P : C → Prop} {p : Prog C R α} (h : p.All P) :
    (p.marked (K := K)).All fun
      | .cmd c => P c
      | .mark _ => False := by
  induction p with
  | ret a => trivial
  | cmd c k ih => exact ⟨h.1, fun r => ih r (h.2 r)⟩
  | loop body i k ihb ihk => exact ⟨fun j => ihb j (h.1 j), fun b => ihk b (h.2 b)⟩

end Prog

/-- Somebody who sees every command, with its answer and the state it is executed in, and every mark. -/
structure Observer (C : Type) (R : C → Type) (T σ K G : Type) where
  cmd : T → (c : C) → R c → σ → G → G
  mark : T → K → σ → G → G

/-- The machine and its observer. -/
def Machine.observed (M : Machine C R T σ) (O : Observer C R T σ K G) :
    Machine (Marked C K) (Marked.Ans R) T (σ × G) where
  exec t
    | .cmd c, r, x => (M.exec t c r x.1).map fun s' => (s', O.cmd t c r x.1 x.2)
    | .mark k, _, x => some (x.1, O.mark t k x.1 x.2)

/-! ## Without the marks -/

/-- The rest of a call and the rest of the same call without its marks, which may be over already. -/
def Erases : Option (Prog (Marked C K) (Marked.Ans R) Unit) → Option (Prog C R Unit) → Prop
  | some p, some q => q = p.erase
  | some p, none => p.erase = .ret ()
  | none, some _ => False
  | none, none => True

/-- Two families stay related where an element of each is replaced by related ones. -/
theorem update_rel {A B : Type*} (E : A → B → Prop) {f : T → A} {g : T → B} {a : A} {b : B} [DecidableEq T]
    (h : ∀ t, E (f t) (g t)) (t : T) (hab : E a b) (u : T) : E (Function.update f t a u) (Function.update g t b u) := by
  by_cases hu : u = t
  · rwa [hu, Function.update_self, Function.update_self]
  · rw [Function.update_of_ne hu, Function.update_of_ne hu]
    exact h u

/-- Only the observed thread moves. -/
theorem Erases.keep {th : T → Option (Prog (Marked C K) (Marked.Ans R) Unit)} {th₀ : T → Option (Prog C R Unit)}
    {p : Option (Prog (Marked C K) (Marked.Ans R) Unit)} [DecidableEq T] (h : ∀ t, Erases (th t) (th₀ t)) (t : T)
    (hp : Erases p (th₀ t)) (u : T) : Erases (Function.update th t p u) (th₀ u) := by
  have hu := update_rel (Erases (C := C) (K := K) (R := R)) h t hp u
  rwa [Function.update_eq_self] at hu

theorem Erases.congr {p p' : Prog (Marked C K) (Marked.Ans R) Unit} {q : Option (Prog C R Unit)}
    (h : Erases (some p) q) (hp : p.erase = p'.erase) : Erases (some p') q := by
  cases q with
  | none => exact hp.symm.trans h
  | some q => exact Eq.trans h hp

/-- A rest that is not over has a counterpart. -/
theorem Erases.counterpart {p : Prog (Marked C K) (Marked.Ans R) Unit} {q : Option (Prog C R Unit)}
    (h : Erases (some p) q) (hp : p.erase ≠ .ret ()) : q = some p.erase := by
  cases q with
  | none => exact absurd h hp
  | some q => exact congrArg some h

namespace System

variable [DecidableEq T] {S : System (Marked C K) (Marked.Ans R) T (σ × G)} {S₀ : System C R T σ}
  {O : Observer C R T σ K G} {ok : T → (c : Marked C K) → Marked.Ans R c → σ × G → Prop}
  {cfg cfg' : Config (Marked C K) (Marked.Ans R) T (σ × G)}

/-- `S` is `S₀` with an observer, and with calls that consist of marks. -/
structure Observes (S : System (Marked C K) (Marked.Ans R) T (σ × G)) (S₀ : System C R T σ)
    (O : Observer C R T σ K G) : Prop where
  machine : S.toMachine = S₀.toMachine.observed O
  code : ∀ t c, (∃ c₀, (S.code t c).erase = S₀.code t c₀) ∨ (S.code t c).erase = .ret ()
  init : ∀ x, S.init x → S₀.init x.1

theorem Step.erase (hS : S.Observes S₀ O) (h : S.Step ok cfg cfg') {th₀ : T → Option (Prog C R Unit)}
    (h₀ : S₀.Reachable ⟨cfg.shared.1, th₀⟩) (hth : ∀ t, Erases (cfg.threads t) (th₀ t)) :
    ∃ th₁, S₀.Reachable ⟨cfg'.shared.1, th₁⟩ ∧ ∀ t, Erases (cfg'.threads t) (th₁ t) := by
  cases h with
  | @call s th t c ht =>
    have hth : ∀ t, Erases (th t) (th₀ t) := hth
    have hidle : Erases none (th₀ t) := ht ▸ hth t
    have hnone : th₀ t = none := by
      cases hq : th₀ t with
      | none => rfl
      | some q =>
        rw [hq] at hidle
        exact hidle.elim
    rcases hS.code t c with ⟨c₀, hc⟩ | hc
    · exact ⟨_, h₀.step (.call c₀ hnone), update_rel Erases hth t hc.symm⟩
    · refine ⟨th₀, h₀, Erases.keep hth t ?_⟩
      rw [hnone]
      exact hc
  | @act s s' th t c k r ht hok hs =>
    have hrest : Erases (some (.cmd c k)) (th₀ t) := ht ▸ hth t
    rw [hS.machine] at hs
    cases c with
    | mark m =>
      obtain rfl := Option.some.inj hs
      exact ⟨th₀, h₀, Erases.keep hth t (hrest.congr rfl)⟩
    | cmd c =>
      obtain ⟨s₁, hs₁, rfl⟩ := Option.map_eq_some_iff.mp hs
      exact ⟨_, h₀.step (.act (hrest.counterpart nofun) trivial hs₁), update_rel Erases hth t rfl⟩
  | @unroll s th t ι β body i k ht =>
    have hrest : Erases (some (.loop body i k)) (th₀ t) := ht ▸ hth t
    refine ⟨_, h₀.step (.unroll (hrest.counterpart nofun)), update_rel Erases hth t ?_⟩
    show _ = Prog.erase _
    rw [Prog.erase_bind]
    apply congrArg
    funext x
    cases x <;> rfl
  | @finish s th t ht =>
    have hth : ∀ t, Erases (th t) (th₀ t) := hth
    have hrest : Erases (some (.ret ())) (th₀ t) := ht ▸ hth t
    cases hq : th₀ t with
    | none => exact ⟨th₀, h₀, Erases.keep hth t (by rw [hq]; trivial)⟩
    | some q =>
      rw [hq] at hrest
      obtain rfl : q = _ := hrest
      exact ⟨_, h₀.step (.finish hq), update_rel Erases hth t trivial⟩

/-- **Erasure**: what the threads of an observed system do is a run of the system without the marks. -/
theorem Reach.erase (hS : S.Observes S₀ O) (h : S.Reach ok cfg) :
    ∃ th₀, S₀.Reachable ⟨cfg.shared.1, th₀⟩ ∧ ∀ t, Erases (cfg.threads t) (th₀ t) := by
  induction h with
  | init hs => exact ⟨fun _ => none, .init (hS.init _ hs), fun _ => trivial⟩
  | step _ hstep ih =>
    obtain ⟨th₀, h₀, hth⟩ := ih
    exact hstep.erase hS h₀ hth

end System

/-! ## With the marks -/

/-- The same rest of a call with its marks and without, or none. -/
def Matches : Option (Prog (Marked C K) (Marked.Ans R) Unit) → Option (Prog C R Unit) → Prop
  | some p, some q => q = p.erase
  | none, none => True
  | _, _ => False

namespace System

variable [DecidableEq T] {S : System (Marked C K) (Marked.Ans R) T (σ × G)} {S₀ : System C R T σ}
  {O : Observer C R T σ K G} {cfg cfg' : Config C R T σ}

/-- A thread gets past its next marks, up to a command, a loop or the end. -/
theorem Reach.pastMarks (hS : S.Observes S₀ O) {s : σ} {x : G} {t : T}
    {th : T → Option (Prog (Marked C K) (Marked.Ans R) Unit)} {p : Prog (Marked C K) (Marked.Ans R) α}
    {f : α → Prog (Marked C K) (Marked.Ans R) Unit} (hf : ∀ a m k, f a ≠ .cmd (.mark m) k)
    (h : S.Reachable ⟨(s, x), Function.update th t (some (p.bind f))⟩) :
    ∃ x' p', S.Reachable ⟨(s, x'), Function.update th t (some p')⟩ ∧ p'.erase = (p.bind f).erase ∧
      ∀ m k, p' ≠ .cmd (.mark m) k := by
  induction p generalizing x with
  | ret a => exact ⟨x, _, h, rfl, hf a⟩
  | loop body i k => exact ⟨x, _, h, rfl, nofun⟩
  | cmd c k ih =>
    cases c with
    | cmd c => exact ⟨x, _, h, rfl, nofun⟩
    | mark m =>
      have hexec : S.exec t (.mark m) () (s, x) = some (s, O.mark t m s x) := by
        rw [hS.machine]
        rfl
      have hnext := h.step (.act (t := t) (Function.update_self ..) trivial hexec)
      rw [Function.update_idem] at hnext
      exact ih () hf hnext

/-- `S` can make every call of `S₀`, from every start. -/
structure Covers (S : System (Marked C K) (Marked.Ans R) T (σ × G)) (S₀ : System C R T σ) : Prop where
  code : ∀ t c₀, ∃ c, (S.code t c).erase = S₀.code t c₀
  init : ∀ s, S₀.init s → ∃ x, S.init (s, x)

theorem Step.observed (hS : S.Observes S₀ O) (hall : S.Covers S₀) (h₀ : S₀.Step (always C R T σ) cfg cfg') {x : G}
    {th : T → Option (Prog (Marked C K) (Marked.Ans R) Unit)} (h : S.Reachable ⟨(cfg.shared, x), th⟩)
    (hth : ∀ t, Matches (th t) (cfg.threads t)) :
    ∃ x' th', S.Reachable ⟨(cfg'.shared, x'), th'⟩ ∧ ∀ t, Matches (th' t) (cfg'.threads t) := by
  -- where the thread of the step is, with its marks done
  have rest {t : T} {q : Prog C R Unit} (ht : cfg.threads t = some q) : ∃ x' p,
      S.Reachable ⟨(cfg.shared, x'), Function.update th t (some p)⟩ ∧ q = p.erase ∧ ∀ m k, p ≠ .cmd (.mark m) k := by
    have hmatch := hth t
    rw [ht] at hmatch
    cases hp : th t with
    | none =>
      rw [hp] at hmatch
      exact hmatch.elim
    | some p =>
      rw [hp] at hmatch
      rw [← Function.update_eq_self t th, hp, ← Prog.bind_ret p] at h
      obtain ⟨x', p', h', herase, hmark⟩ := h.pastMarks hS nofun
      rw [Prog.bind_ret] at herase
      exact ⟨x', p', h', hmatch.trans herase.symm, hmark⟩
  cases h₀ with
  | @call s th₀ t c₀ ht =>
    obtain ⟨c, hc⟩ := hall.code t c₀
    have hidle : th t = none := by
      have hmatch : Matches (th t) (th₀ t) := hth t
      rw [ht] at hmatch
      cases hp : th t with
      | none => rfl
      | some p =>
        rw [hp] at hmatch
        exact hmatch.elim
    exact ⟨x, _, h.step (.call c hidle), update_rel Matches hth t hc.symm⟩
  | @act s s' th₀ t c k r ht hok hs =>
    obtain ⟨x', p, h', hp, hmark⟩ := rest ht
    cases p with
    | ret a => cases hp
    | loop body i k' => cases hp
    | cmd c' k' =>
      cases c' with
      | mark m => exact absurd rfl (hmark m k')
      | cmd c' =>
        cases hp
        have hexec : S.exec t (.cmd c) r (s, x') = some (s', O.cmd t c r s x') := by
          rw [hS.machine]
          show (S₀.exec t c r s).map _ = _
          rw [hs]
          rfl
        have hnext := h'.step (.act (t := t) (Function.update_self ..) trivial hexec)
        rw [Function.update_idem] at hnext
        exact ⟨_, _, hnext, update_rel Matches hth t rfl⟩
  | @unroll s th₀ t ι β body i k ht =>
    obtain ⟨x', p, h', hp, hmark⟩ := rest ht
    cases p with
    | ret a => cases hp
    | cmd c' k' =>
      cases c' with
      | mark m => exact absurd rfl (hmark m k')
      | cmd c' => cases hp
    | loop body' i' k' =>
      cases hp
      have hnext := h'.step (.unroll (t := t) (Function.update_self ..))
      rw [Function.update_idem] at hnext
      refine ⟨_, _, hnext, update_rel Matches hth t ?_⟩
      show _ = Prog.erase _
      rw [Prog.erase_bind]
      apply congrArg
      funext y
      cases y <;> rfl
  | @finish s th₀ t ht =>
    obtain ⟨x', p, h', hp, hmark⟩ := rest ht
    cases p with
    | loop body i k => cases hp
    | cmd c' k' =>
      cases c' with
      | mark m => exact absurd rfl (hmark m k')
      | cmd c' => cases hp
    | ret a =>
      have hnext := h'.step (.finish (t := t) (Function.update_self ..))
      rw [Function.update_idem] at hnext
      exact ⟨_, _, hnext, update_rel Matches hth t trivial⟩

/-- **The observer misses no run**, and keeps no thread from moving. -/
theorem Reach.observed (hS : S.Observes S₀ O) (hall : S.Covers S₀) (h : S₀.Reachable cfg) :
    ∃ x th, S.Reachable ⟨(cfg.shared, x), th⟩ ∧ ∀ t, Matches (th t) (cfg.threads t) := by
  induction h with
  | init hs =>
    obtain ⟨x, hx⟩ := hall.init _ hs
    exact ⟨x, fun _ => none, .init hx, fun _ => trivial⟩
  | step _ hstep ih =>
    obtain ⟨x, th, h, hth⟩ := ih
    exact hstep.observed hS hall h hth

/-- **The states** that are reached are the same, with the observer and without. -/
theorem Observes.reachable_iff (hS : S.Observes S₀ O) (hall : S.Covers S₀) (s : σ) :
    (∃ x th, S.Reachable ⟨(s, x), th⟩) ↔ ∃ th₀, S₀.Reachable ⟨s, th₀⟩ := by
  constructor
  · intro ⟨x, th, h⟩
    obtain ⟨th₀, h₀, -⟩ := h.erase hS
    exact ⟨th₀, h₀⟩
  · intro ⟨th₀, h₀⟩
    obtain ⟨x, th, h, -⟩ := h₀.observed hS hall
    exact ⟨x, th, h⟩

end System

/-! ## Safety -/

namespace Proto

variable [DecidableEq T] {M : Machine C R T σ} {O : Observer C R T σ K G} {H : Type}
  {ok : T → (c : Marked C K) → Marked.Ans R c → σ × G → Prop}
  {P : Proto (Marked C K) T (σ × G) H} {t : T} {g : H}

/-- **One command** of an observed program. -/
theorem Safe.observed {c : C} {Q : R c → H → Prop}
    (h : ∀ γ s x, P.inv γ (s, x) → γ t = g → P.pre t (.cmd c) (s, x) ∧
      ∀ r s', ok t (.cmd c) r (s, x) → M.exec t c r s = some s' →
        ∃ g', P.inv (Function.update γ t g') (s', O.cmd t c r s x) ∧ Q r g') :
    Safe (M.observed O) ok P t (Prog.perform c).marked g Q := by
  refine Safe.perform (c := Marked.cmd c) ?_
  rintro γ ⟨s, x⟩ hi hg
  obtain ⟨hpre, hstep⟩ := h γ s x hi hg
  refine ⟨hpre, fun r s' hok hs => ?_⟩
  obtain ⟨s₁, hs₁, rfl⟩ := Option.map_eq_some_iff.mp hs
  exact hstep r s₁ hok hs₁

/-- **A mark**: the state is left alone. -/
theorem Safe.mark {k : K} {Q : Unit → H → Prop}
    (h : ∀ γ s x, P.inv γ (s, x) → γ t = g → P.pre t (.mark k) (s, x) ∧
      ∃ g', P.inv (Function.update γ t g') (s, O.mark t k s x) ∧ Q () g') :
    Safe (M.observed O) ok P t (Prog.mark k) g Q := by
  refine Safe.perform (c := Marked.mark k) ?_
  rintro γ ⟨s, x⟩ hi hg
  obtain ⟨hpre, g', hi', hQ⟩ := h γ s x hi hg
  refine ⟨hpre, fun _ s' _ hs => ?_⟩
  obtain rfl := Option.some.inj hs
  exact ⟨g', hi', hQ⟩

/-- **Sequencing** of programs without marks. -/
theorem Safe.marked_bind {p : Prog C R α} {f : α → Prog C R β} {Q : α → H → Prop} {Q' : β → H → Prop}
    (h : Safe (M.observed O) ok P t p.marked g Q)
    (hf : ∀ a g', Q a g' → Safe (M.observed O) ok P t (f a).marked g' Q') :
    Safe (M.observed O) ok P t (p >>= f).marked g Q' := by
  rw [Prog.bind_eq, Prog.marked_bind]
  exact h.bind hf

/-- A program without marks all of whose commands leave the phase alone. -/
theorem Safe.marked_all {p : Prog C R α} {I : C → Prop} (hp : p.All I)
    (h : ∀ c, I c → Safe (M.observed O) ok P t (Prog.perform c).marked g fun _ g' => g' = g) :
    Safe (M.observed O) ok P t p.marked g fun _ g' => g' = g := by
  refine Safe.all hp.marked fun c hc => ?_
  cases c with
  | cmd c => exact h c hc
  | mark k => exact hc.elim

end Proto

end Conc
