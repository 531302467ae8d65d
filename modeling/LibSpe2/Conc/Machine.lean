import LibSpe2.Conc.Prog
import Mathlib.Logic.Relation

/-!
# Machines and thread pools

A `Machine` gives commands a meaning on a shared state. A `System` adds the calls that threads may
make and the states they may start from; its configurations run any number of threads, each making
any sequence of calls, and every step is one command of one thread, so `Reach` ranges over **all
interleavings**.

The answer of a command is where all nondeterminism lives: `exec t c r s = some s'` says that in `s`
command `c` of thread `t` can be answered by `r` and then leads to `s'`. A command none of whose
answers is possible in `s` is blocked there, which is how a mutex or a blocking call is written.

`Reach ok` keeps only the runs all of whose commands satisfy `ok` at the state they were executed
in; it is how a result that holds under a condition on the steps is stated.
-/

namespace Conc

/-- What the commands of each thread do to the shared state. -/
structure Machine (C : Type) (R : C → Type) (T σ : Type) where
  exec : T → (c : C) → R c → σ → Option σ

namespace Machine

variable {C : Type} {R : C → Type} {T σ : Type} (M : Machine C R T σ)

/-- Thread `t` executes the commands of a trace one after the other, nobody else moving. -/
def play (t : T) : List (Sigma R) → σ → Option σ
  | [], s => some s
  | ⟨c, r⟩ :: tr, s => (M.exec t c r s).bind (play t tr)

@[simp] theorem play_nil (t : T) (s : σ) : M.play t [] s = some s := rfl

@[simp] theorem play_cons (t : T) (c : C) (r : R c) (tr : List (Sigma R)) (s : σ) :
    M.play t (⟨c, r⟩ :: tr) s = (M.exec t c r s).bind (M.play t tr) := rfl

/-- Every command of the trace satisfies `ok` at the state it is executed in. -/
def Passes (ok : T → (c : C) → R c → σ → Prop) (t : T) : List (Sigma R) → σ → Prop
  | [], _ => True
  | ⟨c, r⟩ :: tr, s => ok t c r s ∧ match M.exec t c r s with
    | some s' => Passes ok t tr s'
    | none => True

theorem Passes.cons_some {ok : T → (c : C) → R c → σ → Prop} {t : T} {c : C} {r : R c}
    {tr : List (Sigma R)} {s s' : σ} (h : M.Passes ok t (⟨c, r⟩ :: tr) s)
    (hs : M.exec t c r s = some s') : ok t c r s ∧ M.Passes ok t tr s' := by
  simpa only [Passes, hs] using h

theorem Passes.append_some {ok : T → (c : C) → R c → σ → Prop} {t : T}
    {tr₁ tr₂ : List (Sigma R)} {s s' : σ} (h : M.Passes ok t (tr₁ ++ tr₂) s)
    (hs : M.play t tr₁ s = some s') : M.Passes ok t tr₁ s ∧ M.Passes ok t tr₂ s' := by
  induction tr₁ generalizing s with
  | nil =>
    obtain rfl := Option.some.inj hs
    exact ⟨trivial, h⟩
  | cons e tr₁ ih =>
    obtain ⟨s₁, hs₁, hs⟩ := Option.bind_eq_some_iff.mp hs
    obtain ⟨hok, h⟩ := h.cons_some M hs₁
    obtain ⟨h₁, h₂⟩ := ih h hs
    exact ⟨⟨hok, by simpa only [hs₁] using h₁⟩, h₂⟩

theorem passes_of_forall {ok : T → (c : C) → R c → σ → Prop} (hok : ∀ t c r s, ok t c r s) (t : T)
    (tr : List (Sigma R)) (s : σ) : M.Passes ok t tr s := by
  induction tr generalizing s with
  | nil => trivial
  | cons e tr ih =>
    refine ⟨hok .., ?_⟩
    split
    · exact ih _
    · trivial

theorem play_append (t : T) (tr₁ tr₂ : List (Sigma R)) (s : σ) :
    M.play t (tr₁ ++ tr₂) s = (M.play t tr₁ s).bind (M.play t tr₂) := by
  induction tr₁ generalizing s with
  | nil => rfl
  | cons e tr₁ ih =>
    simp only [List.cons_append, play, Option.bind_assoc]
    congr 1
    exact funext ih

end Machine

/-- A machine with the calls its threads make and the states it starts from. -/
structure System (C : Type) (R : C → Type) (T σ : Type) extends Machine C R T σ where
  Call : Type
  code : T → Call → Prog C R Unit
  init : σ → Prop

/-- The shared state and, for each thread, the rest of the call it is in. -/
structure Config (C : Type) (R : C → Type) (T σ : Type) where
  shared : σ
  threads : T → Option (Prog C R Unit)

namespace System

variable {C : Type} {R : C → Type} {T σ : Type} [DecidableEq T] (S : System C R T σ)
  (ok : T → (c : C) → R c → σ → Prop)

/-- One step: a thread makes a call, executes a command, unrolls a loop or returns. -/
inductive Step : Config C R T σ → Config C R T σ → Prop
  | call {s : σ} {th : T → Option (Prog C R Unit)} {t : T} (c : S.Call) (h : th t = none) :
      Step ⟨s, th⟩ ⟨s, Function.update th t (some (S.code t c))⟩
  | act {s s' : σ} {th : T → Option (Prog C R Unit)} {t : T} {c : C} {k : R c → Prog C R Unit}
      {r : R c} (h : th t = some (.cmd c k)) (hok : ok t c r s) (hs : S.exec t c r s = some s') :
      Step ⟨s, th⟩ ⟨s', Function.update th t (some (k r))⟩
  | unroll {s : σ} {th : T → Option (Prog C R Unit)} {t : T} {ι β : Type}
      {body : ι → Prog C R (ι ⊕ β)} {i : ι} {k : β → Prog C R Unit}
      (h : th t = some (.loop body i k)) :
      Step ⟨s, th⟩ ⟨s, Function.update th t (some ((body i).bind (Prog.next body k)))⟩
  | finish {s : σ} {th : T → Option (Prog C R Unit)} {t : T} (h : th t = some (.ret ())) :
      Step ⟨s, th⟩ ⟨s, Function.update th t none⟩

/-- The configurations of the runs all of whose commands satisfy `ok`. -/
inductive Reach : Config C R T σ → Prop
  | init {s : σ} (h : S.init s) : Reach ⟨s, fun _ => none⟩
  | step {cfg cfg' : Config C R T σ} : Reach cfg → S.Step ok cfg cfg' → Reach cfg'

/-- Every step is allowed: all interleavings. -/
abbrev always (C : Type) (R : C → Type) (T σ : Type) : T → (c : C) → R c → σ → Prop :=
  fun _ _ _ _ => True

/-- The configurations of all runs. -/
abbrev Reachable : Config C R T σ → Prop := S.Reach (always C R T σ)

variable {S ok}

theorem Reach.mono {ok' : T → (c : C) → R c → σ → Prop} {cfg : Config C R T σ}
    (h : S.Reach ok cfg) (hok : ∀ t c r s, ok t c r s → ok' t c r s) : S.Reach ok' cfg := by
  induction h with
  | init h => exact .init h
  | step _ hs ih =>
    refine ih.step ?_
    cases hs with
    | call c ht => exact .call c ht
    | act ht ho he => exact .act ht (hok _ _ _ _ ho) he
    | unroll ht => exact .unroll ht
    | finish ht => exact .finish ht

/-- What every executed command satisfies because of the state it leads to may be added to the condition. -/
theorem Reach.also {ok' : T → (c : C) → R c → σ → Prop} {cfg : Config C R T σ} (h : S.Reach ok cfg)
    (hok : ∀ t c r s s' th, S.exec t c r s = some s' → S.Reach ok ⟨s', th⟩ → ok' t c r s) :
    S.Reach (fun t c r s => ok t c r s ∧ ok' t c r s) cfg := by
  induction h with
  | init h => exact .init h
  | step h hs ih =>
    apply ih.step
    cases hs with
    | call c ht => exact .call c ht
    | act ht ho he => exact .act ht ⟨ho, hok _ _ _ _ _ _ he (h.step (.act ht ho he))⟩ he
    | unroll ht => exact .unroll ht
    | finish ht => exact .finish ht

/-- A thread that is alone at work runs through a whole call. -/
theorem Reach.play {α : Type} {s s' : σ} {th : T → Option (Prog C R Unit)} {t : T}
    {p : Prog C R α} {f : α → Prog C R Unit} {tr : List (Sigma R)} {a : α}
    (h : S.Reach ok ⟨s, Function.update th t (some (p.bind f))⟩) (hp : p.Ends tr a)
    (hs : S.play t tr s = some s') (hok : S.Passes ok t tr s) :
    S.Reach ok ⟨s', Function.update th t (some (f a))⟩ := by
  induction hp generalizing s s' with
  | ret =>
    simp only [Machine.play_nil, Option.some.injEq] at hs
    exact hs ▸ h
  | @cmd _ c k r tr a _ ih =>
    simp only [Machine.play_cons, Option.bind_eq_some_iff] at hs
    obtain ⟨s₁, hs₁, hs⟩ := hs
    obtain ⟨ho, hok⟩ := hok.cons_some _ hs₁
    refine ih ?_ hs hok
    have := Reach.step h (.act (t := t) (Function.update_self ..) ho hs₁)
    simpa using this
  | @again _ _ _ body i j k tr₁ tr₂ a _ _ ihb ihl =>
    rw [Machine.play_append, Option.bind_eq_some_iff] at hs
    obtain ⟨s₁, hs₁, hs⟩ := hs
    obtain ⟨hok₁, hok₂⟩ := hok.append_some _ hs₁
    refine ihl ?_ hs hok₂
    have hu := Reach.step h (.unroll (t := t) (Function.update_self ..))
    rw [Function.update_idem] at hu
    have := ihb (f := Prog.next body fun b => (k b).bind f) hu hs₁ hok₁
    simpa [Prog.next] using this
  | @leave _ _ _ body i b k tr₁ tr₂ a _ _ ihb ihk =>
    rw [Machine.play_append, Option.bind_eq_some_iff] at hs
    obtain ⟨s₁, hs₁, hs⟩ := hs
    obtain ⟨hok₁, hok₂⟩ := hok.append_some _ hs₁
    refine ihk ?_ hs hok₂
    have hu := Reach.step h (.unroll (t := t) (Function.update_self ..))
    rw [Function.update_idem] at hu
    exact ihb (f := Prog.next body fun b => (k b).bind f) hu hs₁ hok₁

/-- An idle thread can make the beginning of a call on its own. -/
theorem Reach.begins {α : Type} {s s' : σ} {th : T → Option (Prog C R Unit)} {t : T} {c : S.Call}
    {p : Prog C R α} {f : α → Prog C R Unit} {tr : List (Sigma R)} {a : α} (h : S.Reach ok ⟨s, th⟩)
    (ht : th t = none) (hcode : S.code t c = p.bind f) (hp : p.Ends tr a) (hs : S.play t tr s = some s')
    (hok : S.Passes ok t tr s) : S.Reach ok ⟨s', Function.update th t (some (f a))⟩ := by
  have h₁ := Reach.step h (.call c ht)
  rw [hcode] at h₁
  exact h₁.play hp hs hok

/-- An idle thread can make a whole call on its own. -/
theorem Reach.solo {s s' : σ} {th : T → Option (Prog C R Unit)} {t : T} {c : S.Call}
    {tr : List (Sigma R)} (h : S.Reach ok ⟨s, th⟩) (ht : th t = none)
    (hp : (S.code t c).Ends tr ()) (hs : S.play t tr s = some s') (hok : S.Passes ok t tr s) :
    S.Reach ok ⟨s', th⟩ := by
  have h₁ := h.begins ht (Prog.bind_ret (S.code t c)).symm hp hs hok
  have h₂ := Reach.step h₁ (.finish (t := t) (Function.update_self ..))
  rwa [Function.update_idem, ← ht, Function.update_eq_self] at h₂

end System

end Conc
