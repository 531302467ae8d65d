import Mathlib.Data.List.Basic
import Mathlib.Logic.Function.Basic

/-!
# Programs over commands

A thread's code as data. `Prog C R α` is a program that issues commands `c : C`, gets an answer of
type `R c` for each, may loop without bound, and returns an `α`. What a command *does* is not said
here: a machine (`Conc/Machine.lean`) gives commands a meaning on a shared state, and the same
program can be run alone, interleaved with others, or looked at through its traces only.

* `Prog` is a monad, so code is written with `do`.
* `Prog.loop` is the one source of unbounded behaviour. Its body answers `inl i` ("go round again
  from `i`") or `inr b` ("leave with `b`").
* `Prog.interp f p` carries out each command of `p` by a program over other commands.
* `Prog.Ends p tr a` — the big-step trace semantics: `p` can return `a` having exchanged exactly the
  commands and answers of `tr`, whatever the answers are.
* `Prog.Starts p tr` — `p` can have exchanged `tr` so far, whether it will ever return or not.
-/

namespace Conc

/-- A program of one thread over the commands `C`, where `c : C` is answered by an `R c`. -/
inductive Prog (C : Type) (R : C → Type) : Type → Type 1 where
  | ret {α : Type} (a : α) : Prog C R α
  | cmd {α : Type} (c : C) (k : R c → Prog C R α) : Prog C R α
  | loop {α β ι : Type} (body : ι → Prog C R (ι ⊕ β)) (i : ι) (k : β → Prog C R α) : Prog C R α

namespace Prog

variable {C : Type} {R : C → Type} {α β γ ι : Type}

/-! ## The monad -/

/-- Run `p`, then `f` on what it returned. -/
def bind : Prog C R α → (α → Prog C R β) → Prog C R β
  | .ret a, f => f a
  | .cmd c k, f => .cmd c fun r => (k r).bind f
  | .loop body i k, f => .loop body i fun b => (k b).bind f

instance : Monad (Prog C R) where
  pure := .ret
  bind := bind

/-- Issue one command and return its answer. -/
def perform (c : C) : Prog C R (R c) := .cmd c .ret

@[simp] theorem pure_eq (a : α) : (pure a : Prog C R α) = .ret a := rfl

@[simp] theorem bind_eq (p : Prog C R α) (f : α → Prog C R β) : p >>= f = p.bind f := rfl

@[simp] theorem ret_bind (a : α) (f : α → Prog C R β) : (Prog.ret a : Prog C R α).bind f = f a := rfl

@[simp] theorem cmd_bind (c : C) (k : R c → Prog C R α) (f : α → Prog C R β) :
    (Prog.cmd c k).bind f = .cmd c fun r => (k r).bind f := rfl

@[simp] theorem loop_bind (body : ι → Prog C R (ι ⊕ β)) (i : ι) (k : β → Prog C R α)
    (f : α → Prog C R γ) :
    (Prog.loop body i k).bind f = .loop body i fun b => (k b).bind f := rfl

@[simp] theorem perform_bind (c : C) (f : R c → Prog C R β) :
    (perform c : Prog C R (R c)).bind f = .cmd c f := rfl

theorem bind_assoc (p : Prog C R α) (f : α → Prog C R β) (g : β → Prog C R γ) :
    (p.bind f).bind g = p.bind fun a => (f a).bind g := by
  induction p with
  | ret a => rfl
  | cmd c k ih => simp [ih]
  | loop body i k _ ih => simp [ih]

theorem bind_ret (p : Prog C R α) : p.bind .ret = p := by
  induction p with
  | ret a => rfl
  | cmd c k ih => simp [ih]
  | loop body i k _ ih => simp [ih]

/-- What a loop does after one round of its body. -/
def next (body : ι → Prog C R (ι ⊕ β)) (k : β → Prog C R α) : ι ⊕ β → Prog C R α
  | .inl i => .loop body i k
  | .inr b => k b

/-- A loop as a program of its own: go round until the body answers `inr`. -/
def repeats (body : ι → Prog C R (ι ⊕ β)) (i : ι) : Prog C R β := .loop body i .ret

/-- Every command that `p` can issue satisfies `P`. -/
def All (P : C → Prop) : {α : Type} → Prog C R α → Prop
  | _, .ret _ => True
  | _, .cmd c k => P c ∧ ∀ r, (k r).All P
  | _, .loop body _ k => (∀ i, (body i).All P) ∧ ∀ b, (k b).All P

@[simp] theorem all_ret {P : C → Prop} {a : α} : (.ret a : Prog C R α).All P ↔ True := Iff.rfl

@[simp] theorem all_cmd {P : C → Prop} {c : C} {k : R c → Prog C R α} :
    (.cmd c k : Prog C R α).All P ↔ P c ∧ ∀ r, (k r).All P := Iff.rfl

@[simp] theorem all_repeats {P : C → Prop} {body : ι → Prog C R (ι ⊕ β)} {i : ι} :
    (repeats body i).All P ↔ ∀ i, (body i).All P := by
  simp [repeats, All]

theorem All.perform {P : C → Prop} {c : C} (h : P c) : (perform c : Prog C R (R c)).All P :=
  ⟨h, fun _ => trivial⟩

theorem All.bind {P : C → Prop} {p : Prog C R α} {f : α → Prog C R β} (hp : p.All P)
    (hf : ∀ a, (f a).All P) : (p.bind f).All P := by
  induction p with
  | ret a => exact hf a
  | cmd c k ih => exact ⟨hp.1, fun r => ih r (hp.2 r) hf⟩
  | loop body i k _ ih => exact ⟨hp.1, fun b => ih b (hp.2 b) hf⟩

theorem All.imp {P P' : C → Prop} {p : Prog C R α} (hp : p.All P) (h : ∀ c, P c → P' c) :
    p.All P' := by
  induction p with
  | ret a => trivial
  | cmd c k ih => exact ⟨h c hp.1, fun r => ih r (hp.2 r)⟩
  | loop body i k ihb ihk => exact ⟨fun j => ihb j (hp.1 j), fun b => ihk b (hp.2 b)⟩

theorem all_true (p : Prog C R α) : p.All fun _ => True := by
  induction p with
  | ret a => trivial
  | cmd c k ih => exact ⟨trivial, ih⟩
  | loop body i k ihb ihk => exact ⟨ihb, ihk⟩

/-! ## Commands carried out by programs -/

variable {C' : Type} {R' : C' → Type}

/-- Carry out each command of `p` by a program over other commands. -/
def interp (f : (c : C) → Prog C' R' (R c)) : {α : Type} → Prog C R α → Prog C' R' α
  | _, .ret a => .ret a
  | _, .cmd c k => (f c).bind fun r => (k r).interp f
  | _, .loop body i k => .loop (fun j => (body j).interp f) i fun b => (k b).interp f

@[simp] theorem interp_ret (f : (c : C) → Prog C' R' (R c)) (a : α) :
    (Prog.ret a : Prog C R α).interp f = .ret a := rfl

@[simp] theorem interp_perform (f : (c : C) → Prog C' R' (R c)) (c : C) :
    (perform c).interp f = f c := bind_ret (f c)

@[simp] theorem interp_repeats (f : (c : C) → Prog C' R' (R c)) (body : ι → Prog C R (ι ⊕ β))
    (i : ι) : (repeats body i).interp f = repeats (fun j => (body j).interp f) i := rfl

@[simp] theorem interp_bind (f : (c : C) → Prog C' R' (R c)) (p : Prog C R α)
    (g : α → Prog C R β) : (p.bind g).interp f = (p.interp f).bind fun a => (g a).interp f := by
  induction p with
  | ret a => rfl
  | cmd c k ih => simp [interp, bind_assoc, ih]
  | loop body i k _ ih => simp [interp, ih]

theorem All.interp {P : C → Prop} {P' : C' → Prop} {f : (c : C) → Prog C' R' (R c)} {p : Prog C R α}
    (hp : p.All P) (h : ∀ c, P c → (f c).All P') : (p.interp f).All P' := by
  induction p with
  | ret a => trivial
  | cmd c k ih => exact (h c hp.1).bind fun r => ih r (hp.2 r)
  | loop body i k ihb ihk => exact ⟨fun j => ihb j (hp.1 j), fun b => ihk b (hp.2 b)⟩

/-! ## Traces -/

/-- `p` can return `a` after exactly the exchange `tr` of commands and answers. -/
inductive Ends : {α : Type} → Prog C R α → List (Sigma R) → α → Prop
  | ret {α : Type} {a : α} : Ends (.ret a) [] a
  | cmd {α : Type} {c : C} {k : R c → Prog C R α} {r : R c} {tr : List (Sigma R)} {a : α} :
      Ends (k r) tr a → Ends (.cmd c k) (⟨c, r⟩ :: tr) a
  | again {α β ι : Type} {body : ι → Prog C R (ι ⊕ β)} {i j : ι} {k : β → Prog C R α}
      {tr₁ tr₂ : List (Sigma R)} {a : α} :
      Ends (body i) tr₁ (.inl j) → Ends (.loop body j k) tr₂ a →
        Ends (.loop body i k) (tr₁ ++ tr₂) a
  | leave {α β ι : Type} {body : ι → Prog C R (ι ⊕ β)} {i : ι} {b : β} {k : β → Prog C R α}
      {tr₁ tr₂ : List (Sigma R)} {a : α} :
      Ends (body i) tr₁ (.inr b) → Ends (k b) tr₂ a → Ends (.loop body i k) (tr₁ ++ tr₂) a

@[simp] theorem ends_ret {a b : α} {tr : List (Sigma R)} :
    Ends (.ret a : Prog C R α) tr b ↔ tr = [] ∧ b = a := by
  constructor
  · intro h
    cases h
    exact ⟨rfl, rfl⟩
  · rintro ⟨rfl, rfl⟩
    exact .ret

theorem ends_cmd {c : C} {k : R c → Prog C R α} {tr : List (Sigma R)} {a : α} :
    Ends (.cmd c k) tr a ↔ ∃ r tr', tr = ⟨c, r⟩ :: tr' ∧ Ends (k r) tr' a := by
  constructor
  · intro h
    cases h with
    | cmd h => exact ⟨_, _, rfl, h⟩
  · rintro ⟨r, tr', rfl, h⟩
    exact .cmd h

theorem ends_loop {body : ι → Prog C R (ι ⊕ β)} {i : ι} {k : β → Prog C R α}
    {tr : List (Sigma R)} {a : α} :
    Ends (.loop body i k) tr a ↔
      ∃ tr₁ tr₂ x, tr = tr₁ ++ tr₂ ∧ Ends (body i) tr₁ x ∧ Ends (next body k x) tr₂ a := by
  constructor
  · intro h
    cases h with
    | again h₁ h₂ => exact ⟨_, _, .inl _, rfl, h₁, h₂⟩
    | leave h₁ h₂ => exact ⟨_, _, .inr _, rfl, h₁, h₂⟩
  · rintro ⟨tr₁, tr₂, x, rfl, h₁, h₂⟩
    cases x with
    | inl j => exact .again h₁ h₂
    | inr b => exact .leave h₁ h₂

/-- Every command of a trace is one that the program can issue. -/
theorem All.ends {P : C → Prop} {p : Prog C R α} {tr : List (Sigma R)} {a : α} (hp : p.All P)
    (h : Ends p tr a) : ∀ e ∈ tr, P e.1 := by
  induction h with
  | ret => simp
  | cmd _ ih => exact List.forall_mem_cons.mpr ⟨hp.1, ih (hp.2 _)⟩
  | again _ _ ihb ihl => exact List.forall_mem_append.mpr ⟨ihb (hp.1 _), ihl hp⟩
  | leave _ _ ihb ihk => exact List.forall_mem_append.mpr ⟨ihb (hp.1 _), ihk (hp.2 _)⟩

/-- **Traces compose**: a run of `p` followed by `f` splits into a run of each. -/
theorem ends_bind {p : Prog C R α} {f : α → Prog C R β} {tr : List (Sigma R)} {b : β} :
    Ends (p.bind f) tr b ↔
      ∃ tr₁ tr₂ a, tr = tr₁ ++ tr₂ ∧ Ends p tr₁ a ∧ Ends (f a) tr₂ b := by
  constructor
  · intro h
    -- on the derivation: a loop's rounds are shared by both sides
    generalize hq : p.bind f = q at h
    induction h generalizing p with
    | ret =>
      cases p <;> simp at hq
      exact ⟨[], [], _, rfl, .ret, hq ▸ .ret⟩
    | @cmd _ c k r tr' a hk ih =>
      cases p with
      | ret a' => exact ⟨[], _, a', rfl, .ret, by simp only [ret_bind] at hq; exact hq ▸ .cmd hk⟩
      | cmd c' k' =>
        simp only [cmd_bind] at hq
        injection hq with _ hc hk'
        subst hc
        obtain rfl := eq_of_heq hk'
        obtain ⟨tr₁, tr₂, a', rfl, h₁, h₂⟩ := ih rfl
        exact ⟨_, tr₂, a', rfl, .cmd h₁, h₂⟩
      | loop body i k' => simp at hq
    | @again _ _ _ body i j k tr₁' tr₂' a hb hl ihb ihl =>
      cases p with
      | ret a' => exact ⟨[], _, a', rfl, .ret, by simp only [ret_bind] at hq; exact hq ▸ .again hb hl⟩
      | cmd c' k' => simp at hq
      | loop body' i' k' =>
        simp only [loop_bind] at hq
        injection hq with _ hβ hι hbody hi hk'
        subst hβ hι
        obtain rfl := eq_of_heq hbody
        obtain rfl := eq_of_heq hi
        obtain rfl := eq_of_heq hk'
        obtain ⟨tr₁, tr₂, a', rfl, h₁, h₂⟩ := ihl (p := .loop body' j k') rfl
        exact ⟨_, tr₂, a', (List.append_assoc ..).symm, .again hb h₁, h₂⟩
    | @leave _ _ _ body i b' k tr₁' tr₂' a hb hk ihb ihk =>
      cases p with
      | ret a' => exact ⟨[], _, a', rfl, .ret, by simp only [ret_bind] at hq; exact hq ▸ .leave hb hk⟩
      | cmd c' k' => simp at hq
      | loop body' i' k' =>
        simp only [loop_bind] at hq
        injection hq with _ hβ hι hbody hi hk'
        subst hβ hι
        obtain rfl := eq_of_heq hbody
        obtain rfl := eq_of_heq hi
        obtain rfl := eq_of_heq hk'
        obtain ⟨tr₁, tr₂, a', rfl, h₁, h₂⟩ := ihk rfl
        exact ⟨_, tr₂, a', (List.append_assoc ..).symm, .leave hb h₁, h₂⟩
  · rintro ⟨tr₁, tr₂, a, rfl, h₁, h₂⟩
    induction h₁ with
    | ret => exact h₂
    | cmd _ ih => exact .cmd (ih h₂)
    | again hb _ _ ih => simpa using Ends.again hb (ih h₂)
    | leave hb _ _ ih => simpa using Ends.leave hb (ih h₂)

@[simp] theorem ends_perform {c : C} {tr : List (Sigma R)} {r : R c} :
    Ends (perform c : Prog C R (R c)) tr r ↔ tr = [⟨c, r⟩] := by
  rw [perform, ends_cmd]
  constructor
  · rintro ⟨r', tr', rfl, h⟩
    obtain ⟨rfl, rfl⟩ := ends_ret.mp h
    rfl
  · rintro rfl
    exact ⟨r, [], rfl, .ret⟩

/-- Inversion of a trace at a command. -/
theorem Ends.perform {c : C} {f : R c → Prog C R β} {tr : List (Sigma R)} {b : β}
    (h : Ends ((perform c).bind f) tr b) : ∃ r tr', tr = ⟨c, r⟩ :: tr' ∧ Ends (f r) tr' b :=
  ends_cmd.mp h

/-- **Loop rule for traces.** `J i tr` relates the state of the loop to everything exchanged so far;
every round keeps it, and the round that leaves turns it into `Q`. -/
theorem Ends.repeats_rule {body : ι → Prog C R (ι ⊕ β)} {J : ι → List (Sigma R) → Prop}
    {Q : List (Sigma R) → β → Prop} {i : ι} {tr₀ tr : List (Sigma R)} {b : β}
    (h : Ends (repeats body i) tr b) (h₀ : J i tr₀)
    (hagain : ∀ i tr₀ tr₁ j, J i tr₀ → Ends (body i) tr₁ (.inl j) → J j (tr₀ ++ tr₁))
    (hleave : ∀ i tr₀ tr₁ b, J i tr₀ → Ends (body i) tr₁ (.inr b) → Q (tr₀ ++ tr₁) b) :
    Q (tr₀ ++ tr) b := by
  generalize hp : repeats body i = p at h
  induction h generalizing i tr₀ with
  | ret => cases hp
  | cmd => cases hp
  | again hb _ _ ih =>
    cases hp
    rw [← List.append_assoc]
    exact ih (hagain _ _ _ _ h₀ hb) hagain hleave rfl
  | leave hb hk =>
    cases hp
    obtain ⟨rfl, rfl⟩ := ends_ret.mp hk
    simpa using hleave _ _ _ _ h₀ hb

/-- A loop that returns does so in its last round. -/
theorem Ends.repeats_last {body : ι → Prog C R (ι ⊕ β)} {i : ι} {tr : List (Sigma R)} {b : β}
    (h : Ends (repeats body i) tr b) : ∃ j tr₀ tr₁, tr = tr₀ ++ tr₁ ∧ Ends (body j) tr₁ (.inr b) := by
  generalize hp : repeats body i = p at h
  induction h generalizing i with
  | ret => cases hp
  | cmd => cases hp
  | @again _ _ _ _ _ _ _ tr₁ _ _ _ _ _ ih =>
    cases hp
    obtain ⟨j, tr₂, tr₃, rfl, hlast⟩ := ih rfl
    exact ⟨j, tr₁ ++ tr₂, tr₃, (List.append_assoc ..).symm, hlast⟩
  | leave hb hk =>
    cases hp
    obtain ⟨rfl, rfl⟩ := ends_ret.mp hk
    exact ⟨_, [], _, List.append_nil _, hb⟩

/-- **Loops that go round together**: where every round of one is, seen through `g`, a round of the other, so is
every run. -/
theorem Ends.repeats_map {C' : Type} {R' : C' → Type} {β' ι' : Type} {body : ι → Prog C R (ι ⊕ β)}
    {body' : ι' → Prog C' R' (ι' ⊕ β')} (g : List (Sigma R) → List (Sigma R'))
    (hg : ∀ tr₁ tr₂, g (tr₁ ++ tr₂) = g tr₁ ++ g tr₂) (f : ι → ι') (f' : β → β')
    (hbody : ∀ i tr x, Ends (body i) tr x → Ends (body' (f i)) (g tr) (x.map f f')) {i : ι}
    {tr : List (Sigma R)} {b : β} (h : Ends (repeats body i) tr b) :
    Ends (repeats body' (f i)) (g tr) (f' b) := by
  generalize hp : repeats body i = p at h
  induction h generalizing i with
  | ret => cases hp
  | cmd => cases hp
  | again hb _ _ ih =>
    cases hp
    rw [hg]
    exact .again (hbody _ _ _ hb) (ih f' hbody rfl)
  | leave hb hk =>
    cases hp
    obtain ⟨rfl, rfl⟩ := ends_ret.mp hk
    rw [List.append_nil, ← List.append_nil (g _)]
    exact .leave (hbody _ _ _ hb) .ret

/-- **Runs of carried-out commands**: where `g` finds each command in the run of the program that carries it
out, it finds a run of `p`. -/
theorem Ends.of_interp {C' : Type} {R' : C' → Type} {f : (c : C) → Prog C' R' (R c)}
    (g : List (Sigma R') → List (Sigma R)) (hnil : g [] = [])
    (hg : ∀ tr₁ tr₂, g (tr₁ ++ tr₂) = g tr₁ ++ g tr₂)
    (hf : ∀ c tr r, Ends (f c) tr r → g tr = [⟨c, r⟩]) {p : Prog C R α} {tr : List (Sigma R')} {a : α}
    (h : Ends (p.interp f) tr a) : Ends p (g tr) a := by
  induction p generalizing tr with
  | ret b =>
    obtain ⟨rfl, rfl⟩ := ends_ret.mp h
    rw [hnil]
    exact .ret
  | cmd c k ih =>
    obtain ⟨tr₁, tr₂, r, rfl, h₁, h₂⟩ := ends_bind.mp h
    rw [hg, hf c tr₁ r h₁]
    exact .cmd (ih r h₂)
  | loop body i k ihb ihk =>
    generalize hp : (Prog.loop body i k).interp f = p at h
    -- on the derivation, a round at a time
    induction h generalizing i with
    | ret => cases hp
    | cmd => cases hp
    | again hb _ _ ih =>
      cases hp
      rw [hg]
      exact .again (ihb _ hb) (ih _ _ ihk rfl)
    | leave hb hk =>
      cases hp
      rw [hg]
      exact .leave (ihb _ hb) (ihk _ hk)

/-! ## Runs that have not ended -/

/-- `p` can have exchanged `tr` so far. -/
inductive Starts : {α : Type} → Prog C R α → List (Sigma R) → Prop
  | nil {α : Type} {p : Prog C R α} : Starts p []
  | cmd {α : Type} {c : C} {k : R c → Prog C R α} {r : R c} {tr : List (Sigma R)} :
      Starts (k r) tr → Starts (.cmd c k) (⟨c, r⟩ :: tr)
  | inside {α β ι : Type} {body : ι → Prog C R (ι ⊕ β)} {i : ι} {k : β → Prog C R α}
      {tr : List (Sigma R)} : Starts (body i) tr → Starts (.loop body i k) tr
  | again {α β ι : Type} {body : ι → Prog C R (ι ⊕ β)} {i j : ι} {k : β → Prog C R α}
      {tr₁ tr₂ : List (Sigma R)} :
      Ends (body i) tr₁ (.inl j) → Starts (.loop body j k) tr₂ → Starts (.loop body i k) (tr₁ ++ tr₂)
  | leave {α β ι : Type} {body : ι → Prog C R (ι ⊕ β)} {i : ι} {b : β} {k : β → Prog C R α}
      {tr₁ tr₂ : List (Sigma R)} :
      Ends (body i) tr₁ (.inr b) → Starts (k b) tr₂ → Starts (.loop body i k) (tr₁ ++ tr₂)

theorem Ends.starts {p : Prog C R α} {tr : List (Sigma R)} {a : α} (h : Ends p tr a) :
    Starts p tr := by
  induction h with
  | ret => exact .nil
  | cmd _ ih => exact .cmd ih
  | again hb _ _ ih => exact .again hb ih
  | leave hb _ _ ih => exact .leave hb ih

/-- Every command of a run that has not ended is one that the program can issue. -/
theorem All.starts {P : C → Prop} {p : Prog C R α} {tr : List (Sigma R)} (hp : p.All P)
    (h : Starts p tr) : ∀ e ∈ tr, P e.1 := by
  induction h with
  | nil => simp
  | cmd _ ih => exact List.forall_mem_cons.mpr ⟨hp.1, ih (hp.2 _)⟩
  | inside _ ih => exact ih (hp.1 _)
  | again hb _ ih => exact List.forall_mem_append.mpr ⟨(hp.1 _).ends hb, ih hp⟩
  | leave hb _ ih => exact List.forall_mem_append.mpr ⟨(hp.1 _).ends hb, ih (hp.2 _)⟩

/-- What has been exchanged so far is of the first program, or of the second after the first. -/
theorem starts_bind {p : Prog C R α} {f : α → Prog C R β} {tr : List (Sigma R)}
    (h : Starts (p.bind f) tr) :
    Starts p tr ∨ ∃ tr₁ tr₂ a, tr = tr₁ ++ tr₂ ∧ Ends p tr₁ a ∧ Starts (f a) tr₂ := by
  generalize hq : p.bind f = q at h
  induction h generalizing p with
  | nil => exact .inl .nil
  | cmd hk ih =>
    cases p with
    | ret a' =>
      simp only [ret_bind] at hq
      exact .inr ⟨[], _, a', rfl, .ret, hq ▸ .cmd hk⟩
    | cmd c' k' =>
      simp only [cmd_bind] at hq
      injection hq with _ hc hk'
      subst hc
      obtain rfl := eq_of_heq hk'
      rcases ih rfl with h | ⟨tr₁, tr₂, a', rfl, h₁, h₂⟩
      · exact .inl (.cmd h)
      · exact .inr ⟨_, tr₂, a', rfl, .cmd h₁, h₂⟩
    | loop body i k' => simp at hq
  | inside hb _ =>
    cases p with
    | ret a' =>
      simp only [ret_bind] at hq
      exact .inr ⟨[], _, a', rfl, .ret, hq ▸ .inside hb⟩
    | cmd c' k' => simp at hq
    | loop body' i' k' =>
      simp only [loop_bind] at hq
      injection hq with _ hβ hι hbody hi hk'
      subst hβ hι
      obtain rfl := eq_of_heq hbody
      obtain rfl := eq_of_heq hi
      exact .inl (.inside hb)
  | @again _ _ _ body i j k tr₁ tr₂ hb hl ih =>
    cases p with
    | ret a' =>
      simp only [ret_bind] at hq
      exact .inr ⟨[], _, a', rfl, .ret, hq ▸ .again hb hl⟩
    | cmd c' k' => simp at hq
    | loop body' i' k' =>
      simp only [loop_bind] at hq
      injection hq with _ hβ hι hbody hi hk'
      subst hβ hι
      obtain rfl := eq_of_heq hbody
      obtain rfl := eq_of_heq hi
      obtain rfl := eq_of_heq hk'
      rcases ih (p := .loop body' j k') rfl with h | ⟨tr₁', tr₂', a', rfl, h₁, h₂⟩
      · exact .inl (.again hb h)
      · exact .inr ⟨_, tr₂', a', (List.append_assoc ..).symm, .again hb h₁, h₂⟩
  | @leave _ _ _ body i b k tr₁ tr₂ hb hk ih =>
    cases p with
    | ret a' =>
      simp only [ret_bind] at hq
      exact .inr ⟨[], _, a', rfl, .ret, hq ▸ .leave hb hk⟩
    | cmd c' k' => simp at hq
    | loop body' i' k' =>
      simp only [loop_bind] at hq
      injection hq with _ hβ hι hbody hi hk'
      subst hβ hι
      obtain rfl := eq_of_heq hbody
      obtain rfl := eq_of_heq hi
      obtain rfl := eq_of_heq hk'
      rcases ih rfl with h | ⟨tr₁', tr₂', a', rfl, h₁, h₂⟩
      · exact .inl (.leave hb h)
      · exact .inr ⟨_, tr₂', a', (List.append_assoc ..).symm, .leave hb h₁, h₂⟩

/-- **Loop rule for runs that have not ended**: they are inside of a round, or have done a last one. -/
theorem Starts.repeats_rule {body : ι → Prog C R (ι ⊕ β)} {J : ι → List (Sigma R) → Prop} {i : ι}
    {tr₀ tr : List (Sigma R)} (h : Starts (repeats body i) tr) (h₀ : J i tr₀)
    (hagain : ∀ i tr₀ tr₁ j, J i tr₀ → Ends (body i) tr₁ (.inl j) → J j (tr₀ ++ tr₁)) :
    ∃ j tr₁ tr₂, tr₀ ++ tr = tr₁ ++ tr₂ ∧ J j tr₁ ∧
      (Starts (body j) tr₂ ∨ ∃ b, Ends (body j) tr₂ (.inr b)) := by
  generalize hp : repeats body i = p at h
  induction h generalizing i tr₀ with
  | nil => exact ⟨i, tr₀, [], rfl, h₀, .inl .nil⟩
  | cmd => cases hp
  | inside hb =>
    cases hp
    exact ⟨i, tr₀, _, rfl, h₀, .inl hb⟩
  | again hb _ ih =>
    cases hp
    rw [← List.append_assoc]
    exact ih (hagain _ _ _ _ h₀ hb) hagain rfl
  | leave hb hk =>
    cases hp
    cases hk with
    | nil => exact ⟨i, tr₀, _, by rw [List.append_nil], h₀, .inr ⟨_, hb⟩⟩

@[simp] theorem starts_ret {a : α} {tr : List (Sigma R)} :
    Starts (.ret a : Prog C R α) tr ↔ tr = [] := by
  constructor
  · intro h
    cases h
    rfl
  · rintro rfl
    exact .nil

theorem starts_cmd {c : C} {k : R c → Prog C R α} {tr : List (Sigma R)} :
    Starts (.cmd c k) tr ↔ tr = [] ∨ ∃ r tr', tr = ⟨c, r⟩ :: tr' ∧ Starts (k r) tr' := by
  constructor
  · intro h
    cases h with
    | nil => exact .inl rfl
    | cmd h => exact .inr ⟨_, _, rfl, h⟩
  · rintro (rfl | ⟨r, tr', rfl, h⟩)
    · exact .nil
    · exact .cmd h

/-- Inversion of a run that has not ended at a command. -/
theorem Starts.perform {c : C} {f : R c → Prog C R β} {tr : List (Sigma R)}
    (h : Starts ((perform c).bind f) tr) :
    tr = [] ∨ ∃ r tr', tr = ⟨c, r⟩ :: tr' ∧ Starts (f r) tr' :=
  starts_cmd.mp h

/-- No run of `p` exchanges more than `n` commands. -/
def Within (n : Nat) (p : Prog C R α) : Prop := ∀ tr, Starts p tr → tr.length ≤ n

theorem within_ret (a : α) : (Prog.ret a : Prog C R α).Within 0 := by
  intro tr h
  obtain rfl := starts_ret.mp h
  exact Nat.le_refl 0

theorem Within.cmd {n : Nat} {c : C} {k : R c → Prog C R α} (h : ∀ r, (k r).Within n) :
    (Prog.cmd c k).Within (n + 1) := by
  intro tr hstarts
  rcases starts_cmd.mp hstarts with rfl | ⟨r, tr', rfl, htail⟩
  · exact Nat.zero_le _
  · exact Nat.succ_le_succ (h r tr' htail)

end Prog

end Conc
