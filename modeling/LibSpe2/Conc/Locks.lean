import LibSpe2.Conc.Phase
import LibSpe2.Conc.Solo
import Mathlib.Data.DFinsupp.WellFounded
import Mathlib.SetTheory.Ordinal.Rank

/-!
# Mutexes that are taken in order

A program is `Orderly` if it takes mutexes in an order without endless ascents, gives back only what it has,
waits for something else only with the mutexes in hand that may be kept there, and is left with what it should
be left with. When all calls are orderly and end with nothing in hand, a thread that waits for a mutex waits,
through the owners, for one that can make a step, or for one that waits for something else.

A program `Settles` if each of its loops is left after some rounds in which only offered answers are given.
When all calls settle as well, nothing goes on for ever: however the threads are scheduled, and whichever of the
offered answers they are given, their calls come to a point after finitely many steps where each has returned or
is held up behind something that is not a mutex.

* `Mutexes` — what a machine's commands do to mutexes, and which answers are offered.
* `Orderly`, `Settles`, and both: `Tidy` — what a program has to be like.
* `Mutexes.HeldUp` — a thread waits for something else, or for a mutex of a thread that is held up.

## Main results

* `Mutexes.someone_moves` — a thread in a call is held up, or some thread can make a step;
* `Mutexes.work_acc` — the calls make finitely many steps;
* `Mutexes.works_off` — when no thread can make a step, all calls have returned but for those held up.
-/

namespace Conc

open Function (update)

variable {C : Type} {R : C → Type} {T σ Λ : Type} {α β ι : Type}

/-! ## What commands do to mutexes -/

/-- What a command does: it takes a mutex, gives it back, does neither, or it may be blocked by something else,
while only certain mutexes are kept in hand; or it is not to be issued at all. -/
inductive MutexOp (Λ : Type) where
  | take (m : Λ)
  | give (m : Λ)
  | other
  | blocks (kept : Λ → Prop)
  | never

/-- The mutexes of a machine, an order on them without endless ascents, and answers one of which every command
that is not blocked can be given in a valid state. -/
structure Mutexes (M : Machine C R T σ) (Λ : Type) [DecidableEq Λ] where
  op : C → MutexOp Λ
  owner : σ → Λ → Option T
  before : Λ → Λ → Prop
  offer : (c : C) → R c → Prop
  valid : σ → Prop
  irrefl : ∀ m, ¬ before m m
  wf : WellFounded fun m m' => before m' m
  take : ∀ {t c m r s s'}, op c = .take m → M.exec t c r s = some s' →
    owner s m = none ∧ owner s' = update (owner s) m (some t)
  give : ∀ {t c m r s s'}, op c = .give m → M.exec t c r s = some s' → owner s' = update (owner s) m none
  other : ∀ {t c r s s'}, op c = .other → M.exec t c r s = some s' → owner s' = owner s
  blocks : ∀ {t c r s s' kept}, op c = .blocks kept → M.exec t c r s = some s' → owner s' = owner s
  keeps : ∀ {t c r s s'}, valid s → M.exec t c r s = some s' → valid s'
  can_take : ∀ {t c m s}, op c = .take m → owner s m = none → ∃ r s', offer c r ∧ M.exec t c r s = some s'
  can_give : ∀ {t c m s}, op c = .give m → owner s m = some t → ∃ r s', offer c r ∧ M.exec t c r s = some s'
  can_other : ∀ {t c s}, valid s → op c = .other → ∃ r s', offer c r ∧ M.exec t c r s = some s'

/-! ## Programs -/

section

variable [DecidableEq Λ]

/-- What is in hand after an operation, if it is in order. -/
def MutexOp.Moves (before : Λ → Λ → Prop) : MutexOp Λ → List Λ → List Λ → Prop
  | .take m, H, H' => (∀ x ∈ H, before x m) ∧ H' = m :: H
  | .give m, H, H' => m ∈ H ∧ H' = H.erase m
  | .other, H, H' => H' = H
  | .blocks kept, H, H' => (∀ m ∈ H, kept m) ∧ H' = H
  | .never, _, _ => False

/-- `p` takes mutexes in order and turns what is in hand from `H` to `H'`. -/
def Orderly (op : C → MutexOp Λ) (before : Λ → Λ → Prop) (H' : List Λ) : {α : Type} → Prog C R α → List Λ → Prop
  | _, .ret _, H => H' = H
  | _, .cmd c k, H => ∃ H₁, (op c).Moves before H H₁ ∧ ∀ r, Orderly op before H' (k r) H₁
  | _, .loop body _ k, H => (∀ j, Orderly op before H (body j) H) ∧ ∀ b, Orderly op before H' (k b) H

namespace Orderly

variable {op : C → MutexOp Λ} {before : Λ → Λ → Prop} {H H₁ H' : List Λ}

/-- **Sequencing.** -/
theorem bind {p : Prog C R α} {f : α → Prog C R β} (hp : Orderly op before H₁ p H)
    (hf : ∀ a, Orderly op before H' (f a) H₁) : Orderly op before H' (p.bind f) H := by
  induction p generalizing H with
  | ret a =>
    obtain rfl : H₁ = H := hp
    exact hf a
  | cmd c k ih =>
    obtain ⟨H₂, hmoves, hk⟩ := hp
    exact ⟨H₂, hmoves, fun r => ih r (hk r) hf⟩
  | loop body i k _ ih => exact ⟨hp.1, fun b => ih b (hp.2 b) hf⟩

end Orderly

end

/-- Only offered answers. -/
def Offered (offer : (c : C) → R c → Prop) (tr : List (Sigma R)) : Prop := ∀ e ∈ tr, offer e.1 e.2

/-- With offered answers only, what `p` returns satisfies `Φ`. -/
def Gives (offer : (c : C) → R c → Prop) (p : Prog C R α) (Φ : α → Prop) : Prop :=
  ∀ tr a, p.Ends tr a → Offered offer tr → Φ a

namespace Gives

variable {offer : (c : C) → R c → Prop}

theorem ret {a : α} {Φ : α → Prop} (h : Φ a) : Gives offer (.ret a : Prog C R α) Φ := by
  intro tr b hends _
  obtain ⟨rfl, rfl⟩ := Prog.ends_ret.mp hends
  exact h

theorem perform {c : C} {f : R c → Prog C R α} {Φ : α → Prop} (h : ∀ r, offer c r → Gives offer (f r) Φ) :
    Gives offer ((Prog.perform c).bind f) Φ := by
  intro tr a hends htr
  obtain ⟨r, tr', rfl, hf⟩ := hends.perform
  obtain ⟨hr, htr'⟩ := List.forall_mem_cons.mp htr
  exact h r hr tr' a hf htr'

/-- **Sequencing.** -/
theorem bind {p : Prog C R α} {f : α → Prog C R β} {Ψ : α → Prop} {Φ : β → Prop} (hp : Gives offer p Ψ)
    (hf : ∀ a, Ψ a → Gives offer (f a) Φ) : Gives offer (p.bind f) Φ := by
  intro tr b hends htr
  obtain ⟨tr₁, tr₂, a, rfl, h₁, h₂⟩ := Prog.ends_bind.mp hends
  obtain ⟨htr₁, htr₂⟩ := List.forall_mem_append.mp htr
  exact hf a (hp tr₁ a h₁ htr₁) tr₂ b h₂ htr₂

theorem any {p : Prog C R α} : Gives offer p fun _ => True := fun _ _ _ _ => trivial

end Gives

/-- Rounds with offered answers bring the loop nearer to its end. -/
def Closing (offer : (c : C) → R c → Prop) (body : ι → Prog C R (ι ⊕ β)) : Prop :=
  ∃ nearer : ι → ι → Prop, WellFounded nearer ∧
    ∀ i, Gives offer (body i) fun x => ∀ j, x = .inl j → nearer j i

/-- A loop that offered answers end at once. -/
theorem Closing.once {offer : (c : C) → R c → Prop} {body : ι → Prog C R (ι ⊕ β)}
    (h : ∀ i, Gives offer (body i) fun x => x.isRight = true) : Closing offer body := by
  refine ⟨fun _ _ => False, ⟨fun i => .intro i fun _ => False.elim⟩, fun i tr x hends htr j hj => ?_⟩
  subst hj
  exact Bool.false_ne_true (h i tr _ hends htr)

/-- Each loop of `p` is left after some rounds in which only offered answers are given. -/
def Settles (offer : (c : C) → R c → Prop) : {α : Type} → Prog C R α → Prop
  | _, .ret _ => True
  | _, .cmd _ k => ∀ r, Settles offer (k r)
  | _, .loop body _ k => (∀ j, Settles offer (body j)) ∧ (∀ b, Settles offer (k b)) ∧ Closing offer body

namespace Settles

variable {offer : (c : C) → R c → Prop}

/-- **Sequencing.** -/
theorem bind {p : Prog C R α} {f : α → Prog C R β} (hp : Settles offer p) (hf : ∀ a, Settles offer (f a)) :
    Settles offer (p.bind f) := by
  induction p with
  | ret a => exact hf a
  | cmd c k ih => exact fun r => ih r (hp r) hf
  | loop body i k _ ih => exact ⟨hp.1, fun b => ih b (hp.2.1 b) hf, hp.2.2⟩

/-- What is left of a loop after it was unrolled. -/
theorem unroll {body : ι → Prog C R (ι ⊕ β)} {i : ι} {k : β → Prog C R α} (h : Settles offer (.loop body i k)) :
    Settles offer ((body i).bind (Prog.next body k)) := by
  refine (h.1 i).bind fun x => ?_
  cases x with
  | inl j => exact h
  | inr b => exact h.2.1 b

end Settles

/-- `p` is orderly and settles. -/
structure Tidy [DecidableEq Λ] (op : C → MutexOp Λ) (before : Λ → Λ → Prop) (offer : (c : C) → R c → Prop)
    (H' : List Λ) (p : Prog C R α) (H : List Λ) : Prop where
  orderly : Orderly op before H' p H
  settles : Settles offer p

namespace Tidy

variable [DecidableEq Λ] {op : C → MutexOp Λ} {before : Λ → Λ → Prop} {offer : (c : C) → R c → Prop}
  {H H₁ H' : List Λ}

theorem ret {a : α} : Tidy op before offer H (.ret a : Prog C R α) H := ⟨rfl, trivial⟩

/-- **Sequencing.** -/
theorem bind {p : Prog C R α} {f : α → Prog C R β} (hp : Tidy op before offer H₁ p H)
    (hf : ∀ a, Tidy op before offer H' (f a) H₁) : Tidy op before offer H' (p.bind f) H :=
  ⟨hp.orderly.bind fun a => (hf a).orderly, hp.settles.bind fun a => (hf a).settles⟩

/-- A command at the end. -/
theorem last {c : C} (h : Tidy op before offer H' ((Prog.perform c : Prog C R (R c)).bind .ret) H) :
    Tidy op before offer H' (Prog.perform c : Prog C R (R c)) H := h

/-- A mutex is taken that comes after those in hand. -/
theorem take {c : C} {m : Λ} {f : R c → Prog C R α} (hop : op c = .take m) (hH : ∀ x ∈ H, before x m)
    (hf : ∀ r, Tidy op before offer H' (f r) (m :: H)) : Tidy op before offer H' ((Prog.perform c).bind f) H := by
  refine ⟨⟨m :: H, ?_, fun r => (hf r).orderly⟩, fun r => (hf r).settles⟩
  rw [hop]
  exact ⟨hH, rfl⟩

/-- The mutex that was taken last is given back. -/
theorem give {c : C} {m : Λ} {f : R c → Prog C R α} (hop : op c = .give m)
    (hf : ∀ r, Tidy op before offer H' (f r) H) : Tidy op before offer H' ((Prog.perform c).bind f) (m :: H) := by
  refine ⟨⟨H, ?_, fun r => (hf r).orderly⟩, fun r => (hf r).settles⟩
  rw [hop]
  exact ⟨List.mem_cons_self, (List.erase_cons_head ..).symm⟩

theorem other {c : C} {f : R c → Prog C R α} (hop : op c = .other) (hf : ∀ r, Tidy op before offer H' (f r) H) :
    Tidy op before offer H' ((Prog.perform c).bind f) H := by
  refine ⟨⟨H, ?_, fun r => (hf r).orderly⟩, fun r => (hf r).settles⟩
  rw [hop]
  exact rfl

/-- Something else is waited for. -/
theorem blocks {c : C} {kept : Λ → Prop} {f : R c → Prog C R α} (hop : op c = .blocks kept)
    (hH : ∀ m ∈ H, kept m) (hf : ∀ r, Tidy op before offer H' (f r) H) :
    Tidy op before offer H' ((Prog.perform c).bind f) H := by
  refine ⟨⟨H, ?_, fun r => (hf r).orderly⟩, fun r => (hf r).settles⟩
  rw [hop]
  exact ⟨hH, rfl⟩

theorem repeats {body : ι → Prog C R (ι ⊕ β)} {i : ι} (hb : ∀ j, Tidy op before offer H (body j) H)
    (h : Closing offer body) : Tidy op before offer H (Prog.repeats body i) H :=
  ⟨⟨fun j => (hb j).orderly, fun _ => rfl⟩, fun j => (hb j).settles, fun _ => trivial, h⟩

end Tidy

/-! ## Working off a call -/

/-- What is left of a call after a step with an offered answer. -/
inductive Ahead (offer : (c : C) → R c → Prop) : Option (Prog C R Unit) → Option (Prog C R Unit) → Prop
  | act {c : C} {k : R c → Prog C R Unit} {r : R c} (h : offer c r) : Ahead offer (some (k r)) (some (.cmd c k))
  | unroll {ι β : Type} {body : ι → Prog C R (ι ⊕ β)} {i : ι} {k : β → Prog C R Unit} :
      Ahead offer (some ((body i).bind (Prog.next body k))) (some (.loop body i k))
  | finish : Ahead offer none (some (.ret ()))

theorem Ahead.ne_none {offer : (c : C) → R c → Prop} {p q : Option (Prog C R Unit)} (h : Ahead offer q p) :
    p ≠ none := by
  cases h <;> exact Option.some_ne_none _

theorem Ahead.acc_none {offer : (c : C) → R c → Prop} : Acc (Ahead offer) none := .intro _ nofun

/-- **Nothing goes on for ever**: a program that settles, with offered answers only. -/
theorem Settles.acc {offer : (c : C) → R c → Prop} {p : Prog C R α} (hp : Settles offer p)
    {f : α → Prog C R Unit} (hf : ∀ tr a, p.Ends tr a → Offered offer tr → Acc (Ahead offer) (some (f a))) :
    Acc (Ahead offer) (some (p.bind f)) := by
  induction p with
  | ret a => exact hf [] a .ret nofun
  | cmd c k ih =>
    refine .intro _ fun q hq => ?_
    cases hq with
    | @act _ _ r hr =>
      refine ih r (hp r) fun tr a hends htr => hf _ a (.cmd hends) ?_
      exact List.forall_mem_cons.mpr ⟨hr, htr⟩
  | loop body i k ihb ihk =>
    obtain ⟨nearer, hwf, hnearer⟩ := hp.2.2
    induction i using hwf.induction with
    | _ i ih =>
    refine .intro _ fun q hq => ?_
    cases hq with
    | unroll =>
      refine ihb i (hp.1 i) fun tr₁ x hends htr₁ => ?_
      cases x with
      | inl j =>
        refine ih j (hnearer i tr₁ _ hends htr₁ j rfl) hp fun tr₂ a hends₂ htr₂ => hf _ a (.again hends hends₂) ?_
        exact List.forall_mem_append.mpr ⟨htr₁, htr₂⟩
      | inr b =>
        refine ihk b (hp.2.1 b) fun tr₂ a hends₂ htr₂ => hf _ a (.leave hends hends₂) ?_
        exact List.forall_mem_append.mpr ⟨htr₁, htr₂⟩

theorem Settles.acc_call {offer : (c : C) → R c → Prop} {p : Prog C R Unit} (hp : Settles offer p) :
    Acc (Ahead offer) (some p) := by
  rw [← Prog.bind_ret p]
  refine hp.acc fun tr a _ _ => .intro _ fun q hq => ?_
  cases hq with
  | finish => exact Ahead.acc_none

/-- The rank of what is accessible. -/
noncomputable def height {X : Type*} (r : X → X → Prop) (x : X) : Ordinal :=
  open Classical in if h : Acc r x then h.rank else 0

theorem height_lt {X : Type*} {r : X → X → Prop} {x y : X} (hx : Acc r x) (hr : r y x) :
    height r y < height r x := by
  rw [height, height, dif_pos hx, dif_pos (hx.inv hr)]
  exact hx.rank_lt_of_rel hr

/-- **Finitely many of them**: one goes ahead at a time. -/
theorem acc_pointwise {X : Type*} {r : X → X → Prop} (F : Finset T) (th : T → X)
    (hth : ∀ t ∈ F, Acc r (th t)) : Acc (fun th' th => ∃ t ∈ F, r (th' t) (th t) ∧ ∀ u, u ≠ t → th' u = th u) th := by
  have hwf : WellFounded (InvImage (· < ·) fun (th : T → X) (t : F) => height r (th t)) :=
    InvImage.wf _ wellFounded_lt
  induction th using hwf.induction with
  | _ th ih =>
    refine .intro _ fun th' ⟨t, ht, hr, hsame⟩ => ih th' ?_ fun u hu => ?_
    · -- one rank is smaller, the others are the same
      have hle (u : F) : height r (th' u) ≤ height r (th u) := by
        by_cases hu : (u : T) = t
        · rw [hu]
          exact (height_lt (hth t ht) hr).le
        · rw [hsame u hu]
      exact Pi.lt_def.mpr ⟨hle, ⟨t, ht⟩, height_lt (hth t ht) hr⟩
    · by_cases hut : u = t
      · exact hut ▸ (hth t ht).inv hr
      · rw [hsame u hut]
        exact hth u hu

/-! ## Systems -/

/-- A step of a thread in its call, with an offered answer. -/
def System.Work [DecidableEq T] (S : System C R T σ) (offer : (c : C) → R c → Prop) (cfg cfg' : Config C R T σ) :
    Prop :=
  S.Step (fun _ c r _ => offer c r) cfg cfg' ∧
    ∃ t, Ahead offer (cfg'.threads t) (cfg.threads t) ∧ ∀ u, u ≠ t → cfg'.threads u = cfg.threads u

section

variable [DecidableEq T] {S : System C R T σ} {ok : T → (c : C) → R c → σ → Prop} {cfg cfg' : Config C R T σ}
  {offer : (c : C) → R c → Prop}

/-- A thread that makes a step is in a call. -/
theorem System.Work.active (h : S.Work offer cfg cfg') :
    ∃ t, cfg.threads t ≠ none ∧ Ahead offer (cfg'.threads t) (cfg.threads t) ∧
      ∀ u, u ≠ t → cfg'.threads u = cfg.threads u := by
  obtain ⟨-, t, hahead, hsame⟩ := h
  exact ⟨t, hahead.ne_none, hahead, hsame⟩

/-- Where all threads wait for an answer that is not offered or not given, none makes a step. -/
theorem not_work_of_stuck (h : ∀ t, cfg.threads t = none ∨ ∃ c k, cfg.threads t = some (.cmd c k) ∧
    ∀ r, offer c r → S.exec t c r cfg.shared = none) : ¬ S.Work offer cfg cfg' := by
  rintro ⟨hstep, t, hahead, hsame⟩
  have hcmd {u : T} {p : Prog C R Unit} (hu : cfg.threads u = some p) : ∃ c k, p = .cmd c k ∧
      ∀ r, offer c r → S.exec u c r cfg.shared = none := by
    obtain hnone | ⟨c, k, hc, hstuck⟩ := h u
    · rw [hnone] at hu
      cases hu
    · exact ⟨c, k, Option.some.inj (hu.symm.trans hc), hstuck⟩
  cases hstep with
  | @call s th u c hu =>
    -- a new call is no step of a thread in its call
    have hut : u ≠ t := fun heq => hahead.ne_none (heq ▸ hu)
    have hcall := hsame u hut
    simp [hu] at hcall
  | @act s s' th u c k r hu hoff he =>
    obtain ⟨c', k', heq, hstuck⟩ := hcmd hu
    cases heq
    rw [hstuck r hoff] at he
    cases he
  | unroll hu =>
    obtain ⟨c', k', heq, -⟩ := hcmd hu
    cases heq
  | finish hu =>
    obtain ⟨c', k', heq, -⟩ := hcmd hu
    cases heq

theorem System.Work.reach (hr : S.Reachable cfg) (h : S.Work offer cfg cfg') : S.Reachable cfg' := by
  refine hr.step ?_
  cases h.1 with
  | call c ht => exact .call c ht
  | act ht _ hs => exact .act ht trivial hs
  | unroll ht => exact .unroll ht
  | finish ht => exact .finish ht

/-- Only finitely many threads are in a call. -/
theorem System.Reach.active_finite (hr : S.Reach ok cfg) : {t | cfg.threads t ≠ none}.Finite := by
  induction hr with
  | init => simp
  | @step cfg cfg' _ hstep ih =>
    have hone (th : T → Option (Prog C R Unit)) (t : T) (p : Option (Prog C R Unit))
        (hth : {t | th t ≠ none}.Finite) : {u | update th t p u ≠ none}.Finite := by
      refine (hth.insert t).subset fun u hu => ?_
      by_cases hut : u = t
      · exact .inl hut
      · exact .inr (by simpa [hut] using hu)
    cases hstep <;> exact hone _ _ _ ih

/-- What is left of calls that settle does so. -/
theorem System.Reach.settles (hcode : ∀ t c, Settles offer (S.code t c)) (hr : S.Reach ok cfg) {t : T}
    {p : Prog C R Unit} (ht : cfg.threads t = some p) : Settles offer p := by
  induction hr generalizing t p with
  | init => cases ht
  | @step cfg cfg' _ hstep ih =>
    have hone {th : T → Option (Prog C R Unit)} {u : T} {q : Option (Prog C R Unit)}
        (hq : ∀ p, q = some p → Settles offer p) (hth : ∀ t p, th t = some p → Settles offer p)
        (ht : update th u q t = some p) : Settles offer p := by
      by_cases htu : t = u
      · subst htu
        exact hq p (by simpa using ht)
      · exact hth t p (by simpa [htu] using ht)
    cases hstep with
    | call c h =>
      refine hone ?_ (fun t p => ih) ht
      rintro p ⟨⟩
      exact hcode _ c
    | @act s s' th u c k r h _ hs =>
      refine hone ?_ (fun t p => ih) ht
      rintro p ⟨⟩
      exact ih h r
    | unroll h =>
      refine hone ?_ (fun t p => ih) ht
      rintro p ⟨⟩
      exact (ih h).unroll
    | finish h =>
      refine hone ?_ (fun t p => ih) ht
      rintro p ⟨⟩

end

namespace Mutexes

variable [DecidableEq Λ] [DecidableEq T] {M : Machine C R T σ} (L : Mutexes M Λ)

/-- When a command is in order. -/
def Due (t : T) (s : σ) : MutexOp Λ → Prop
  | .take m => ∀ x, L.owner s x = some t → L.before x m
  | .give m => L.owner s m = some t
  | .other => True
  | .blocks kept => ∀ m, L.owner s m = some t → kept m
  | .never => False

/-- The threads have in hand what they own. -/
def proto : Proto C T σ (List Λ) where
  idle := []
  inv γ s := (∀ m t, L.owner s m = some t ↔ m ∈ γ t) ∧ ∀ t, (γ t).Nodup
  pre t c s := L.Due t s (L.op c)

variable {L} {ok : T → (c : C) → R c → σ → Prop} {t : T} {H H' : List Λ}

/-- Orderly programs keep to the protocol. -/
theorem orderly_safe {p : Prog C R α} (hp : Orderly L.op L.before H' p H) :
    L.proto.Safe M ok t p H fun _ g => g = H' := by
  induction p generalizing H H' with
  | ret a => exact hp.symm
  | loop body i k ihb ihk =>
    refine ⟨fun _ g => g = H, rfl, fun j g hg => ?_⟩
    subst hg
    refine (ihb j (hp.1 j)).mono fun x g' hg' => ?_
    subst hg'
    cases x with
    | inl j' => rfl
    | inr b => exact ihk b (hp.2 b)
  | cmd c k ih =>
    obtain ⟨H₁, hmoves, hk⟩ := hp
    rintro γ s ⟨hown, hnodup⟩ rfl
    change L.Due t s (L.op c) ∧ _
    have hnext {r : R c} {s' : σ} (hinv : L.proto.inv (update γ t H₁) s') :
        ∃ g', L.proto.inv (update γ t g') s' ∧ L.proto.Safe M ok t (k r) g' fun _ g => g = H' :=
      ⟨H₁, hinv, ih r (hk r)⟩
    cases hop : L.op c with
    | take m =>
      rw [hop] at hmoves
      obtain ⟨hbefore, rfl⟩ := hmoves
      refine ⟨fun x hx => hbefore x ((hown x t).mp hx), fun r s' _ he => hnext ⟨fun m' t' => ?_, fun t' => ?_⟩⟩
      · obtain ⟨hfree, hs'⟩ := L.take hop he
        rw [hs']
        by_cases hm : m' = m
        · subst hm
          by_cases ht : t' = t
          · simp [ht]
          · have hother : m' ∉ γ t' := fun hmem => by simp [(hown m' t').mpr hmem] at hfree
            simp [ht, hother, Ne.symm ht]
        · by_cases ht : t' = t
          · subst ht
            simp [hm, hown]
          · simp [hm, ht, hown]
      · by_cases ht : t' = t
        · subst ht
          rw [Function.update_self]
          exact List.nodup_cons.mpr ⟨fun hmem => L.irrefl m (hbefore m hmem), hnodup t'⟩
        · simpa [ht] using hnodup t'
    | give m =>
      rw [hop] at hmoves
      obtain ⟨hmem, rfl⟩ := hmoves
      refine ⟨(hown m t).mpr hmem, fun r s' _ he => hnext ⟨fun m' t' => ?_, fun t' => ?_⟩⟩
      · rw [L.give hop he]
        by_cases ht : t' = t
        · subst ht
          rw [Function.update_self, (hnodup t').mem_erase_iff]
          by_cases hm : m' = m <;> simp [hm, hown]
        · by_cases hm : m' = m
          · subst hm
            have hother : m' ∉ γ t' := fun h => by
              have htt := ((hown m' t').mpr h).symm.trans ((hown m' t).mpr hmem)
              exact ht (Option.some.inj htt)
            simp [ht, hother]
          · simp [hm, ht, hown]
      · by_cases ht : t' = t
        · subst ht
          rw [Function.update_self]
          exact (hnodup t').erase m
        · simpa [ht] using hnodup t'
    | other =>
      rw [hop] at hmoves
      obtain rfl : H₁ = γ t := hmoves
      refine ⟨trivial, fun r s' _ he => hnext ?_⟩
      rw [Function.update_eq_self]
      refine ⟨?_, hnodup⟩
      rw [L.other hop he]
      exact hown
    | blocks kept =>
      rw [hop] at hmoves
      obtain ⟨hkept, rfl⟩ := hmoves
      refine ⟨fun m hm => hkept m ((hown m t).mp hm), fun r s' _ he => hnext ?_⟩
      rw [Function.update_eq_self]
      refine ⟨?_, hnodup⟩
      rw [L.blocks hop he]
      exact hown
    | never =>
      rw [hop] at hmoves
      exact hmoves.elim

/-! ## Results -/

variable {S : System C R T σ} (L : Mutexes S.toMachine Λ) {cfg : Config C R T σ}
  (hinit : ∀ s, S.init s → ∀ m, L.owner s m = none) (hvalid : ∀ s, S.init s → L.valid s)
  (hcode : ∀ t c, Tidy L.op L.before L.offer [] (S.code t c) [])

include hinit hcode

theorem proto_reach (hr : S.Reach ok cfg) :
    ∃ γ, L.proto.inv γ cfg.shared ∧ ∀ t, Proto.At S ok L.proto t (γ t) (cfg.threads t) := by
  refine Proto.reach (P := L.proto) (fun s hs => ⟨fun m t => ?_, fun t => List.nodup_nil⟩)
    (fun t c => orderly_safe (hcode t c).orderly) hr
  simp [hinit s hs m, proto]

/-- A thread that is in no call owns nothing. -/
theorem owner_active (hr : S.Reach ok cfg) {m : Λ} {t : T} (hm : L.owner cfg.shared m = some t) :
    cfg.threads t ≠ none := by
  obtain ⟨γ, ⟨hown, -⟩, hat⟩ := L.proto_reach hinit hcode hr
  intro ht
  have hidle : γ t = L.proto.idle := by simpa [Proto.At, ht] using hat t
  rw [show L.proto.idle = [] from rfl] at hidle
  simpa [hidle] using (hown m t).mp hm

/-- What a thread is about to do is in order. -/
theorem due_reach (hr : S.Reach ok cfg) {t : T} {c : C} {k : R c → Prog C R Unit}
    (ht : cfg.threads t = some (.cmd c k)) : L.Due t cfg.shared (L.op c) := by
  obtain ⟨γ, hi, hat⟩ := L.proto_reach hinit hcode hr
  have hsafe := hat t
  simp only [ht, Proto.At] at hsafe
  exact (hsafe γ _ hi rfl).1

/-- The thread waits for something that is not a mutex. -/
def Parked (t : T) (cfg : Config C R T σ) : Prop :=
  ∃ c k kept, cfg.threads t = some (.cmd c k) ∧ L.op c = .blocks kept

/-- The thread waits for a mutex that `u` owns. -/
def WaitsFor (t : T) (m : Λ) (u : T) (cfg : Config C R T σ) : Prop :=
  (∃ c k, cfg.threads t = some (.cmd c k) ∧ L.op c = .take m) ∧ L.owner cfg.shared m = some u

/-- What one waits for comes after all one owns. -/
theorem before_of_waitsFor (hr : S.Reach ok cfg) {m m' : Λ} {t u : T} (h : L.WaitsFor t m u cfg)
    (hm' : L.owner cfg.shared m' = some t) : L.before m' m := by
  obtain ⟨⟨c, k, hc, hop⟩, -⟩ := h
  have hdue := L.due_reach hinit hcode hr hc
  rw [hop] at hdue
  exact hdue m' hm'

/-- What a parked thread owns may be kept. -/
theorem kept_of_parked (hr : S.Reach ok cfg) {t : T} {c : C} {k : R c → Prog C R Unit} {kept : Λ → Prop}
    (ht : cfg.threads t = some (.cmd c k)) (hop : L.op c = .blocks kept) {m : Λ}
    (hm : L.owner cfg.shared m = some t) : kept m := by
  have hdue := L.due_reach hinit hcode hr ht
  rw [hop] at hdue
  exact hdue m hm

/-- The thread waits for something else, or for a mutex of a thread that is held up. -/
inductive HeldUp (cfg : Config C R T σ) : T → Prop
  | parked {t : T} (h : L.Parked t cfg) : HeldUp cfg t
  | waits {t u : T} {m : Λ} (h : L.WaitsFor t m u cfg) (hu : HeldUp cfg u) : HeldUp cfg t

include hvalid

/-- **Nobody waits in a circle**: where a thread is in a call and not held up, some thread can make a step of its
call. -/
theorem someone_moves (hr : S.Reachable cfg) {t : T} (ht : cfg.threads t ≠ none) (hup : ¬ L.HeldUp cfg t) :
    ∃ cfg', S.Work L.offer cfg cfg' := by
  obtain ⟨s, th⟩ := cfg
  have hval : L.valid s := hr.invariant (I := L.valid) hvalid fun _ _ _ _ _ hv _ he => L.keeps hv he
  have hact {t : T} {c : C} {k : R c → Prog C R Unit} (hc : th t = some (.cmd c k))
      (hexec : ∃ r s', L.offer c r ∧ S.exec t c r s = some s') : ∃ cfg', S.Work L.offer ⟨s, th⟩ cfg' := by
    obtain ⟨r, s', hoff, he⟩ := hexec
    refine ⟨_, .act hc hoff he, t, ?_, fun u hu => Function.update_of_ne hu ..⟩
    simp only [Function.update_self, hc]
    exact .act hoff
  -- a thread that can go on, is parked, or waits for a mutex
  have hgo (t : T) (ht : th t ≠ none) : (∃ cfg', S.Work L.offer ⟨s, th⟩ cfg') ∨ L.Parked t ⟨s, th⟩ ∨
      ∃ m u, L.WaitsFor t m u ⟨s, th⟩ := by
    obtain ⟨p, hp⟩ := Option.ne_none_iff_exists'.mp ht
    cases p with
    | ret a =>
      refine .inl ⟨_, .finish hp, t, ?_, fun u hu => Function.update_of_ne hu ..⟩
      simp only [Function.update_self, hp]
      exact .finish
    | loop body i k =>
      refine .inl ⟨_, .unroll hp, t, ?_, fun u hu => Function.update_of_ne hu ..⟩
      simp only [Function.update_self, hp]
      exact .unroll
    | cmd c k =>
      have hdue := L.due_reach hinit hcode hr hp
      cases hop : L.op c with
      | take m =>
        cases hm : L.owner s m with
        | none => exact .inl (hact hp (L.can_take hop hm))
        | some u => exact .inr (.inr ⟨m, u, ⟨c, k, hp, hop⟩, hm⟩)
      | give m =>
        rw [hop] at hdue
        exact .inl (hact hp (L.can_give hop hdue))
      | other => exact .inl (hact hp (L.can_other hval hop))
      | blocks kept => exact .inr (.inl ⟨c, k, kept, hp, hop⟩)
      | never =>
        rw [hop] at hdue
        exact hdue.elim
  -- the owner of a mutex can go on, is parked, or waits for a later one
  have howner (m : Λ) : ∀ u, L.owner s m = some u → (∃ cfg', S.Work L.offer ⟨s, th⟩ cfg') ∨ L.HeldUp ⟨s, th⟩ u := by
    induction m using L.wf.induction with
    | _ m ih =>
      intro u hu
      rcases hgo u (L.owner_active hinit hcode hr hu) with hgo | hpark | ⟨m', v, hwait⟩
      · exact .inl hgo
      · exact .inr (.parked hpark)
      · have hbefore : L.before m m' := L.before_of_waitsFor hinit hcode hr hwait hu
        exact (ih m' hbefore v hwait.2).imp_right (.waits hwait)
  rcases hgo t ht with hgo | hpark | ⟨m, u, hwait⟩
  · exact hgo
  · exact absurd (.parked hpark) hup
  · exact (howner m u hwait.2).resolve_right fun hu => hup (.waits hwait hu)

omit hinit hvalid in
/-- **Nothing goes on for ever**: whatever the schedule and the offered answers. -/
theorem work_acc (hr : S.Reachable cfg) : Acc (fun b a => S.Work L.offer a b) cfg := by
  have hfin := hr.active_finite
  have hacc : ∀ t ∈ hfin.toFinset, Acc (Ahead L.offer) (cfg.threads t) := by
    intro t _
    cases hp : cfg.threads t with
    | none => exact Ahead.acc_none
    | some p => exact (hr.settles (fun t c => (hcode t c).settles) hp).acc_call
  have hactive : ∀ t, cfg.threads t ≠ none → t ∈ hfin.toFinset := fun t ht => hfin.mem_toFinset.mpr ht
  generalize hfin.toFinset = F at hacc hactive
  have hF := acc_pointwise F cfg.threads hacc
  clear hfin hacc
  generalize hth : cfg.threads = th at hF
  induction hF generalizing cfg with
  | intro th _ ih =>
    subst hth
    refine .intro _ fun cfg₁ hwork => ?_
    obtain ⟨u, hu, hahead, hsame⟩ := hwork.active
    -- the threads in a call are among `F` still
    have hactive₁ : ∀ t, cfg₁.threads t ≠ none → t ∈ F := by
      intro v hv
      by_cases hvu : v = u
      · exact hvu ▸ hactive u hu
      · exact hactive v (hsame v hvu ▸ hv)
    exact ih cfg₁.threads ⟨u, hactive u hu, hahead, hsame⟩ (hwork.reach hr) hactive₁ rfl

/-- **Every configuration is worked off**: when no thread can make a step of its call, all calls have returned but
for those held up, and only these own mutexes. -/
theorem works_off (hr : S.Reachable cfg) (hend : ∀ cfg', ¬ S.Work L.offer cfg cfg') :
    (∀ t, cfg.threads t = none ∨ L.HeldUp cfg t) ∧ ∀ m t, L.owner cfg.shared m = some t → L.HeldUp cfg t := by
  have hup : ∀ t, cfg.threads t ≠ none → L.HeldUp cfg t := by
    intro t ht
    by_contra hup
    obtain ⟨cfg', hwork⟩ := L.someone_moves hinit hvalid hcode hr ht hup
    exact hend cfg' hwork
  constructor
  · intro t
    by_cases ht : cfg.threads t = none
    · exact .inl ht
    · exact .inr (hup t ht)
  · exact fun m t hm => hup t (L.owner_active hinit hcode hr hm)

end Mutexes

end Conc
