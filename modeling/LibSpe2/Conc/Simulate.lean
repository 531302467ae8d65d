import LibSpe2.Conc.Solo

/-!
# Running a program

`Machine.run` runs a program against a machine, with an oracle that answers each command; loops go round
at most `fuel` times. What it computes is a run (`isRun_run`), so a run with some property can be found
by evaluation. `System.runMoves` does the same for a system and a schedule of its threads
(`exists_moves`).
-/

namespace Conc

variable {C : Type} {R : C → Type} {T σ : Type} {α β ι : Type}

/-- A result, the state it was reached in and the exchange that led there. -/
abbrev Finished (R : C → Type) (σ α : Type) := List (Sigma R) × α × σ

/-- Go round at most `fuel` times, each round being `body` and the rest `k`. -/
def rounds (body : ι → σ → Option (Finished R σ (ι ⊕ β))) (k : β → σ → Option (Finished R σ α)) :
    Nat → ι → σ → Option (Finished R σ α)
  | 0, _, _ => none
  | fuel + 1, i, s => (body i s).bind fun x =>
    (x.2.1.elim (fun j => rounds body k fuel j x.2.2) fun b => k b x.2.2).map
      fun y => (x.1 ++ y.1, y.2)

/-- Run a program of thread `t`, the commands being answered by `oracle`. -/
def Machine.run (M : Machine C R T σ) (t : T) (oracle : (c : C) → σ → R c) (fuel : Nat) :
    {α : Type} → Prog C R α → σ → Option (Finished R σ α)
  | _, .ret a, s => some ([], a, s)
  | _, .cmd c k, s => (M.exec t c (oracle c s) s).bind fun s₁ =>
    (M.run t oracle fuel (k (oracle c s)) s₁).map fun x => (⟨c, oracle c s⟩ :: x.1, x.2)
  | _, .loop body i k, s =>
    rounds (fun j => M.run t oracle fuel (body j)) (fun b => M.run t oracle fuel (k b)) fuel i s

variable {M : Machine C R T σ} {t : T} {oracle : (c : C) → σ → R c} {fuel : Nat} {s s' : σ}
  {tr : List (Sigma R)} {a : α}

/-- The outcome is that of a run. -/
def IsRun (M : Machine C R T σ) (t : T) (p : Prog C R α) (s : σ) (x : Finished R σ α) : Prop :=
  p.Ends x.1 x.2.1 ∧ M.play t x.1 s = some x.2.2

theorem isRun_rounds {body : ι → Prog C R (ι ⊕ β)} {k : β → Prog C R α}
    (hb : ∀ j s x, M.run t oracle fuel (body j) s = some x → IsRun M t (body j) s x)
    (hk : ∀ b s x, M.run t oracle fuel (k b) s = some x → IsRun M t (k b) s x) {n : Nat} {i : ι}
    {x : Finished R σ α} (h : rounds (fun j => M.run t oracle fuel (body j))
      (fun b => M.run t oracle fuel (k b)) n i s = some x) : IsRun M t (.loop body i k) s x := by
  induction n generalizing i s x with
  | zero => cases h
  | succ n ih =>
    obtain ⟨⟨tr₁, y, s₁⟩, h₁, h⟩ := Option.bind_eq_some_iff.mp h
    obtain ⟨⟨tr₂, a, s₂⟩, h₂, rfl⟩ := Option.map_eq_some_iff.mp h
    obtain ⟨he₁, hp₁⟩ := hb i s _ h₁
    have hplay {s₂' : σ} (hp₂ : M.play t tr₂ s₁ = some s₂') :
        M.play t (tr₁ ++ tr₂) s = some s₂' := by
      rw [Machine.play_append, hp₁]
      exact hp₂
    cases y with
    | inl j =>
      obtain ⟨he₂, hp₂⟩ := ih h₂
      exact ⟨.again he₁ he₂, hplay hp₂⟩
    | inr b =>
      obtain ⟨he₂, hp₂⟩ := hk b s₁ _ h₂
      exact ⟨.leave he₁ he₂, hplay hp₂⟩

/-- What `run` computes is a run. -/
theorem isRun_run {p : Prog C R α} {x : Finished R σ α} (h : M.run t oracle fuel p s = some x) :
    IsRun M t p s x := by
  induction p generalizing s with
  | ret a =>
    obtain rfl := Option.some.inj h
    exact ⟨.ret, rfl⟩
  | cmd c k ih =>
    obtain ⟨s₁, h₁, h⟩ := Option.bind_eq_some_iff.mp h
    obtain ⟨⟨tr, a, s₂⟩, h₂, rfl⟩ := Option.map_eq_some_iff.mp h
    obtain ⟨he, hp⟩ := ih _ h₂
    refine ⟨.cmd he, ?_⟩
    rw [Machine.play_cons, h₁]
    exact hp
  | loop body i k ihb ihk =>
    exact isRun_rounds (fun j s x hx => ihb j hx) (fun b s x hx => ihk b hx) h

/-- A run with a property, found by evaluation. -/
theorem exists_run {p : Prog C R α} {P : α → σ → Bool}
    (h : ((M.run t oracle fuel p s).any fun x => P x.2.1 x.2.2) = true) :
    ∃ tr a s', p.Ends tr a ∧ M.play t tr s = some s' ∧ P a s' = true := by
  cases hx : M.run t oracle fuel p s with
  | none =>
    rw [hx] at h
    cases h
  | some x =>
    rw [hx] at h
    exact ⟨x.1, x.2.1, x.2.2, (isRun_run hx).1, (isRun_run hx).2, h⟩

/-! ## Schedules -/

/-- What happens next in a run of a system: a thread makes a call, or goes on with the one it is in. -/
inductive Move (T Call : Type) where
  | call (t : T) (c : Call)
  | go (t : T)

/-- Thread `t` makes a call and goes on for `n` steps. -/
def Move.calls {T Call : Type} (t : T) (c : Call) (n : Nat) : List (Move T Call) :=
  .call t c :: List.replicate n (.go t)

namespace System

variable [DecidableEq T] (S : System C R T σ) (ok : T → (c : C) → R c → σ → Prop)
  [∀ t c r s, Decidable (ok t c r s)] (answer : (c : C) → σ → R c)

/-- One step of thread `t`, its next command being answered by `answer`. -/
def goOn (t : T) (cfg : Config C R T σ) : Prog C R Unit → Option (Config C R T σ)
  | .ret _ => some ⟨cfg.shared, Function.update cfg.threads t none⟩
  | .cmd c k =>
    if ok t c (answer c cfg.shared) cfg.shared then
      (S.exec t c (answer c cfg.shared) cfg.shared).map fun s' =>
        ⟨s', Function.update cfg.threads t (some (k (answer c cfg.shared)))⟩
    else none
  | .loop body i k =>
    some ⟨cfg.shared, Function.update cfg.threads t (some ((body i).bind (Prog.next body k)))⟩

def move (cfg : Config C R T σ) : Move T S.Call → Option (Config C R T σ)
  | .call t c => match cfg.threads t with
    | none => some ⟨cfg.shared, Function.update cfg.threads t (some (S.code t c))⟩
    | some _ => none
  | .go t => (cfg.threads t).bind (S.goOn ok answer t cfg)

def runMoves : List (Move T S.Call) → Config C R T σ → Option (Config C R T σ)
  | [], cfg => some cfg
  | m :: ms, cfg => (S.move ok answer cfg m).bind (runMoves ms)

variable {S ok answer} {cfg cfg' : Config C R T σ}

theorem goOn_step {t : T} {p : Prog C R Unit} (ht : cfg.threads t = some p)
    (h : S.goOn ok answer t cfg p = some cfg') : S.Step ok cfg cfg' := by
  obtain ⟨s, threads⟩ := cfg
  cases p with
  | ret a =>
    obtain rfl := Option.some.inj h
    exact .finish ht
  | cmd c k =>
    obtain ⟨hok, h⟩ := Option.ite_none_right_eq_some.mp h
    obtain ⟨s', hs', rfl⟩ := Option.map_eq_some_iff.mp h
    exact .act ht hok hs'
  | loop body i k =>
    obtain rfl := Option.some.inj h
    exact .unroll ht

theorem move_step {m : Move T S.Call} (h : S.move ok answer cfg m = some cfg') :
    S.Step ok cfg cfg' := by
  cases m with
  | call t c =>
    obtain ⟨s, threads⟩ := cfg
    cases ht : threads t with
    | none =>
      simp only [move, ht, Option.some.injEq] at h
      exact h ▸ .call c ht
    | some p => simp [move, ht] at h
  | go t =>
    obtain ⟨p, ht, h⟩ := Option.bind_eq_some_iff.mp h
    exact goOn_step ht h

/-- What `runMoves` computes can be reached. -/
theorem Reach.runMoves {ms : List (Move T S.Call)} (h : S.Reach ok cfg)
    (hm : S.runMoves ok answer ms cfg = some cfg') : S.Reach ok cfg' := by
  induction ms generalizing cfg with
  | nil =>
    obtain rfl := Option.some.inj hm
    exact h
  | cons m ms ih =>
    obtain ⟨cfg₁, h₁, hm⟩ := Option.bind_eq_some_iff.mp hm
    exact ih (h.step (move_step h₁)) hm

variable (S ok answer)

/-- A run of a system with a property, found by evaluation. -/
theorem exists_moves {s : σ} {P : σ → Bool} (ms : List (Move T S.Call)) (hs : S.init s)
    (h : ((S.runMoves ok answer ms ⟨s, fun _ => none⟩).any fun cfg => P cfg.shared) = true) :
    ∃ cfg, S.Reach ok cfg ∧ P cfg.shared = true := by
  cases hm : S.runMoves ok answer ms ⟨s, fun _ => none⟩ with
  | none =>
    rw [hm] at h
    cases h
  | some cfg =>
    rw [hm] at h
    exact ⟨cfg, (Reach.init hs).runMoves hm, h⟩

end System

end Conc
