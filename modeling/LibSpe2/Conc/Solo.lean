import LibSpe2.Conc.Machine

/-!
# One call on its own

What a program does when nobody else moves: `Solo M t p s Q` says that every run of `p` by thread `t`
from `s` that returns, with whatever answers, ends in `Q tr a s'`, where `tr` is the exchange of
commands and answers, `a` the result and `s'` the final state. The rules follow the program.

A condition that every command keeps is kept by whole calls, and by whole runs of a system
(`Reach.invariant`).
-/

namespace Conc

variable {C : Type} {R : C → Type} {T σ : Type} {α β : Type}

/-- Every returning run of `p` from `s`, with nobody else moving, satisfies `Q`. -/
def Solo (M : Machine C R T σ) (t : T) (p : Prog C R α) (s : σ)
    (Q : List (Sigma R) → α → σ → Prop) : Prop :=
  ∀ tr a s', p.Ends tr a → M.play t tr s = some s' → Q tr a s'

namespace Solo

variable {M : Machine C R T σ} {t : T} {s : σ}

theorem ret {a : α} {Q : List (Sigma R) → α → σ → Prop} (h : Q [] a s) :
    Solo M t (.ret a) s Q := by
  intro tr b s' hp hs
  obtain ⟨rfl, rfl⟩ := Prog.ends_ret.mp hp
  obtain rfl := Option.some.inj hs
  exact h

theorem cmd {c : C} {k : R c → Prog C R α} {Q : List (Sigma R) → α → σ → Prop}
    (h : ∀ r s₁, M.exec t c r s = some s₁ → Solo M t (k r) s₁ fun tr a s' => Q (⟨c, r⟩ :: tr) a s') :
    Solo M t (.cmd c k) s Q := by
  intro tr a s' hp hs
  obtain ⟨r, tr', rfl, hk⟩ := Prog.ends_cmd.mp hp
  obtain ⟨s₁, hs₁, hs'⟩ := Option.bind_eq_some_iff.mp hs
  exact h r s₁ hs₁ tr' a s' hk hs'

/-- One command, then the rest. -/
theorem perform {c : C} {f : R c → Prog C R α} {Q : List (Sigma R) → α → σ → Prop}
    (h : ∀ r s₁, M.exec t c r s = some s₁ → Solo M t (f r) s₁ fun tr a s' => Q (⟨c, r⟩ :: tr) a s') :
    Solo M t ((Prog.perform c).bind f) s Q := cmd h

/-- **Sequencing**: the two traces follow each other. -/
theorem bind {p : Prog C R α} {f : α → Prog C R β} {Q : List (Sigma R) → β → σ → Prop}
    (h : Solo M t p s fun tr₁ a s₁ => Solo M t (f a) s₁ fun tr₂ b s' => Q (tr₁ ++ tr₂) b s') :
    Solo M t (p.bind f) s Q := by
  intro tr b s' hp hs
  obtain ⟨tr₁, tr₂, a, rfl, h₁, h₂⟩ := Prog.ends_bind.mp hp
  rw [Machine.play_append] at hs
  obtain ⟨s₁, hs₁, hs₂⟩ := Option.bind_eq_some_iff.mp hs
  exact h tr₁ a s₁ h₁ hs₁ tr₂ b s' h₂ hs₂

theorem mono {p : Prog C R α} {Q Q' : List (Sigma R) → α → σ → Prop} (h : Solo M t p s Q)
    (hQ : ∀ tr a s', Q tr a s' → Q' tr a s') : Solo M t p s Q' := by
  intro tr a s' hp hs
  exact hQ tr a s' (h tr a s' hp hs)

/-- **Loops**: an invariant `J` on the loop's state, what has been exchanged so far and the state. -/
theorem repeats {ι : Type} {body : ι → Prog C R (ι ⊕ β)} {i : ι} {Q : List (Sigma R) → β → σ → Prop}
    (J : ι → List (Sigma R) → σ → Prop) (hJ : J i [] s)
    (hb : ∀ j tr s, J j tr s → Solo M t (body j) s fun tr' x s' =>
      x.elim (fun j' => J j' (tr ++ tr') s') (fun b => Q (tr ++ tr') b s')) :
    Solo M t (Prog.repeats body i) s Q := by
  intro tr b s' hp hs
  have hstart : ∀ s₁, M.play t [] s = some s₁ → J i [] s₁ := by
    rintro _ ⟨⟩
    exact hJ
  refine Prog.Ends.repeats_rule (J := fun i tr => ∀ s₁, M.play t tr s = some s₁ → J i tr s₁)
    (Q := fun tr b => ∀ s', M.play t tr s = some s' → Q tr b s') hp hstart ?_ ?_ s' hs
  · intro i tr₀ tr₁ j h₀ h₁ s₂ hs₂
    rw [Machine.play_append] at hs₂
    obtain ⟨s₁, hs₁, hs₂⟩ := Option.bind_eq_some_iff.mp hs₂
    exact hb i tr₀ s₁ (h₀ s₁ hs₁) tr₁ (.inl j) s₂ h₁ hs₂
  · intro i tr₀ tr₁ b h₀ h₁ s₂ hs₂
    rw [Machine.play_append] at hs₂
    obtain ⟨s₁, hs₁, hs₂⟩ := Option.bind_eq_some_iff.mp hs₂
    exact hb i tr₀ s₁ (h₀ s₁ hs₁) tr₁ (.inr b) s₂ h₁ hs₂

end Solo

/-- **Frames**: what the commands of a program keep, it keeps. -/
theorem Solo.frame {M : Machine C R T σ} {t : T} {p : Prog C R α} {P : C → Prop} {J : σ → Prop} {s : σ}
    (hp : p.All P) (h : ∀ c r s s', P c → J s → M.exec t c r s = some s' → J s') (hs : J s) :
    Solo M t p s fun tr _ s' => (∀ e ∈ tr, P e.1) ∧ J s' := by
  intro tr a s' hends hplay
  have hall := hp.ends hends
  refine ⟨hall, ?_⟩
  clear hends hp
  induction tr generalizing s with
  | nil => exact Option.some.inj hplay ▸ hs
  | cons e tr ih =>
    obtain ⟨hce, hctr⟩ := List.forall_mem_cons.mp hall
    obtain ⟨s₁, hs₁, hs'⟩ := Option.bind_eq_some_iff.mp hplay
    exact ih (h e.1 e.2 s s₁ hce hs hs₁) hs' hctr

/-- A program whose commands leave the state alone. -/
theorem Solo.still {M : Machine C R T σ} {t : T} {p : Prog C R α} {P : C → Prop} (hp : p.All P)
    (h : ∀ c r s s', P c → M.exec t c r s = some s' → s' = s) (s : σ) :
    Solo M t p s fun _ _ s' => s' = s := by
  have hframe : Solo M t p s fun tr _ s' => (∀ e ∈ tr, P e.1) ∧ s' = s :=
    Solo.frame hp (fun c r s₁ s₂ hc hs₁ he => (h c r s₁ s₂ hc he).trans hs₁) rfl
  exact hframe.mono fun _ _ _ h => h.2

/-- **Commands carried out by programs**: where every program that carries out a command does, seen through `I`,
what the command does on another machine, every run of the whole program is one on that machine. -/
theorem Solo.interp {C' : Type} {R' : C' → Type} {T' σ' : Type} {M : Machine C R T σ} {t : T}
    {M' : Machine C' R' T' σ'} {t' : T'} {f : (c : C) → Prog C' R' (R c)} {I : σ → σ' → Prop}
    (hf : ∀ c s s', I s s' → Solo M' t' (f c) s' fun _ r s₁' => ∃ s₁, M.exec t c r s = some s₁ ∧ I s₁ s₁')
    {p : Prog C R α} {s : σ} {s' : σ'} (hI : I s s') :
    Solo M' t' (p.interp f) s' fun _ a s₁' =>
      ∃ tr s₁, p.Ends tr a ∧ M.play t tr s = some s₁ ∧ I s₁ s₁' := by
  induction p generalizing s s' with
  | ret a => exact Solo.ret ⟨[], s, .ret, rfl, hI⟩
  | cmd c k ih =>
    refine Solo.bind (Solo.mono (hf c s s' hI) ?_)
    intro tr₁ r s₁' ⟨s₁, hs₁, hI₁⟩
    refine Solo.mono (ih r hI₁) ?_
    intro tr₂ a s₂' ⟨tr, s₂, hends, hplay, hI₂⟩
    refine ⟨⟨c, r⟩ :: tr, s₂, .cmd hends, ?_, hI₂⟩
    rw [Machine.play_cons, hs₁]
    exact hplay
  | loop body i k ihb ihk =>
    intro tr' a s₁' hends hplay
    generalize hp : (Prog.loop body i k).interp f = p at hends
    -- on the derivation, a round at a time
    induction hends generalizing i s s' with
    | ret => cases hp
    | cmd => cases hp
    | @again _ _ _ _ _ j _ _ _ _ hb _ _ ih =>
      cases hp
      rw [Machine.play_append] at hplay
      obtain ⟨s₂', hround, hplay⟩ := Option.bind_eq_some_iff.mp hplay
      obtain ⟨tr₁, s₂, hends₁, hs₂, hI₂⟩ := ihb _ hI _ _ _ hb hround
      obtain ⟨tr₂, s₃, hends₂, hs₃, hI₃⟩ := ih j _ ihk hI₂ hplay rfl
      refine ⟨tr₁ ++ tr₂, s₃, .again hends₁ hends₂, ?_, hI₃⟩
      rw [Machine.play_append, hs₂]
      exact hs₃
    | leave hb hk =>
      cases hp
      rw [Machine.play_append] at hplay
      obtain ⟨s₂', hround, hplay⟩ := Option.bind_eq_some_iff.mp hplay
      obtain ⟨tr₁, s₂, hends₁, hs₂, hI₂⟩ := ihb _ hI _ _ _ hb hround
      obtain ⟨tr₂, s₃, hends₂, hs₃, hI₃⟩ := ihk _ hI₂ _ _ _ hk hplay
      refine ⟨tr₁ ++ tr₂, s₃, .leave hends₁ hends₂, ?_, hI₃⟩
      rw [Machine.play_append, hs₂]
      exact hs₃

/-! ## Runs that there are -/

/-- Some run of `p` from `s`, with nobody else moving, returns `a` in `s'`. -/
def May (M : Machine C R T σ) (t : T) (p : Prog C R α) (s : σ) (a : α) (s' : σ) : Prop :=
  ∃ tr, p.Ends tr a ∧ M.play t tr s = some s'

namespace May

variable {M : Machine C R T σ} {t : T} {s s₁ s' : σ}

theorem ret {a : α} : May M t (.ret a) s a s := ⟨[], .ret, rfl⟩

theorem perform {c : C} {r : R c} (h : M.exec t c r s = some s') : May M t (.perform c) s r s' := by
  refine ⟨[⟨c, r⟩], .cmd .ret, ?_⟩
  rw [Machine.play_cons, h]
  rfl

/-- **Sequencing** of runs. -/
theorem bind {p : Prog C R α} {f : α → Prog C R β} {a : α} {b : β} (hp : May M t p s a s₁)
    (hf : May M t (f a) s₁ b s') : May M t (p.bind f) s b s' := by
  obtain ⟨tr₁, h₁, hs₁⟩ := hp
  obtain ⟨tr₂, h₂, hs₂⟩ := hf
  refine ⟨tr₁ ++ tr₂, Prog.ends_bind.mpr ⟨tr₁, tr₂, a, rfl, h₁, h₂⟩, ?_⟩
  rw [Machine.play_append, hs₁]
  exact hs₂

end May

/-! ## Results and what holds at every moment -/

/-- Every run of `p` from `s` that returns does so with a result and a state that satisfy `Q`, and if `J`
holds in `s` it holds at every moment of every run, whether that returns or not. -/
def Post (M : Machine C R T σ) (t : T) (J : σ → Prop) (p : Prog C R α) (s : σ) (Q : α → σ → Prop) :
    Prop :=
  J s → (∀ tr a s', p.Ends tr a → M.play t tr s = some s' → Q a s') ∧
    ∀ tr s', p.Starts tr → M.play t tr s = some s' → J s'

namespace Post

variable {M : Machine C R T σ} {t : T} {J : σ → Prop} {s : σ} {Q : β → σ → Prop}

theorem ret {a : α} {Q : α → σ → Prop} (h : Q a s) : Post M t J (.ret a) s Q := by
  intro hJ
  constructor
  · intro tr b s' hp hs
    obtain ⟨rfl, rfl⟩ := Prog.ends_ret.mp hp
    obtain rfl := Option.some.inj hs
    exact h
  · intro tr s' hp hs
    cases hp
    obtain rfl := Option.some.inj hs
    exact hJ

theorem cmd {c : C} {k : R c → Prog C R β} (hJ : ∀ r s₁, J s → M.exec t c r s = some s₁ → J s₁)
    (h : ∀ r s₁, M.exec t c r s = some s₁ → Post M t J (k r) s₁ Q) :
    Post M t J (.cmd c k) s Q := by
  intro hs
  constructor
  · intro tr a s' hp hplay
    obtain ⟨r, tr', rfl, hk⟩ := Prog.ends_cmd.mp hp
    obtain ⟨s₁, hs₁, hs'⟩ := Option.bind_eq_some_iff.mp hplay
    exact (h r s₁ hs₁ (hJ r s₁ hs hs₁)).1 tr' a s' hk hs'
  · intro tr s' hp hplay
    cases hp with
    | nil => exact Option.some.inj hplay ▸ hs
    | cmd hk =>
      obtain ⟨s₁, hs₁, hs'⟩ := Option.bind_eq_some_iff.mp hplay
      exact (h _ s₁ hs₁ (hJ _ s₁ hs hs₁)).2 _ s' hk hs'

theorem mono {p : Prog C R α} {Q Q' : α → σ → Prop} (h : Post M t J p s Q)
    (hQ : ∀ a s', Q a s' → Q' a s') : Post M t J p s Q' :=
  fun hJ => ⟨fun tr a s' hp hs => hQ a s' ((h hJ).1 tr a s' hp hs), (h hJ).2⟩

/-- **Sequencing**: the second program starts from what is known after the first. -/
theorem bind {p : Prog C R α} {f : α → Prog C R β} {Q₁ : α → σ → Prop} (hp : Post M t J p s Q₁)
    (hf : ∀ a s₁, Q₁ a s₁ → Post M t J (f a) s₁ Q) : Post M t J (p.bind f) s Q := by
  intro hJ
  have hrest {tr₁ tr₂ : List (Sigma R)} {a : α} {s' : σ} (h₁ : p.Ends tr₁ a)
      (hs : M.play t (tr₁ ++ tr₂) s = some s') :
      ∃ s₁, Post M t J (f a) s₁ Q ∧ J s₁ ∧ M.play t tr₂ s₁ = some s' := by
    rw [Machine.play_append] at hs
    obtain ⟨s₁, hs₁, hs₂⟩ := Option.bind_eq_some_iff.mp hs
    exact ⟨s₁, hf a s₁ ((hp hJ).1 tr₁ a s₁ h₁ hs₁), (hp hJ).2 tr₁ s₁ h₁.starts hs₁, hs₂⟩
  constructor
  · intro tr b s' h hs
    obtain ⟨tr₁, tr₂, a, rfl, h₁, h₂⟩ := Prog.ends_bind.mp h
    obtain ⟨s₁, hpost, hJ₁, hs₂⟩ := hrest h₁ hs
    exact (hpost hJ₁).1 tr₂ b s' h₂ hs₂
  · intro tr s' h hs
    rcases Prog.starts_bind h with h | ⟨tr₁, tr₂, a, rfl, h₁, h₂⟩
    · exact (hp hJ).2 tr s' h hs
    · obtain ⟨s₁, hpost, hJ₁, hs₂⟩ := hrest h₁ hs
      exact (hpost hJ₁).2 tr₂ s' h₂ hs₂

/-- **Loops**: an invariant `I` of the rounds. -/
theorem repeats {ι : Type} {body : ι → Prog C R (ι ⊕ β)} {i : ι} (I : σ → Prop) (hI : I s)
    (hb : ∀ j s, I s → Post M t J (body j) s fun x s' => x.elim (fun _ => I s') fun b => Q b s') :
    Post M t J (Prog.repeats body i) s Q := by
  intro hJ
  constructor
  · intro tr b s' hp hs
    have hround : Solo M t (Prog.repeats body i) s fun _ b s' => Q b s' := by
      refine Solo.repeats (fun _ _ s => I s ∧ J s) ⟨hI, hJ⟩ fun j _ s hs tr x s' hp hplay => ?_
      have hx := (hb j s hs.1 hs.2).1 tr x s' hp hplay
      have hJ' := (hb j s hs.1 hs.2).2 tr s' hp.starts hplay
      cases x with
      | inl j' => exact ⟨hx, hJ'⟩
      | inr b => exact hx
    exact hround tr b s' hp hs
  · intro tr s' hp hs
    generalize hq : Prog.repeats body i = q at hp
    induction hp generalizing i s with
    | nil => exact Option.some.inj hs ▸ hJ
    | cmd => cases hq
    | inside hbody =>
      cases hq
      exact (hb _ s hI hJ).2 _ s' hbody hs
    | again hbody _ ih =>
      cases hq
      rw [Machine.play_append] at hs
      obtain ⟨s₁, hs₁, hs₂⟩ := Option.bind_eq_some_iff.mp hs
      exact ih ((hb _ s hI hJ).1 _ _ s₁ hbody hs₁) hb ((hb _ s hI hJ).2 _ s₁ hbody.starts hs₁) hs₂ rfl
    | leave hbody hk =>
      cases hq
      cases hk
      rw [List.append_nil] at hs
      exact (hb _ s hI hJ).2 _ s' hbody.starts hs

end Post

/-! ## Invariants of whole programs -/

/-- From a state with `I`, every run of `p` that returns ends in one with `I` and its result satisfies
`Φ`, and `J` holds at every moment. -/
def Keeps (M : Machine C R T σ) (t : T) (J I : σ → Prop) (p : Prog C R α)
    (Φ : α → Prop := fun _ => True) : Prop :=
  ∀ s, I s → Post M t J p s fun a s' => I s' ∧ Φ a

namespace Keeps

variable {M : Machine C R T σ} {t : T} {J I : σ → Prop} {Φ : α → Prop} {Ψ : β → Prop}

theorem ret {a : α} (h : Φ a) : Keeps M t J I (.ret a) Φ := fun _ hs => .ret ⟨hs, h⟩

theorem perform {c : C} {Φ : R c → Prop} (hJ : ∀ s, I s → J s)
    (h : ∀ s r s', I s → M.exec t c r s = some s' → I s' ∧ Φ r) : Keeps M t J I (.perform c) Φ :=
  fun s hs => .cmd (fun r s' _ he => hJ s' (h s r s' hs he).1) fun r s' he => .ret (h s r s' hs he)

theorem post {p : Prog C R α} (hp : Keeps M t J I p Φ) {s : σ} (hs : I s) :
    Post M t J p s fun a s' => I s' ∧ Φ a := hp s hs

theorem bind {p : Prog C R α} {f : α → Prog C R β} (hp : Keeps M t J I p Φ)
    (hf : ∀ a, Φ a → Keeps M t J I (f a) Ψ) : Keeps M t J I (p.bind f) Ψ :=
  fun s hs => (hp s hs).bind fun a s' h => hf a h.2 s' h.1

theorem mono {p : Prog C R α} {Φ' : α → Prop} (hp : Keeps M t J I p Φ) (h : ∀ a, Φ a → Φ' a) :
    Keeps M t J I p Φ' := fun s hs => (hp s hs).mono fun a _ ha => ⟨ha.1, h a ha.2⟩

theorem repeats {ι : Type} {body : ι → Prog C R (ι ⊕ β)} {i : ι}
    (hb : ∀ j, Keeps M t J I (body j) fun x => x.elim (fun _ => True) Ψ) :
    Keeps M t J I (Prog.repeats body i) Ψ := by
  intro s hs
  refine Post.repeats I hs fun j s hs => (hb j s hs).mono fun x s' h => ?_
  cases x with
  | inl j' => exact h.1
  | inr b => exact h

/-- **Interpretation**: a program keeps what the programs behind each of its commands keep. -/
theorem interp {C' : Type} {R' : C' → Type} {M : Machine C' R' T σ} {t : T} {J I : σ → Prop}
    {P : C → Prop} {f : (c : C) → Prog C' R' (R c)} {p : Prog C R α} (hp : p.All P)
    (h : ∀ c, P c → Keeps M t J I (f c)) : Keeps M t J I (p.interp f) := by
  induction p with
  | ret a => exact .ret trivial
  | cmd c k ih => exact .bind (h c hp.1) fun r _ => ih r (hp.2 r)
  | loop body i k ihb ihk =>
    have hloop : Keeps M t J I (Prog.repeats (fun j => (body j).interp f) i) :=
      .repeats fun j => (ihb j (hp.1 j)).mono fun x _ => by cases x <;> trivial
    exact hloop.bind fun b _ => ihk b (hp.2 b)

end Keeps

/-! ## Calls one after the other -/

/-- The states after sequences of whole calls that do not overlap, each of them meeting `ok`. -/
inductive System.Calls [DecidableEq T] (S : System C R T σ)
    (ok : T → S.Call → List (Sigma R) → σ → Prop) : σ → Prop
  | init {s : σ} (h : S.init s) : Calls S ok s
  | call {s s' : σ} {t : T} {c : S.Call} {tr : List (Sigma R)} (h : Calls S ok s)
      (hp : (S.code t c).Ends tr ()) (hs : S.play t tr s = some s') (hok : ok t c tr s) :
      Calls S ok s'

/-! ## What every command keeps -/

theorem Machine.play_invariant {M : Machine C R T σ} {I : σ → Prop}
    (h : ∀ t c r s s', I s → M.exec t c r s = some s' → I s') {t : T} {tr : List (Sigma R)} {s s' : σ}
    (hs : M.play t tr s = some s') (hi : I s) : I s' := by
  induction tr generalizing s with
  | nil => exact Option.some.inj hs ▸ hi
  | cons e tr ih =>
    obtain ⟨s₁, hs₁, hs'⟩ := Option.bind_eq_some_iff.mp hs
    exact ih hs' (h t e.1 e.2 s s₁ hi hs₁)

/-- A condition that the commands of a run keep holds in all of it. -/
theorem System.Reach.invariant [DecidableEq T] {S : System C R T σ}
    {ok : T → (c : C) → R c → σ → Prop} {I : σ → Prop} (hinit : ∀ s, S.init s → I s)
    (h : ∀ t c r s s', I s → ok t c r s → S.exec t c r s = some s' → I s') {cfg : Config C R T σ}
    (hr : S.Reach ok cfg) : I cfg.shared := by
  induction hr with
  | init hs => exact hinit _ hs
  | step _ hstep ih =>
    cases hstep with
    | call c ht => exact ih
    | act ht ho he => exact h _ _ _ _ _ ih ho he
    | unroll ht => exact ih
    | finish ht => exact ih

end Conc
