import LibSpe2.Conc.Solo

/-!
# Assumptions and guarantees along a run

What a program guarantees where its surroundings keep to what it assumes of them. `Along M A G t p s Q` is about
every run of `p` by thread `t` from `s`, nobody else moving: if all of its commands meet `A`, each at the state that
it is executed in, they meet `G` as well, whether the run ever returns or not, and one that returns leaves `Q`. The
rules follow the program.
-/

namespace Conc

variable {C : Type} {R : C → Type} {T σ : Type} {α β ι : Type}

namespace Machine

variable {M : Machine C R T σ} {ok ok' : T → (c : C) → R c → σ → Prop} {t : T}

/-- The commands of a trace, and then those of another. -/
theorem passes_append {tr₁ tr₂ : List (Sigma R)} {s : σ} : M.Passes ok t (tr₁ ++ tr₂) s ↔
    M.Passes ok t tr₁ s ∧ ∀ s₁, M.play t tr₁ s = some s₁ → M.Passes ok t tr₂ s₁ := by
  induction tr₁ generalizing s with
  | nil => simp [Passes]
  | cons e tr₁ ih =>
    obtain ⟨c, r⟩ := e
    simp only [List.cons_append, Passes, play_cons, and_assoc]
    cases M.exec t c r s with
    | none => simp
    | some s₁ => simp [ih]

theorem Passes.cons {c : C} {r : R c} {tr : List (Sigma R)} {s s' : σ} (h : ok t c r s) (hs : M.exec t c r s = some s')
    (htr : M.Passes ok t tr s') : M.Passes ok t (⟨c, r⟩ :: tr) s := by
  refine ⟨h, ?_⟩
  rw [hs]
  exact htr

theorem Passes.imp {tr : List (Sigma R)} {s : σ} (h : M.Passes ok t tr s)
    (hok : ∀ c r s, ok t c r s → ok' t c r s) : M.Passes ok' t tr s := by
  induction tr generalizing s with
  | nil => trivial
  | cons e tr ih =>
    refine ⟨hok _ _ _ h.1, ?_⟩
    have hrest := h.2
    split
    · next s₁ hs₁ => exact ih (by simpa only [hs₁] using hrest)
    · trivial

end Machine

/-- As long as every command meets `A`, every command meets `G`, and what is returned satisfies `Q`. -/
structure Along (M : Machine C R T σ) (A G : T → (c : C) → R c → σ → Prop) (t : T) (p : Prog C R α) (s : σ)
    (Q : α → σ → Prop) : Prop where
  passes : ∀ tr, p.Starts tr → M.Passes A t tr s → M.Passes G t tr s
  ends : ∀ tr a s', p.Ends tr a → M.play t tr s = some s' → M.Passes A t tr s → Q a s'

namespace Along

variable {M : Machine C R T σ} {A G : T → (c : C) → R c → σ → Prop} {t : T} {s : σ}

theorem ret {a : α} {Q : α → σ → Prop} (h : Q a s) : Along M A G t (.ret a) s Q where
  passes tr hstarts _ := by
    obtain rfl := Prog.starts_ret.mp hstarts
    trivial
  ends tr b s' hends hplay _ := by
    obtain ⟨rfl, rfl⟩ := Prog.ends_ret.mp hends
    obtain rfl := Option.some.inj hplay
    exact h

/-- One command: it may be assumed to meet `A`. -/
theorem cmd {c : C} {k : R c → Prog C R α} {Q : α → σ → Prop}
    (h : ∀ r, A t c r s → G t c r s ∧ ∀ s₁, M.exec t c r s = some s₁ → Along M A G t (k r) s₁ Q) :
    Along M A G t (.cmd c k) s Q where
  passes tr hstarts hA := by
    obtain rfl | ⟨r, tr', rfl, hk⟩ := Prog.starts_cmd.mp hstarts
    · trivial
    obtain ⟨hG, hrest⟩ := h r hA.1
    refine ⟨hG, ?_⟩
    split
    · next s₁ hs₁ => exact (hrest s₁ hs₁).passes tr' hk (hA.cons_some M hs₁).2
    · trivial
  ends tr a s' hends hplay hA := by
    obtain ⟨r, tr', rfl, hk⟩ := Prog.ends_cmd.mp hends
    obtain ⟨s₁, hs₁, hs'⟩ := Option.bind_eq_some_iff.mp hplay
    exact ((h r hA.1).2 s₁ hs₁).ends tr' a s' hk hs' (hA.cons_some M hs₁).2

/-- One command, then the rest. -/
theorem perform {c : C} {f : R c → Prog C R α} {Q : α → σ → Prop}
    (h : ∀ r, A t c r s → G t c r s ∧ ∀ s₁, M.exec t c r s = some s₁ → Along M A G t (f r) s₁ Q) :
    Along M A G t ((Prog.perform c).bind f) s Q := cmd h

/-- **Sequencing**. -/
theorem bind {p : Prog C R α} {f : α → Prog C R β} {Q₁ : α → σ → Prop} {Q : β → σ → Prop}
    (hp : Along M A G t p s Q₁) (hf : ∀ a s₁, Q₁ a s₁ → Along M A G t (f a) s₁ Q) :
    Along M A G t (p.bind f) s Q where
  passes tr hstarts hA := by
    obtain h₁ | ⟨tr₁, tr₂, a, rfl, h₁, h₂⟩ := Prog.starts_bind hstarts
    · exact hp.passes tr h₁ hA
    obtain ⟨hA₁, hA₂⟩ := Machine.passes_append.mp hA
    refine Machine.passes_append.mpr ⟨hp.passes tr₁ h₁.starts hA₁, fun s₁ hs₁ => ?_⟩
    exact (hf a s₁ (hp.ends tr₁ a s₁ h₁ hs₁ hA₁)).passes tr₂ h₂ (hA₂ s₁ hs₁)
  ends tr b s' hends hplay hA := by
    obtain ⟨tr₁, tr₂, a, rfl, h₁, h₂⟩ := Prog.ends_bind.mp hends
    obtain ⟨hA₁, hA₂⟩ := Machine.passes_append.mp hA
    rw [Machine.play_append] at hplay
    obtain ⟨s₁, hs₁, hs'⟩ := Option.bind_eq_some_iff.mp hplay
    exact (hf a s₁ (hp.ends tr₁ a s₁ h₁ hs₁ hA₁)).ends tr₂ b s' h₂ hs' (hA₂ s₁ hs₁)

/-- **Loops**: an invariant `I` of the loop's state and the machine's. -/
theorem repeats {body : ι → Prog C R (ι ⊕ β)} {i : ι} {Q : β → σ → Prop} (I : ι → σ → Prop) (hI : I i s)
    (hb : ∀ j s, I j s → Along M A G t (body j) s fun x s' => x.elim (fun j' => I j' s') fun b => Q b s') :
    Along M A G t (Prog.repeats body i) s Q where
  passes tr hstarts hA := by
    generalize hp : Prog.repeats body i = p at hstarts
    -- on the derivation, a round at a time
    induction hstarts generalizing i s with
    | nil => trivial
    | cmd => cases hp
    | inside hround =>
      cases hp
      exact (hb _ s hI).passes _ hround hA
    | again hround _ ih =>
      cases hp
      obtain ⟨hA₁, hA₂⟩ := Machine.passes_append.mp hA
      refine Machine.passes_append.mpr ⟨(hb _ s hI).passes _ hround.starts hA₁, fun s₁ hs₁ => ?_⟩
      exact ih ((hb _ s hI).ends _ _ s₁ hround hs₁ hA₁) hb (hA₂ s₁ hs₁) rfl
    | leave hround hk =>
      cases hp
      obtain rfl := Prog.starts_ret.mp hk
      rw [List.append_nil] at hA ⊢
      exact (hb _ s hI).passes _ hround.starts hA
  ends tr b s' hends hplay hA := by
    generalize hp : Prog.repeats body i = p at hends
    induction hends generalizing i s with
    | ret => cases hp
    | cmd => cases hp
    | again hround _ _ ih =>
      cases hp
      obtain ⟨hA₁, hA₂⟩ := Machine.passes_append.mp hA
      rw [Machine.play_append] at hplay
      obtain ⟨s₁, hs₁, hs'⟩ := Option.bind_eq_some_iff.mp hplay
      exact ih ((hb _ s hI).ends _ _ s₁ hround hs₁ hA₁) hb hs' (hA₂ s₁ hs₁) rfl
    | leave hround hk =>
      cases hp
      obtain ⟨rfl, rfl⟩ := Prog.ends_ret.mp hk
      rw [List.append_nil] at hA hplay
      exact (hb _ s hI).ends _ _ s' hround hplay hA

end Along

end Conc
