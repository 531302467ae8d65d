import LibSpe2.Spe12.ThreadCalls

/-!
# What a failed creation leaves behind

A call of `spe_create_thread` that fails should leave nothing behind, but there is nothing in it that undoes a step.

* `Balanced` — what is asked of a call that fails.
* `Listed`, `Made` — how far a call has got.
* `speCreateThread_spec` — the call leaves nothing behind if and only if it has got no further.
-/

namespace LibSpe2.Spe12.Threads

open Conc Function Groups
open Ctx (Resource ProgramHandle Use)

variable {s s' s₁ : World} {spe : Spe} {th : Thread} {gid : Option Groups.Gid} {handle : ProgramHandle}
  {flags : UInt32} {tr : List (Sigma Ans)} {α : Type}

/-! ## Programs of the base layer -/

/-- Only what the base layer has of this context has changed, and what the process holds. -/
structure Elsewhere (spe : Spe) (s s' : World) : Prop where
  store : s'.store = s.store
  spectx : s'.spectx = s.spectx
  contexts : s'.contexts = s.contexts
  records : ∀ c, c ≠ spe → s'.records c = s.records c
  evPipe : s'.evPipe = s.evPipe
  piped : s'.piped = s.piped

theorem Elsewhere.put (h : Elsewhere spe s s') (p : Ctx.Proc) : Elsewhere spe s (s'.put spe p) where
  store := h.store
  spectx := h.spectx
  contexts := h.contexts
  records c hc := (update_of_ne hc ..).trans (h.records c hc)
  evPipe := h.evPipe
  piped := h.piped

theorem focus_put (p : Ctx.Proc) : (s.put spe p).focus spe = p := by
  unfold World.focus World.put
  simp only [update_self]

/-- A command of the base layer. -/
def Cmd.Inside : Cmd → Prop
  | .ctx _ _ => True
  | _ => False

/-- **A program of the base layer** does on a context what it does on its own. -/
theorem onContext_spec {p : Ctx.Code α} {Q : α → Ctx.Proc → Prop}
    (h : Solo Ctx.machine () p (s.focus spe) fun _ a x => Q a x) :
    Solo machine () (onContext spe p) s fun tr a s' =>
      (∀ e ∈ tr, e.1.Inside) ∧ Elsewhere spe s s' ∧ Q a (s'.focus spe) := by
  have hinside : (onContext spe p).All Cmd.Inside := (Prog.all_true p).interp fun c _ => .perform trivial
  have hrun : Solo machine () (onContext spe p) s fun _ a s' => ∃ tr x, p.Ends tr a ∧
      Ctx.machine.play () tr (s.focus spe) = some x ∧ x = s'.focus spe ∧ Elsewhere spe s s' := by
    apply Solo.interp (I := fun x w => x = w.focus spe ∧ Elsewhere spe s w)
    · rintro c _ w ⟨rfl, hw⟩
      apply Solo.cmd
      intro r w' he
      obtain ⟨x, hx, rfl⟩ := Option.map_eq_some_iff.mp he
      exact Solo.ret ⟨x, hx, (focus_put x).symm, hw.put x⟩
    · exact ⟨rfl, rfl, rfl, rfl, fun _ _ => rfl, rfl, rfl⟩
  intro tr a s' hends hplay
  obtain ⟨tr', x, hends', hplay', rfl, helse⟩ := hrun tr a s' hends hplay
  exact ⟨hinside.ends hends, helse, h tr' a _ hends' hplay'⟩

/-! ## What is asked of a call that fails -/

/-- The members of a group, of which there are none where there is no group. -/
def members (store : Store) (g : Groups.Gid) : List Thread := (store.groups g).elim [] Groups.GroupStore.grpMembers

/-- **Balance**: the groups, their members, the contexts and what the process holds are as before. -/
structure Balanced (s s' : World) : Prop where
  listStart : s'.store.listStart = s.store.listStart
  members : ∀ g, members s'.store g = members s.store g
  contexts : s'.contexts = s.contexts
  live : s'.live = s.live

theorem Balanced.trans {s₂ : World} (h : Balanced s s₁) (h' : Balanced s₁ s₂) : Balanced s s₂ where
  listStart := h'.listStart.trans h.listStart
  members g := (h'.members g).trans (h.members g)
  contexts := h'.contexts.trans h.contexts
  live := h'.live.trans h.live

theorem Balanced.symm (h : Balanced s s') : Balanced s' s :=
  ⟨h.listStart.symm, fun g => (h.members g).symm, h.contexts.symm, h.live.symm⟩

theorem Balanced.rfl : Balanced s s := ⟨Eq.refl _, fun _ => Eq.refl _, Eq.refl _, Eq.refl _⟩

theorem Balanced.setErrno (e : Errno) : Balanced s (s.setStore (s.store.setErrno e)) :=
  ⟨Eq.refl _, fun _ => Eq.refl _, Eq.refl _, Eq.refl _⟩

theorem Balanced.newThread : Balanced s (s.newThread th gid) :=
  ⟨Eq.refl _, fun _ => Eq.refl _, Eq.refl _, Eq.refl _⟩

theorem Elsewhere.balance (h : Elsewhere spe s s') (hlive : s'.live = s.live) : Balanced s s' where
  listStart := by rw [h.store]
  members g := by rw [h.store]
  contexts := h.contexts
  live := hlive

/-- A group of its own has been put on the list of groups. -/
def Lists : Sigma Ans → Prop
  | ⟨.speGidSetup, (some _, true)⟩ => True
  | _ => False

/-- A context has been created. -/
def Makes : Sigma Ans → Prop
  | ⟨.setSpectx _ _, _⟩ => True
  | _ => False

/-- How far a call has got. -/
def Listed (tr : List (Sigma Ans)) : Prop := ∃ e ∈ tr, Lists e
def Made (tr : List (Sigma Ans)) : Prop := ∃ e ∈ tr, Makes e

@[simp] theorem listed_nil : Listed [] ↔ False := by simp [Listed]
@[simp] theorem made_nil : Made [] ↔ False := by simp [Made]

@[simp] theorem listed_cons {e : Sigma Ans} : Listed (e :: tr) ↔ Lists e ∨ Listed tr := by simp [Listed]
@[simp] theorem made_cons {e : Sigma Ans} : Made (e :: tr) ↔ Makes e ∨ Made tr := by simp [Made]

@[simp] theorem listed_append {tr' : List (Sigma Ans)} : Listed (tr ++ tr') ↔ Listed tr ∨ Listed tr' := by
  simp [Listed, or_and_right, exists_or]

@[simp] theorem made_append {tr' : List (Sigma Ans)} : Made (tr ++ tr') ↔ Made tr ∨ Made tr' := by
  simp [Made, or_and_right, exists_or]

theorem not_listed_inside (h : ∀ e ∈ tr, e.1.Inside) : ¬Listed tr := by
  rintro ⟨⟨c, r⟩, he, hl⟩
  have hc := h _ he
  cases c with
  | ctx => exact hl
  | _ => exact hc

theorem not_made_inside (h : ∀ e ∈ tr, e.1.Inside) : ¬Made tr := by
  rintro ⟨⟨c, r⟩, he, hl⟩
  have hc := h _ he
  cases c with
  | ctx => exact hl
  | _ => exact hc

/-- **The condition**: a call leaves all as it was if it has put no group on the list and has created no
context. -/
def Accounted (s : World) (tr : List (Sigma Ans)) (s' : World) : Prop := Balanced s s' ↔ ¬Listed tr ∧ ¬Made tr

theorem Accounted.cons {e : Sigma Ans} (h : Accounted s₁ tr s') (hb : Balanced s s₁) (hl : ¬Lists e)
    (hm : ¬Makes e) : Accounted s (e :: tr) s' := by
  have hiff : Balanced s s' ↔ Balanced s₁ s' := ⟨hb.symm.trans, hb.trans⟩
  unfold Accounted
  simp only [hiff, listed_cons, made_cons, hl, hm, false_or]
  exact h

theorem Accounted.append {tr' : List (Sigma Ans)} (h : Accounted s tr s₁) (hb : Balanced s₁ s')
    (hl : ¬Listed tr') (hm : ¬Made tr') : Accounted s (tr ++ tr') s' := by
  have hiff : Balanced s s' ↔ Balanced s s₁ := ⟨fun h => h.trans hb.symm, fun h => h.trans hb⟩
  unfold Accounted
  simp only [hiff, listed_append, made_append, hl, hm, or_false]
  exact h

theorem Accounted.of_balanced (hb : Balanced s s') (hl : ¬Listed tr) (hm : ¬Made tr) : Accounted s tr s' :=
  ⟨fun _ => ⟨hl, hm⟩, fun _ => hb⟩

/-! ## Creating a thread -/

/-- What the base layer leads to when a context is created. -/
theorem create_spec : Solo machine ()
    (onContext spe (Ctx.baseSpeContextCreate spe (speEventsEnable ||| flags) none none)) s fun tr created s' =>
      (∀ e ∈ tr, e.1.Inside) ∧ Elsewhere spe s s' ∧ (created = false ∧ s'.live = s.live ∨
        created = true ∧ Ctx.Created spe (Ctx.contextFlags (speEventsEnable ||| flags)) (s.focus spe)
          (s'.focus spe)) := by
  refine (onContext_spec (Q := fun created x => created = false ∧ x.live = s.live ∨ created = true ∧
    Ctx.Created spe (Ctx.contextFlags (speEventsEnable ||| flags)) (s.focus spe) x) ?_)
  intro tr created x hends hplay
  rcases (Ctx.post_baseCreate (s.focus spe).calm).1 tr created x hends hplay with ⟨hc, hl, -⟩ | h
  · exact .inl ⟨hc, hl⟩
  · exact .inr h

/-- The commands that follow when there is a context. -/
def Cmd.Finishing : Cmd → Prop
  | .ctx _ _ | .pipe _ | .setEvPipe _ _ | .addThreadToGroup _ _ => True
  | _ => False

theorem finishing_onContext (p : Ctx.Code α) : (onContext spe p).All Cmd.Finishing :=
  (Prog.all_true p).interp fun _ _ => .perform trivial

theorem finishSetup_finishing : (finishSetup gid th spe handle).All Cmd.Finishing := by
  apply (finishing_onContext _).bind
  intro rc
  split
  · trivial
  have hpipe : (openEvPipe spe).All Cmd.Finishing := by
    apply Prog.All.bind (.perform trivial)
    intro r
    split
    · trivial
    · exact .perform trivial
  apply hpipe.bind
  intro _
  apply Prog.All.bind (.perform trivial)
  intro elem
  apply (finishing_onContext _).bind
  intro _
  trivial

theorem addThreadToGroup_listStart {elem : Bool} {store store' : Store} {rc : Int}
    (h : Groups.addThreadToGroup gid th elem store = some (rc, store')) : store'.listStart = store.listStart := by
  unfold Groups.addThreadToGroup at h
  cases elem with
  | false =>
    cases h
    rfl
  | true =>
    obtain ⟨g, -, h⟩ := Option.bind_eq_some_iff.mp h
    obtain ⟨gs, -, h⟩ := Option.bind_eq_some_iff.mp h
    cases h
    rfl

/-- From there on neither the contexts nor the list of groups changes. -/
theorem exec_finishing {c : Cmd} {r : Ans c} (hc : c.Finishing) (h : exec () c r s = some s') :
    s'.contexts = s.contexts ∧ s'.store.listStart = s.store.listStart := by
  cases c with
  | ctx =>
    obtain ⟨x, -, rfl⟩ := Option.map_eq_some_iff.mp h
    exact ⟨rfl, rfl⟩
  | pipe =>
    cases r with
    | error =>
      cases h
      exact ⟨rfl, rfl⟩
    | ok =>
      obtain ⟨-, rfl⟩ := of_guard h
      exact ⟨rfl, rfl⟩
  | setEvPipe =>
    cases h
    exact ⟨rfl, rfl⟩
  | addThreadToGroup =>
    obtain ⟨⟨rc, store⟩, hstore, h⟩ := Option.bind_eq_some_iff.mp h
    cases h
    exact ⟨rfl, addThreadToGroup_listStart hstore⟩
  | _ => exact hc.elim

theorem not_listed_finishing (h : ∀ e ∈ tr, e.1.Finishing) : ¬Listed tr := by
  rintro ⟨⟨c, r⟩, he, hl⟩
  have hc := h _ he
  cases c with
  | ctx | pipe | setEvPipe | addThreadToGroup => exact hl
  | _ => exact hc

theorem finishSetup_spec : Solo machine () (finishSetup gid th spe handle) s fun tr _ s' =>
    ¬Listed tr ∧ s'.contexts = s.contexts ∧ s'.store.listStart = s.store.listStart := by
  have hframe : Solo machine () (finishSetup gid th spe handle) s fun tr _ s' => (∀ e ∈ tr, e.1.Finishing) ∧
      s'.contexts = s.contexts ∧ s'.store.listStart = s.store.listStart := by
    apply Solo.frame finishSetup_finishing
    · intro c r s₁ s₂ hc h₁ he
      obtain ⟨hcontexts, hlist⟩ := exec_finishing hc he
      exact ⟨hcontexts.trans h₁.1, hlist.trans h₁.2⟩
    · exact ⟨rfl, rfl⟩
  exact hframe.mono fun _ _ _ h => ⟨not_listed_finishing h.1, h.2⟩

/-- What `spe_setup` leads to once there is a group. -/
structure SetUp (s : World) (tr : List (Sigma Ans)) (s' : World) : Prop where
  unlisted : ¬Listed tr
  listStart : s'.store.listStart = s.store.listStart
  balanced : ¬Made tr → Balanced s s'
  made : Made tr → s'.contexts ≠ s.contexts

theorem SetUp.of_balanced (hb : Balanced s s') (hl : ¬Listed tr) (hm : ¬Made tr) : SetUp s tr s' where
  unlisted := hl
  listStart := hb.listStart
  balanced _ := hb
  made h := absurd h hm

theorem setupThread_spec : Solo machine () (setupThread gid handle flags) s fun tr _ s' => SetUp s tr s' := by
  apply Solo.perform
  intro r s₁ hs₁
  cases r with
  | none =>
    cases hs₁
    apply Solo.perform
    intro _ s₂ hs₂
    cases hs₂
    exact Solo.ret (.of_balanced (.setErrno _) (by simp [Lists]) (by simp [Makes]))
  | some th =>
    obtain ⟨-, rfl⟩ := of_guard hs₁
    apply Solo.perform
    intro spe s₂ hs₂
    obtain ⟨hnew, rfl⟩ := of_guard hs₂
    apply Solo.bind
    refine create_spec.mono ?_
    rintro tr₁ created s₃ ⟨hinside, helse, hcreated⟩
    have hl₁ := not_listed_inside hinside
    have hm₁ := not_made_inside hinside
    obtain ⟨rfl, hlive⟩ | ⟨rfl, -⟩ := hcreated
    · have hbalanced : Balanced s s₃ := Balanced.newThread.trans (helse.balance hlive)
      exact Solo.ret (.of_balanced hbalanced (by simp [Lists, hl₁]) (by simp [Makes, hm₁]))
    · apply Solo.perform
      intro _ s₄ hs₄
      cases hs₄
      refine finishSetup_spec.mono ?_
      rintro tr₂ r s₅ ⟨hl₂, hcontexts, hlist⟩
      have hcontexts₃ : s₃.contexts = s.contexts := helse.contexts
      have hlist₃ : s₃.store.listStart = s.store.listStart := by rw [helse.store]; rfl
      constructor
      · simp [Lists, hl₁, hl₂]
      · exact hlist.trans hlist₃
      · intro hm
        exact absurd (by simp [Makes]) hm
      · intro _ heq
        have hmem : spe ∈ s₅.contexts := by
          rw [hcontexts]
          exact Finset.mem_insert_self ..
        exact hnew (heq ▸ hmem)

theorem SetUp.accounted (h : SetUp s tr s') : Accounted s tr s' := by
  constructor
  · intro hb
    exact ⟨h.unlisted, fun hm => h.made hm hb.contexts⟩
  · rintro ⟨-, hm⟩
    exact h.balanced hm

/-- A group that is not on the list has no members. -/
theorem balanced_gidSetup {group : Option Groups.Gid} {elem : Bool} {policy priority events : Int}
    (hnew : ∀ g ∈ group, s.store.groups g = none) (hl : ¬(group.isSome ∧ elem = true)) :
    Balanced s (s.setStore (speGidSetup policy priority events group elem s.store).2) := by
  cases group with
  | none => exact .setErrno _
  | some g =>
    have helem : elem = false := by simpa using hl
    subst helem
    refine ⟨rfl, fun g' => ?_, rfl, rfl⟩
    show ((update s.store.groups g _) g').elim [] _ = _
    unfold members
    by_cases hg : g' = g
    · rw [hg, update_self, hnew g rfl]
      rfl
    · rw [update_of_ne hg]

theorem speSetup_spec : Solo machine () (speSetup gid handle flags) s fun tr _ s' => Accounted s tr s' := by
  cases gid with
  | none =>
    apply Solo.perform
    rintro ⟨group, elem⟩ s₁ hs₁
    obtain ⟨hnew, rfl⟩ := of_guard hs₁
    refine setupThread_spec.mono ?_
    intro tr _ s' h
    by_cases hl : group.isSome ∧ elem = true
    · -- the list has got longer, and stays so
      obtain ⟨hg, rfl⟩ := hl
      obtain ⟨g, rfl⟩ := Option.isSome_iff_exists.mp hg
      constructor
      · intro hb
        have hlist : s'.store.listStart = g :: s.store.listStart := h.listStart
        exact absurd (hlist.symm.trans hb.listStart) (List.cons_ne_self g _)
      · rintro ⟨hl, -⟩
        have hlists : Lists ⟨.speGidSetup, (some g, true)⟩ := trivial
        exact absurd (listed_cons.mpr (.inl hlists)) hl
    · apply h.accounted.cons (balanced_gidSetup hnew hl)
      · cases group with
        | none => exact id
        | some g =>
          have helem : elem = false := by simpa using hl
          subst helem
          exact id
      · exact id
  | some g =>
    apply Solo.perform
    intro n s₁ hs₁
    obtain ⟨gs, -, hs₁⟩ := Option.bind_eq_some_iff.mp hs₁
    obtain ⟨-, rfl⟩ := of_guard hs₁
    split
    · apply Solo.perform
      intro _ s₂ hs₂
      cases hs₂
      exact Solo.ret (.of_balanced (.setErrno _) (by simp [Lists]) (by simp [Makes]))
    · exact setupThread_spec.mono fun tr _ s' h => h.accounted.cons .rfl id id

theorem createThread_spec {mask : Nat} :
    Solo machine () (createThread gid handle mask flags) s fun tr _ s' => Accounted s tr s' := by
  apply Solo.perform
  intro entries s₁ hs₁
  cases hs₁
  split
  · apply Solo.perform
    intro _ s₂ hs₂
    cases hs₂
    exact Solo.ret (.of_balanced (.setErrno _) (by simp [Lists]) (by simp [Makes]))
  · apply Solo.bind
    refine speSetup_spec.mono ?_
    intro tr r s₂ h
    cases r with
    | none =>
      apply Solo.perform
      intro _ s₃ hs₃
      cases hs₃
      apply Solo.ret
      refine Accounted.cons ?_ (.rfl : Balanced s s) id id
      exact h.append (.setErrno _) (by simp [Lists]) (by simp [Makes])
    | some th =>
      apply Solo.perform
      intro rc s₃ hs₃
      cases hs₃
      apply Solo.ret
      refine Accounted.cons ?_ (.rfl : Balanced s s) id id
      exact h.append .rfl (by simp [Lists]) (by simp [Makes])

/-- **Creating**: when all is as before. -/
theorem speCreateThread_spec {handle : Option ProgramHandle} {argp : Bool} {mask : Nat} :
    Solo machine () (speCreateThread gid handle argp mask flags) s fun tr _ s' => Accounted s tr s' := by
  have hrefused : Solo machine () (do
      perform (.setErrno .EINVAL)
      return (none : Option Thread)) s fun tr _ s' => Accounted s tr s' := by
    apply Solo.perform
    intro _ s₁ hs₁
    cases hs₁
    exact Solo.ret (.of_balanced (.setErrno _) (by simp [Lists]) (by simp [Makes]))
  cases handle with
  | none => exact hrefused
  | some handle =>
    unfold speCreateThread
    dsimp only
    split
    · exact hrefused
    cases gid with
    | none => exact createThread_spec
    | some g =>
      apply Solo.perform
      intro found s₁ hs₁
      obtain ⟨-, rfl⟩ := of_guard hs₁
      have hb : Balanced s (s.setStore (Groups.srchGroup g s.store).2) := by
        unfold Groups.srchGroup
        split
        · exact .rfl
        · exact .setErrno _
      cases found with
      | true => exact createThread_spec.mono fun tr _ s' h => h.cons hb id id
      | false => exact Solo.ret (.of_balanced hb (by simp [Lists]) (by simp [Makes]))

end LibSpe2.Spe12.Threads
