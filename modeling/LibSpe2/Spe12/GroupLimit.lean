import LibSpe2.Conc.Phase
import LibSpe2.Conc.Simulate
import LibSpe2.Spe12.GroupCalls

/-!
# The limit of a group

`spe_setup` tests the size of the group without the lock, and the member is added under the lock when the
context has been created and loaded. In between other calls go on.

* `system` — any number of threads, each making any sequence of calls.
* `Roomy` — the condition: the test would also be passed counting the calls that are past it.
* `Inv` — the invariant: the size of a group and the calls past its test are within the limit, and the holder
  of the lock knows how the size and the list of a group fit together.

Main results:
* `group_limit` — the limit is kept in every run with room.
* `limit_exceeded` — two calls that overlap exceed it.
-/

namespace LibSpe2.Spe12.Limit

open Conc Function Groups

/-! ## The system -/

/-- No call is being made, and every group counts its members and is within the limit. -/
structure Settled (s : World) : Prop where
  unlocked : s.grpLock = none
  past : ∀ g, s.past g = []
  counted : ∀ g gs, s.store.groups g = some gs → gs.numListSize = gs.grpMembers.length
  limit : ∀ g gs, s.store.groups g = some gs → gs.grpMembers.length ≤ maxThreadsPerGroup

def system : System Cmd Ans Tid World where
  toMachine := machine
  Call := Call
  code _ := Call.code
  init := Settled

/-- **The condition**: the test would also fail if it counted, beside the members, the other calls that have
passed it. -/
def Roomy : Tid → (c : Cmd) → Ans c → World → Prop
  | _, .testSize g, n, s => n ≠ maxThreadsPerGroup → n + (s.past g).length ≠ maxThreadsPerGroup
  | _, _, _, _ => True

/-- **The limit**. -/
def Limited (s : World) : Prop :=
  ∀ g gs, s.store.groups g = some gs → gs.grpMembers.length ≤ maxThreadsPerGroup

/-! ## Phases -/

/-- What the holder of the lock is in the middle of: a member is linked and not counted, it is the only one and
is about to be dropped, it is no longer counted and not dropped, or it is unlinked and still counted. -/
inductive Half where
  | rest
  | linked (g : Groups.Gid)
  | single (g : Groups.Gid)
  | dropping (g : Groups.Gid)
  | unlinked (g : Groups.Gid)

structure Phase where
  /-- The group whose test has been passed. -/
  past : Option Groups.Gid
  /-- The thread holds the lock. -/
  held : Option Half

def Phase.idle : Phase := ⟨none, none⟩

/-- How the size and the list of a group fit together. -/
def Fits (g : Groups.Gid) (gs : Groups.GroupStore) : Option Half → Prop
  | some (.linked g') => (gs.grpMembers.length : Int) = gs.numListSize + if g' = g then 1 else 0
  | some (.single g') => gs.grpMembers.length = gs.numListSize ∧ (g' = g → gs.numListSize = 1)
  | some (.dropping g') =>
    if g' = g then gs.numListSize = 0 ∧ gs.grpMembers.length = 1 else gs.grpMembers.length = gs.numListSize
  | some (.unlinked g') => (gs.grpMembers.length : Int) + (if g' = g then 1 else 0) = gs.numListSize
  | _ => gs.grpMembers.length = gs.numListSize

variable {γ : Tid → Phase} {s s' : World} {t : Tid} {φ : Phase} {g : Groups.Gid}
  {gs gs' : Groups.GroupStore} {h h' : Half}

/-- What the holder of the lock is in the middle of, if there is one. -/
def halfOf (γ : Tid → Phase) (s : World) : Option Half := s.grpLock.bind fun t => (γ t).held

/-- **The invariant**: the size of a group, and the calls that have passed its test, are within the limit. -/
structure Inv (γ : Tid → Phase) (s : World) : Prop where
  lock : ∀ t, s.grpLock = some t ↔ (γ t).held.isSome
  past : ∀ t g, t ∈ s.past g ↔ (γ t).past = some g
  nodup : ∀ g, (s.past g).Nodup
  room : ∀ g gs, s.store.groups g = some gs → gs.numListSize + (s.past g).length ≤ maxThreadsPerGroup
  fits : ∀ g gs, s.store.groups g = some gs → Fits g gs (halfOf γ s)
  linked : ∀ t g, (γ t).held = some (.linked g) → (γ t).past = some g

def proto : Proto Cmd Tid World Phase where
  idle := .idle
  inv := Inv

namespace Inv

/-- The phase of a thread that does nothing to the lists. -/
theorem same (hi : Inv γ s) (hlock : s'.grpLock = s.grpLock) (hpast : s'.past = s.past)
    (hgroups : s'.store.groups = s.store.groups) : Inv γ s' where
  lock t := by rw [hlock, hi.lock]
  past t g := by rw [hpast, hi.past]
  nodup g := by rw [hpast]; exact hi.nodup g
  room g gs hgs := by
    rw [hgroups] at hgs
    rw [hpast]
    exact hi.room g gs hgs
  fits g gs hgs := by
    rw [hgroups] at hgs
    rw [halfOf, hlock]
    exact hi.fits g gs hgs
  linked := hi.linked

theorem halfOf_eq (hi : Inv γ s) (hh : (γ t).held = some h) : halfOf γ s = some h := by
  have hlock : s.grpLock = some t := (hi.lock t).mpr (by rw [hh]; rfl)
  rw [halfOf, hlock]
  exact hh

/-- The lock is taken. -/
theorem acquire (hi : Inv γ s) (hfree : s.grpLock = none) :
    Inv (update γ t { γ t with held := some .rest }) { s with grpLock := some t } where
  lock u := by
    by_cases hu : u = t
    · subst hu
      simp
    · have hnone := hi.lock u
      rw [hfree] at hnone
      simp [update_of_ne hu, Ne.symm hu, ← hnone]
  past u g := by
    by_cases hu : u = t
    · subst hu
      simpa using hi.past u g
    · simpa [update_of_ne hu] using hi.past u g
  nodup := hi.nodup
  room := hi.room
  fits g gs hgs := by
    have hfits := hi.fits g gs hgs
    rw [halfOf, hfree] at hfits
    have hhalf : halfOf (update γ t { γ t with held := some .rest }) { s with grpLock := some t } =
        some .rest := by
      simp [halfOf]
    rw [hhalf]
    exact hfits
  linked u g hu := by
    by_cases hut : u = t
    · subst hut
      simp at hu
    · rw [update_of_ne hut] at hu ⊢
      exact hi.linked u g hu

/-- The lock is given back. -/
theorem release (hi : Inv γ s) (hh : (γ t).held = some .rest) :
    Inv (update γ t { γ t with held := none }) { s with grpLock := none } where
  lock u := by
    by_cases hu : u = t
    · subst hu
      simp
    · have hlock : s.grpLock = some t := (hi.lock t).mpr (by rw [hh]; rfl)
      have hother := hi.lock u
      rw [hlock] at hother
      simp [update_of_ne hu, ← hother, Ne.symm hu]
  past u g := by
    by_cases hu : u = t
    · subst hu
      simpa using hi.past u g
    · simpa [update_of_ne hu] using hi.past u g
  nodup := hi.nodup
  room := hi.room
  fits g gs hgs := by
    have hfits := hi.fits g gs hgs
    rw [hi.halfOf_eq hh] at hfits
    exact hfits
  linked u g hu := by
    by_cases hut : u = t
    · subst hut
      simp at hu
    · rw [update_of_ne hut] at hu ⊢
      exact hi.linked u g hu

/-- A step of a thread that neither takes the lock nor gives it back. -/
theorem keep (hi : Inv γ s) (hlock : s'.grpLock = s.grpLock) (hheld : φ.held.isSome = (γ t).held.isSome)
    (hpast : ∀ g, t ∈ s'.past g ↔ φ.past = some g) (hpasts : ∀ u g, u ≠ t → (u ∈ s'.past g ↔ u ∈ s.past g))
    (hnodup : ∀ g, (s'.past g).Nodup)
    (hroom : ∀ g gs, s'.store.groups g = some gs → gs.numListSize + (s'.past g).length ≤ maxThreadsPerGroup)
    (hfits : ∀ g gs, s'.store.groups g = some gs → Fits g gs (if φ.held.isSome then φ.held else halfOf γ s))
    (hlinked : ∀ g, φ.held = some (.linked g) → φ.past = some g) : Inv (update γ t φ) s' where
  lock u := by
    rw [hlock, hi.lock]
    by_cases hu : u = t
    · subst hu
      simp [hheld]
    · rw [update_of_ne hu]
  past u g := by
    by_cases hu : u = t
    · subst hu
      simpa using hpast g
    · rw [update_of_ne hu, hpasts u g hu, hi.past]
  nodup := hnodup
  room := hroom
  fits g gs hgs := by
    have hhalf : halfOf (update γ t φ) s' = if φ.held.isSome then φ.held else halfOf γ s := by
      unfold halfOf
      rw [hlock]
      split
      · next hsome =>
        rw [(hi.lock t).mpr (hheld ▸ hsome)]
        simp
      · next hnone =>
        cases ho : s.grpLock with
        | none => rfl
        | some u =>
          have hut : u ≠ t := by
            rintro rfl
            exact hnone (hheld ▸ (hi.lock u).mp ho)
          simp [update_of_ne hut]
    rw [hhalf]
    exact hfits g gs hgs
  linked u g hu := by
    by_cases hut : u = t
    · subst hut
      simpa using hlinked g (by simpa using hu)
    · rw [update_of_ne hut] at hu ⊢
      exact hi.linked u g hu

/-- The holder of the lock changes a group. -/
theorem hold (hi : Inv γ s) (hh : (γ t).held = some h) (hg : s.store.groups g = some gs)
    (hsize : gs'.numListSize ≤ gs.numListSize) (hfits : Fits g gs' (some h'))
    (hothers : ∀ g' gs, g' ≠ g → Fits g' gs (some h) → Fits g' gs (some h'))
    (hlinked : ∀ g', h' = .linked g' → (γ t).past = some g') :
    Inv (update γ t { γ t with held := some h' }) (s.setGroup g gs') := by
  refine hi.keep rfl ?_ (hi.past t) (fun _ _ _ => Iff.rfl) hi.nodup ?_ ?_ ?_
  · rw [hh]
    rfl
  · intro g' gs₁ hgs₁
    have hgs₁ : (update s.store.groups g (some gs')) g' = some gs₁ := hgs₁
    by_cases hne : g' = g
    · subst hne
      rw [update_self] at hgs₁
      cases hgs₁
      have hroom := hi.room g' gs hg
      show gs'.numListSize + ((s.past g').length : Int) ≤ _
      omega
    · rw [update_of_ne hne] at hgs₁
      exact hi.room g' gs₁ hgs₁
  · intro g' gs₁ hgs₁
    have hgs₁ : (update s.store.groups g (some gs')) g' = some gs₁ := hgs₁
    show Fits g' gs₁ (some h')
    by_cases hne : g' = g
    · subst hne
      rw [update_self] at hgs₁
      cases hgs₁
      exact hfits
    · rw [update_of_ne hne] at hgs₁
      have hold := hi.fits g' gs₁ hgs₁
      rw [hi.halfOf_eq hh] at hold
      exact hothers g' gs₁ hne hold
  · intro g' hg'
    exact hlinked g' (Option.some.inj hg')

/-- A call passes the test of a group that has room. -/
theorem pass (hi : Inv γ s) (hnone : γ t = .idle)
    (hroom : ∀ gs, s.store.groups g = some gs → gs.numListSize + (s.past g).length < maxThreadsPerGroup) :
    Inv (update γ t ⟨some g, none⟩) (s.pass g t) := by
  have hpast (g' : Groups.Gid) : (s.pass g t).past g' = if g' = g then t :: s.past g else s.past g' := update_apply ..
  have hnot (g' : Groups.Gid) : t ∉ s.past g' := by
    rw [hi.past, hnone]
    nofun
  refine hi.keep rfl ?_ ?_ ?_ ?_ ?_ hi.fits nofun
  · rw [hnone]
    rfl
  · intro g'
    rw [hpast]
    by_cases hne : g' = g
    · simp [hne]
    · simp [hne, hnot g', Ne.symm hne]
  · intro u g' hu
    rw [hpast]
    by_cases hne : g' = g
    · simp [hne, hu]
    · simp [hne]
  · intro g'
    rw [hpast]
    by_cases hne : g' = g
    · simp [hne, hnot g, hi.nodup g]
    · simp [hne, hi.nodup g']
  · intro g' gs₁ hgs₁
    rw [hpast]
    by_cases hne : g' = g
    · subst hne
      have := hroom gs₁ hgs₁
      rw [if_pos rfl, List.length_cons]
      omega
    · rw [if_neg hne]
      exact hi.room g' gs₁ hgs₁

/-- The call of `t` is no longer past the test: the size has grown by at most one. -/
theorem leave (hi : Inv γ s) (hp : (γ t).past = some g) (hlock : s'.grpLock = s.grpLock)
    (hpast : s'.past = update s.past g ((s.past g).erase t))
    (hsize : ∀ g' gs', s'.store.groups g' = some gs' → ∃ gs, s.store.groups g' = some gs ∧
      gs'.numListSize ≤ gs.numListSize + if g' = g then 1 else 0)
    (hheld : φ.held.isSome = (γ t).held.isSome) (hφ : φ.past = none) (hlinked : ∀ g, φ.held ≠ some (.linked g))
    (hfits : ∀ g gs, s'.store.groups g = some gs → Fits g gs (if φ.held.isSome then φ.held else halfOf γ s)) :
    Inv (update γ t φ) s' := by
  have hpasts (g' : Groups.Gid) : s'.past g' = if g' = g then (s.past g).erase t else s.past g' := by
    rw [hpast, update_apply]
  have hmem : t ∈ s.past g := (hi.past t g).mpr hp
  apply hi.keep hlock hheld
  · intro g'
    rw [hpasts, hφ]
    by_cases hne : g' = g
    · subst hne
      simp [(hi.nodup g').not_mem_erase]
    · simp [hne, hi.past, hp, Ne.symm hne]
  · intro u g' hu
    rw [hpasts]
    by_cases hne : g' = g
    · subst hne
      simp [List.mem_erase_of_ne hu]
    · simp [hne]
  · intro g'
    rw [hpasts]
    by_cases hne : g' = g
    · simp [hne, (hi.nodup g).erase]
    · simp [hne, hi.nodup g']
  · intro g' gs' hgs'
    obtain ⟨gs, hgs, hle⟩ := hsize g' gs' hgs'
    have hroom := hi.room g' gs hgs
    rw [hpasts]
    by_cases hne : g' = g
    · subst hne
      have hpos := List.length_pos_of_mem hmem
      rw [if_pos rfl] at hle ⊢
      rw [List.length_erase_of_mem hmem]
      omega
    · rw [if_neg hne] at hle ⊢
      omega
  · exact hfits
  · intro g' hg'
    exact absurd hg' (hlinked g')

/-- The limit is kept whenever the invariant holds. -/
theorem limited (hi : Inv γ s) : Limited s := by
  intro g gs hgs
  have hroom := hi.room g gs hgs
  have hfits := hi.fits g gs hgs
  have hsize : gs.grpMembers.length = gs.numListSize → gs.grpMembers.length ≤ maxThreadsPerGroup := by omega
  cases ho : s.grpLock with
  | none =>
    rw [halfOf, ho] at hfits
    exact hsize hfits
  | some t =>
    obtain ⟨h, hh⟩ := Option.isSome_iff_exists.mp ((hi.lock t).mp ho)
    rw [hi.halfOf_eq hh] at hfits
    cases h with
    | rest => exact hsize hfits
    | linked g' =>
      have hfits : (gs.grpMembers.length : Int) = gs.numListSize + if g' = g then 1 else 0 := hfits
      by_cases hg : g' = g
      · subst hg
        -- the member that is not counted is that of a call past the test
        have hmem : t ∈ s.past g' := (hi.past t g').mpr (hi.linked t g' hh)
        have hpos := List.length_pos_of_mem hmem
        rw [if_pos rfl] at hfits
        omega
      · rw [if_neg hg] at hfits
        omega
    | single g' => exact hsize hfits.1
    | dropping g' =>
      have hfits : if g' = g then gs.numListSize = 0 ∧ gs.grpMembers.length = 1 else
        gs.grpMembers.length = gs.numListSize := hfits
      split at hfits
      · unfold maxThreadsPerGroup
        omega
      · exact hsize hfits
    | unlinked g' =>
      have hfits : (gs.grpMembers.length : Int) + (if g' = g then 1 else 0) = gs.numListSize := hfits
      split at hfits <;> omega

end Inv

/-! ## The commands -/

abbrev Safe {α : Type} (t : Tid) (p : Code α) (φ : Phase) (Q : α → Phase → Prop) : Prop :=
  Proto.Safe machine Roomy proto t p φ Q

/-- The command leaves the lock, the calls past the test and the groups alone. -/
def Cmd.Neutral : Cmd → Prop
  | .isGroup _ | .isMember _ | .entries | .pthreadCreate | .threadStatus _ | .pthreadJoin _ | .groupId _
  | .deleteMe _ | .unlistGroup _ | .freeThread _ | .setErrno _ => True
  | _ => False

theorem exec_neutral {c : Cmd} {r : Ans c} (hc : c.Neutral) (hs : exec t c r s = some s') :
    s'.grpLock = s.grpLock ∧ s'.past = s.past ∧ s'.store.groups = s.store.groups := by
  have of_if {p : Prop} [Decidable p] (hs : (if p then some s else none) = some s') : s' = s := by
    split at hs
    · exact (Option.some.inj hs).symm
    · cases hs
  have of_same (hs : s' = s) :
      s'.grpLock = s.grpLock ∧ s'.past = s.past ∧ s'.store.groups = s.store.groups := by
    rw [hs]
    exact ⟨rfl, rfl, rfl⟩
  cases c with
  | isGroup g => exact of_same (of_if hs)
  | isMember th => exact of_same (of_if hs)
  | entries | pthreadCreate | threadStatus th | pthreadJoin th => exact of_same (Option.some.inj hs).symm
  | groupId th =>
    obtain ⟨ts, -, hs⟩ := Option.bind_eq_some_iff.mp hs
    exact of_same (of_if hs)
  | deleteMe g =>
    obtain ⟨gs, -, hs⟩ := Option.bind_eq_some_iff.mp hs
    exact of_same (of_if hs)
  | unlistGroup g =>
    obtain ⟨⟨rc, store⟩, hstore, hs⟩ := Option.bind_eq_some_iff.mp hs
    obtain ⟨x, -, hx⟩ := Option.bind_eq_some_iff.mp hstore
    cases hx
    dsimp only at hs
    split at hs
    · cases hs
      exact ⟨rfl, rfl, rfl⟩
    · cases hs
  | freeThread th | setErrno e =>
    cases hs
    exact ⟨rfl, rfl, rfl⟩
  | _ => cases hc

theorem safe_neutral {c : Cmd} (hc : c.Neutral) : Safe t (perform c) φ fun _ φ' => φ' = φ := by
  apply Proto.Safe.perform
  intro γ s hi hφ
  refine ⟨trivial, fun r s' _ hs => ⟨φ, ?_, rfl⟩⟩
  obtain ⟨hlock, hpast, hgroups⟩ := exec_neutral hc hs
  rw [← hφ, update_eq_self]
  exact Inv.same hi hlock hpast hgroups

theorem safe_lock : Safe t (perform .lockGroups) φ fun _ φ' => φ' = { φ with held := some .rest } := by
  apply Proto.Safe.perform
  intro γ s hi hφ
  refine ⟨trivial, fun r s' _ hs => ⟨_, ?_, rfl⟩⟩
  have hs : (if s.grpLock = none then some { s with grpLock := some t } else none) = some s' := hs
  split at hs
  · next hfree =>
    cases hs
    rw [← hφ]
    exact Inv.acquire hi hfree
  · cases hs

theorem safe_unlock (hh : φ.held = some .rest) :
    Safe t (perform .unlockGroups) φ fun _ φ' => φ' = { φ with held := none } := by
  apply Proto.Safe.perform
  intro γ s hi hφ
  refine ⟨trivial, fun r s' _ hs => ⟨_, ?_, rfl⟩⟩
  have hs : (if s.grpLock = some t then some { s with grpLock := none } else none) = some s' := hs
  split at hs
  · cases hs
    rw [← hφ]
    exact Inv.release hi (hφ ▸ hh)
  · cases hs

/-- The holder of the lock changes a group by `f`. -/
theorem safe_change {c : Cmd} (f : Groups.GroupStore → Groups.GroupStore)
    (hexec : ∀ r s, exec t c r s = (s.store.groups g).bind fun gs => some (s.setGroup g (f gs)))
    (hh : φ.held = some h)
    (hf : ∀ gs, Fits g gs (some h) → (f gs).numListSize ≤ gs.numListSize ∧ Fits g (f gs) (some h'))
    (hothers : ∀ g' gs, g' ≠ g → Fits g' gs (some h) → Fits g' gs (some h'))
    (hlinked : ∀ g', h' = .linked g' → φ.past = some g') :
    Safe t (perform c) φ fun _ φ' => φ' = { φ with held := some h' } := by
  apply Proto.Safe.perform
  intro γ s hi hφ
  have hi : Inv γ s := hi
  refine ⟨trivial, fun r s' _ hs => ⟨_, ?_, rfl⟩⟩
  obtain ⟨gs, hg, hs⟩ := Option.bind_eq_some_iff.mp ((hexec r s).symm.trans hs)
  cases hs
  subst hφ
  have hfits := hi.fits g gs hg
  rw [hi.halfOf_eq hh] at hfits
  obtain ⟨hsize, hfits'⟩ := hf gs hfits
  exact hi.hold hh hg hsize hfits' hothers hlinked

/-- A group that is in the middle of nothing, next to one that is. -/
theorem Fits.of_rest (hrest : gs.grpMembers.length = gs.numListSize) (hne : g' ≠ g) :
    Fits g gs (some (.linked g')) ∧ Fits g gs (some (.single g')) ∧ Fits g gs (some (.dropping g')) ∧
      Fits g gs (some (.unlinked g')) := by
  simp only [Fits, if_neg hne, hrest]
  refine ⟨?_, ⟨trivial, fun h => absurd h hne⟩, trivial, ?_⟩ <;> simp

/-- A member is linked. -/
theorem safe_linkMember {th : Thread} (hp : φ.past = some g) (hh : φ.held = some .rest) :
    Safe t (perform (.linkMember g th)) φ fun _ φ' => φ' = { φ with held := some (.linked g) } := by
  apply safe_change (fun gs => { gs with grpMembers := th :: gs.grpMembers }) (fun _ _ => rfl) hh
  · intro gs hfits
    have hfits : (gs.grpMembers.length : Int) = gs.numListSize := hfits
    refine ⟨Int.le_refl _, ?_⟩
    simp [Fits, hfits]
  · intro g' gs hne hfits
    exact (Fits.of_rest hfits (Ne.symm hne)).1
  · intro g' hg'
    cases hg'
    exact hp

/-- The only member is no longer counted. -/
theorem safe_uncount_single (hh : φ.held = some (.single g)) :
    Safe t (perform (.uncount g)) φ fun _ φ' => φ' = { φ with held := some (.dropping g) } := by
  apply safe_change (fun gs => { gs with numListSize := gs.numListSize - 1 }) (fun _ _ => rfl) hh
  · intro gs hfits
    have hfits : (gs.grpMembers.length : Int) = gs.numListSize ∧ (g = g → gs.numListSize = 1) := hfits
    have hone := hfits.2 rfl
    refine ⟨by show gs.numListSize - 1 ≤ _; omega, ?_⟩
    show if g = g then gs.numListSize - 1 = 0 ∧ gs.grpMembers.length = 1 else _
    rw [if_pos rfl]
    omega
  · intro g' gs hne hfits
    exact (Fits.of_rest hfits.1 (Ne.symm hne)).2.2.1
  · nofun

/-- It is dropped. -/
theorem safe_clearMembers (hh : φ.held = some (.dropping g)) :
    Safe t (perform (.clearMembers g)) φ fun _ φ' => φ' = { φ with held := some .rest } := by
  apply safe_change (fun gs => { gs with grpMembers := [] }) (fun _ _ => rfl) hh
  · intro gs hfits
    have hfits : if g = g then gs.numListSize = 0 ∧ gs.grpMembers.length = 1 else
      gs.grpMembers.length = gs.numListSize := hfits
    rw [if_pos rfl] at hfits
    exact ⟨Int.le_refl _, hfits.1.symm⟩
  · intro g' gs hne hfits
    have hfits : if g = g' then gs.numListSize = 0 ∧ gs.grpMembers.length = 1 else
      gs.grpMembers.length = gs.numListSize := hfits
    rwa [if_neg (Ne.symm hne)] at hfits
  · nofun

/-- A member that was unlinked is no longer counted. -/
theorem safe_uncount_unlinked (hh : φ.held = some (.unlinked g)) :
    Safe t (perform (.uncount g)) φ fun _ φ' => φ' = { φ with held := some .rest } := by
  apply safe_change (fun gs => { gs with numListSize := gs.numListSize - 1 }) (fun _ _ => rfl) hh
  · intro gs hfits
    have hfits : (gs.grpMembers.length : Int) + (if g = g then 1 else 0) = gs.numListSize := hfits
    rw [if_pos rfl] at hfits
    refine ⟨by show gs.numListSize - 1 ≤ _; omega, ?_⟩
    show (gs.grpMembers.length : Int) = gs.numListSize - 1
    omega
  · intro g' gs hne hfits
    have hfits : (gs.grpMembers.length : Int) + (if g = g' then 1 else 0) = gs.numListSize := hfits
    rw [if_neg (Ne.symm hne), Int.add_zero] at hfits
    exact hfits
  · nofun

theorem setGroup_self (hg : s.store.groups g = some gs) : s.setGroup g gs = s := by
  have hgroups : update s.store.groups g (some gs) = s.store.groups := by rw [← hg, update_eq_self]
  rw [World.setGroup, Store.setGroup, hgroups]

/-- The holder of the lock comes to know something of a group. -/
theorem Inv.know (hi : Inv γ s) (hh : (γ t).held = some h) (hg : s.store.groups g = some gs)
    (hfits : Fits g gs (some h')) (hothers : ∀ g' gs, g' ≠ g → Fits g' gs (some h) → Fits g' gs (some h'))
    (hlinked : ∀ g', h' = .linked g' → (γ t).past = some g') :
    Inv (update γ t { γ t with held := some h' }) s := by
  have hhold := hi.hold hh hg (Int.le_refl _) hfits hothers hlinked
  rwa [setGroup_self hg] at hhold

/-- The size is read under the lock. -/
theorem safe_numListSize (hh : φ.held = some .rest) : Safe t (perform (.numListSize g)) φ fun n φ' =>
    φ' = { φ with held := some (if n = 1 then .single g else .rest) } := by
  apply Proto.Safe.perform
  intro γ s hi hφ
  have hi : Inv γ s := hi
  refine ⟨trivial, fun n s' _ hs => ⟨_, ?_, rfl⟩⟩
  subst hφ
  obtain ⟨gs, hg, hs⟩ := Option.bind_eq_some_iff.mp hs
  split at hs
  · next hn =>
    cases hs
    have hfits := hi.fits g gs hg
    rw [hi.halfOf_eq hh] at hfits
    by_cases hone : n = 1
    · rw [if_pos hone]
      apply hi.know hh hg
      · exact ⟨hfits, fun _ => hn ▸ hone⟩
      · intro g' gs hne hfits
        exact (Fits.of_rest hfits (Ne.symm hne)).2.1
      · nofun
    · rw [if_neg hone, ← hh, update_eq_self]
      exact hi
  · cases hs

/-- A member that is not the first one is unlinked. -/
theorem safe_unlinkMember {th : Thread} (hh : φ.held = some .rest) :
    Safe t (perform (.unlinkMember g th)) φ fun found φ' =>
      φ' = { φ with held := some (if found then .unlinked g else .rest) } := by
  apply Proto.Safe.perform
  intro γ s hi hφ
  have hi : Inv γ s := hi
  refine ⟨trivial, fun found s' _ hs => ⟨_, ?_, rfl⟩⟩
  subst hφ
  obtain ⟨gs, hg, hs⟩ := Option.bind_eq_some_iff.mp hs
  split at hs
  · cases hs
  next p rest hmembers =>
  split at hs
  · next rest' hremove _ hs =>
    cases hs
    have hfits := hi.fits g gs hg
    rw [hi.halfOf_eq hh] at hfits
    have hfits : (gs.grpMembers.length : Int) = gs.numListSize := hfits
    have hlen : rest.length = rest'.length + 1 := by
      rw [removeNext_eq] at hremove
      split at hremove
      · next hmem =>
        cases hremove
        have hpos := List.length_pos_of_mem hmem
        rw [List.length_erase_of_mem hmem]
        omega
      · cases hremove
    rw [hmembers, List.length_cons] at hfits
    show Inv (update γ t { γ t with held := some (.unlinked g) }) _
    refine hi.hold hh hg (Int.le_refl _) ?_ ?_ nofun
    · show (((p :: rest').length : Nat) : Int) + (if g = g then 1 else 0) = gs.numListSize
      rw [if_pos rfl, List.length_cons]
      omega
    · intro g' gs hne hfits
      exact (Fits.of_rest hfits (Ne.symm hne)).2.2.2
  · next hs =>
    cases hs
    show Inv (update γ t { γ t with held := some .rest }) s
    rw [← hh, update_eq_self]
    exact hi
  · cases hs

/-- A member is counted, and its call is no longer past the test. -/
theorem safe_countMember : Safe t (perform (.countMember g)) ⟨some g, some (.linked g)⟩ fun _ φ' =>
    φ' = ⟨none, some .rest⟩ := by
  apply Proto.Safe.perform
  intro γ s hi hφ
  have hi : Inv γ s := hi
  refine ⟨trivial, fun r s' _ hs => ⟨_, ?_, rfl⟩⟩
  obtain ⟨gs, hg, hs⟩ := Option.bind_eq_some_iff.mp hs
  cases hs
  have hgroups (g' : Groups.Gid) : (update s.store.groups g (some { gs with numListSize := gs.numListSize + 1 })) g' =
      if g' = g then some { gs with numListSize := gs.numListSize + 1 } else s.store.groups g' :=
    update_apply ..
  have hhalf := hi.halfOf_eq (congrArg Phase.held hφ)
  refine hi.leave (g := g) (congrArg Phase.past hφ) rfl rfl ?_ ?_ rfl nofun ?_
  · intro g' gs' hgs'
    have hgs' := (hgroups g').symm.trans hgs'
    by_cases hne : g' = g
    · subst hne
      rw [if_pos rfl] at hgs'
      cases hgs'
      exact ⟨gs, hg, Int.le_of_eq (by rw [if_pos rfl])⟩
    · rw [if_neg hne] at hgs'
      exact ⟨gs', hgs', Int.le_of_eq (by simp only [if_neg hne, Int.add_zero])⟩
  · rw [hφ]
    rfl
  · intro g' gs' hgs'
    have hgs' := (hgroups g').symm.trans hgs'
    show (gs'.grpMembers.length : Int) = gs'.numListSize
    by_cases hne : g' = g
    · subst hne
      rw [if_pos rfl] at hgs'
      cases hgs'
      have hfits := hi.fits g' gs hg
      rw [hhalf] at hfits
      have hfits : (gs.grpMembers.length : Int) = gs.numListSize + if g' = g' then 1 else 0 := hfits
      rw [if_pos rfl] at hfits
      exact hfits
    · rw [if_neg hne] at hgs'
      have hfits := hi.fits g' gs' hgs'
      rw [hhalf] at hfits
      have hfits : (gs'.grpMembers.length : Int) = gs'.numListSize + if g = g' then 1 else 0 := hfits
      rwa [if_neg (Ne.symm hne), Int.add_zero] at hfits

/-- A call gives up before its member is linked. -/
theorem Inv.giveUp (hi : Inv γ s) (hφ : γ t = ⟨some g, none⟩) : Inv (update γ t .idle) (s.leave g t) := by
  refine hi.leave (g := g) (congrArg Phase.past hφ) rfl rfl ?_ ?_ rfl nofun ?_
  · intro g' gs' hgs'
    refine ⟨gs', hgs', ?_⟩
    split <;> omega
  · rw [hφ]
    rfl
  · exact hi.fits

theorem safe_setup : Safe t (perform (.setup g)) ⟨some g, none⟩ fun th φ' =>
    φ' = if th.isSome then ⟨some g, none⟩ else .idle := by
  apply Proto.Safe.perform
  intro γ s hi hφ
  have hi : Inv γ s := hi
  refine ⟨trivial, fun th s' _ hs => ⟨_, ?_, rfl⟩⟩
  cases th with
  | none =>
    cases hs
    exact hi.giveUp hφ
  | some th =>
    have hs : (if s.store.threads th = none then
      some { s with store := s.store.setThread th ⟨some g⟩ } else none) = some s' := hs
    split at hs
    · cases hs
      rw [Option.isSome_some, if_pos rfl, ← hφ, update_eq_self]
      exact hi.same rfl rfl rfl
    · cases hs

theorem safe_mallocElem : Safe t (perform (.mallocElem g)) ⟨some g, none⟩ fun elem φ' =>
    φ' = if elem then ⟨some g, none⟩ else .idle := by
  apply Proto.Safe.perform
  intro γ s hi hφ
  have hi : Inv γ s := hi
  refine ⟨trivial, fun elem s' _ hs => ⟨_, ?_, rfl⟩⟩
  cases hs
  cases elem with
  | true =>
    show Inv (update γ t ⟨some g, none⟩) s
    rw [← hφ, update_eq_self]
    exact hi
  | false => exact hi.giveUp hφ

/-- **The test**: where there is room, it is passed only if the group can take one member more. -/
theorem safe_testSize : Safe t (perform (.testSize g)) .idle fun n φ' =>
    φ' = if n = maxThreadsPerGroup then .idle else ⟨some g, none⟩ := by
  apply Proto.Safe.perform
  intro γ s hi hφ
  have hi : Inv γ s := hi
  refine ⟨trivial, fun n s' hroomy hs => ⟨_, ?_, rfl⟩⟩
  have hroomy : n ≠ maxThreadsPerGroup → n + (s.past g).length ≠ maxThreadsPerGroup := hroomy
  obtain ⟨gs, hg, hs⟩ := Option.bind_eq_some_iff.mp hs
  split at hs
  · cases hs
  next hn =>
  obtain rfl : n = gs.numListSize := Decidable.not_not.mp hn
  split at hs
  · next hmax =>
    cases hs
    rw [if_pos hmax, ← hφ, update_eq_self]
    exact hi
  · next hmax =>
    cases hs
    rw [if_neg hmax]
    apply hi.pass hφ
    intro gs' hgs'
    obtain rfl := Option.some.inj (hg.symm.trans hgs')
    have hroom := hi.room g gs hg
    have hne : gs.numListSize + (s.past g).length ≠ (maxThreadsPerGroup : Int) := hroomy hmax
    omega

/-! ## The calls -/

/-- The phase between calls, or of a thread that has nothing in hand. -/
abbrev Idle {α : Type} : α → Phase → Prop := fun _ φ => φ = .idle

theorem safe_srchGroup : Safe t (srchGroup g) .idle Idle := by
  refine .bind safe_lock ?_
  rintro _ _ rfl
  refine .bind (safe_neutral trivial) ?_
  rintro found _ rfl
  refine .bind (safe_unlock rfl) ?_
  rintro _ _ rfl
  split
  · rfl
  · refine .bind (safe_neutral trivial) ?_
    rintro _ _ rfl
    rfl

theorem safe_srchThread {th : Thread} : Safe t (srchThread th) .idle Idle := by
  refine .bind safe_lock ?_
  rintro _ _ rfl
  refine .bind (safe_neutral trivial) ?_
  rintro found _ rfl
  refine .bind (safe_unlock rfl) ?_
  rintro _ _ rfl
  split
  · rfl
  · refine .bind (safe_neutral trivial) ?_
    rintro _ _ rfl
    rfl

theorem safe_addThreadToGroup {th : Thread} : Safe t (addThreadToGroup g th) ⟨some g, none⟩ Idle := by
  refine .bind safe_mallocElem ?_
  rintro elem _ rfl
  cases elem with
  | true =>
    refine .bind safe_lock ?_
    rintro _ _ rfl
    refine .bind (safe_linkMember rfl rfl) ?_
    rintro _ _ rfl
    refine .bind safe_countMember ?_
    rintro _ _ rfl
    refine .bind (safe_unlock rfl) ?_
    rintro _ _ rfl
    rfl
  | false =>
    refine .bind (safe_neutral trivial) ?_
    rintro _ _ rfl
    rfl

theorem safe_speSetup : Safe t (speSetup g) .idle Idle := by
  refine .bind safe_testSize ?_
  rintro n _ rfl
  split
  · refine .bind (safe_neutral trivial) ?_
    rintro _ _ rfl
    rfl
  refine .bind safe_setup ?_
  rintro th _ rfl
  cases th with
  | none => rfl
  | some th =>
    refine .bind safe_addThreadToGroup ?_
    rintro _ _ rfl
    rfl

theorem safe_speCreateThread {handle argp : Bool} {mask : Nat} {flags : UInt32} :
    Safe t (speCreateThread g handle argp mask flags) .idle Idle := by
  unfold speCreateThread
  split
  · refine .bind (safe_neutral trivial) ?_
    rintro _ _ rfl
    rfl
  refine .bind safe_srchGroup ?_
  rintro found _ rfl
  split
  · refine .bind (safe_neutral trivial) ?_
    rintro entries _ rfl
    split
    · refine .bind (safe_neutral trivial) ?_
      rintro _ _ rfl
      rfl
    refine .bind safe_speSetup ?_
    rintro th _ rfl
    cases th with
    | none =>
      refine .bind (safe_neutral trivial) ?_
      rintro _ _ rfl
      rfl
    | some th =>
      refine .bind (safe_neutral trivial) ?_
      rintro rc _ rfl
      rfl
  · rfl

theorem safe_removeGroupFromGroups : Safe t (removeGroupFromGroups g) .idle Idle := by
  refine .bind safe_lock ?_
  rintro _ _ rfl
  refine .bind (safe_neutral trivial) ?_
  rintro rc _ rfl
  refine .bind (safe_unlock rfl) ?_
  rintro _ _ rfl
  rfl

theorem safe_removeThreadFromGroup {th : Thread} : Safe t (removeThreadFromGroup g th) .idle Idle := by
  refine .bind safe_lock ?_
  rintro _ _ rfl
  refine .bind (safe_numListSize rfl) ?_
  rintro n _ rfl
  split
  · refine .bind (safe_uncount_single rfl) ?_
    rintro _ _ rfl
    refine .bind (safe_clearMembers rfl) ?_
    rintro _ _ rfl
    refine .bind (safe_unlock rfl) ?_
    rintro _ _ rfl
    refine .bind (safe_neutral trivial) ?_
    rintro deleteMe _ rfl
    split
    · refine .bind safe_removeGroupFromGroups ?_
      rintro _ _ rfl
      rfl
    · rfl
  refine .bind (safe_unlinkMember rfl) ?_
  rintro found _ rfl
  cases found with
  | true =>
    refine .bind (safe_uncount_unlinked rfl) ?_
    rintro _ _ rfl
    refine .bind (safe_unlock rfl) ?_
    rintro _ _ rfl
    rfl
  | false =>
    refine .bind (safe_unlock rfl) ?_
    rintro _ _ rfl
    refine .bind (safe_neutral trivial) ?_
    rintro _ _ rfl
    rfl

theorem safe_speWait {speid : Thread} {options : UInt32} : Safe t (speWait speid options) .idle Idle := by
  refine .bind safe_srchThread ?_
  rintro found _ rfl
  split
  · refine .bind (safe_neutral trivial) ?_
    rintro threadStatus _ rfl
    split
    · rfl
    refine .bind (safe_neutral trivial) ?_
    rintro rc _ rfl
    split
    · rfl
    refine .bind (safe_neutral trivial) ?_
    rintro gid _ rfl
    refine .bind safe_removeThreadFromGroup ?_
    rintro _ _ rfl
    refine .bind (safe_neutral trivial) ?_
    rintro _ _ rfl
    rfl
  · rfl

theorem safe_code (c : Call) : Safe t c.code .idle Idle := by
  cases c with
  | create gid handle argp mask flags =>
    refine .bind safe_speCreateThread ?_
    rintro _ _ rfl
    rfl
  | wait speid options =>
    refine .bind safe_speWait ?_
    rintro _ _ rfl
    rfl

/-! ## The limit -/

theorem inv_settled (h : Settled s) : Inv (fun _ => .idle) s where
  lock t := by simp [h.unlocked, Phase.idle]
  past t g := by simp [h.past, Phase.idle]
  nodup g := by simp [h.past]
  room g gs hgs := by
    have hcounted := h.counted g gs hgs
    have hlimit := h.limit g gs hgs
    rw [h.past, List.length_nil]
    omega
  fits g gs hgs := by
    rw [halfOf, h.unlocked]
    exact (h.counted g gs hgs).symm
  linked _ _ := nofun

/-- **The limit of a group**: for every number of threads, every sequence of calls that each of them makes,
every answer of the system and every interleaving, if the test is passed only where it would also be passed
counting the calls past it, no state that is reached has a group beyond the limit. -/
theorem group_limit {cfg : Config Cmd Ans Tid World} (h : system.Reach Roomy cfg) : Limited cfg.shared := by
  obtain ⟨γ, hi, -⟩ := proto.reach (fun _ => inv_settled) (fun _ => safe_code) h
  exact Inv.limited hi

/-! ## Two runs -/

/-- A group with `n` threads. -/
def filled (n : Nat) : World where
  store := { Store.init with
    listStart := [1]
    numListSize := 1
    groups g := if g = 1 then some ⟨0, 0, 0, List.range n, n, false⟩ else none
    threads th := if th < n then some ⟨some 1⟩ else none }
  grpLock := none
  past _ := []

theorem settled_filled {n : Nat} (hn : n ≤ 16) : Settled (filled n) where
  unlocked := rfl
  past _ := rfl
  counted g gs hgs := by
    have hgs : (if g = 1 then some ⟨0, 0, 0, List.range n, n, false⟩ else none) = some gs := hgs
    split at hgs
    · cases hgs
      exact congrArg Nat.cast List.length_range.symm
    · cases hgs
  limit g gs hgs := by
    have hgs : (if g = 1 then some ⟨0, 0, 0, List.range n, n, false⟩ else none) = some gs := hgs
    split at hgs
    · cases hgs
      rw [List.length_range]
      exact hn
    · cases hgs

instance (t : Tid) (c : Cmd) (r : Ans c) (s : World) : Decidable (Roomy t c r s) := by
  cases c <;> first | exact inferInstanceAs (Decidable (_ → _)) | exact .isTrue trivial

/-- The state decides the answers, and nothing fails; a new thread has the first number that is free. -/
def answer : (c : Cmd) → World → Ans c
  | .isGroup g, s => decide (g ∈ s.store.listStart)
  | .isMember th, s => searchGroups s.store th s.store.listStart = some true
  | .testSize g, s | .numListSize g, s => ((s.store.groups g).map (·.numListSize)).getD 0
  | .setup _, s => (List.range 20).find? fun th => (s.store.threads th).isNone
  | .groupId th, s => ((s.store.threads th).bind (·.groupId)).getD 0
  | .mallocElem _, _ | .unlinkMember _ _, _ => true
  | .deleteMe g, s => ((s.store.groups g).map (·.deleteMe)).getD false
  | .entries, _ => some 3
  | .pthreadCreate, _ | .threadStatus _, _ | .pthreadJoin _, _ | .unlistGroup _, _ => (0 : Int)
  | .lockGroups, _ | .unlockGroups, _ | .linkMember _ _, _ | .countMember _, _ | .uncount _, _ | .clearMembers _, _
  | .freeThread _, _ | .setErrno _, _ => ()

/-- Creates a thread in group 1. -/
def createOne : Call := .create 1 true true 1 0

/-- Two calls that overlap, in a group of 14: thread 2 makes its call after thread 1 has passed the test and
has not counted its member yet. The group is full in the end. -/
theorem group_limit_overlap : ∃ cfg : Config Cmd Ans Tid World,
    (cfg.shared.store.groups 1).map (·.grpMembers) = some (14 :: 15 :: List.range 14) ∧ Limited cfg.shared := by
  obtain ⟨cfg, h, hc⟩ := System.exists_moves system Roomy answer (s := filled 14)
    (Move.calls 1 createOne 6 ++ Move.calls 2 createOne 13 ++ List.replicate 7 (.go 1))
    (P := fun s => decide ((s.store.groups 1).map (·.grpMembers) = some (14 :: 15 :: List.range 14)))
    (settled_filled (by decide)) (by decide)
  exact ⟨cfg, of_decide_eq_true hc, group_limit h⟩

/-- The same calls in a group of 15: both read this size, and the group has 17 members. -/
theorem limit_exceeded : ∃ cfg : Config Cmd Ans Tid World, system.Reachable cfg ∧
    (cfg.shared.store.groups 1).map (·.grpMembers.length) = some 17 ∧ ¬ Limited cfg.shared := by
  obtain ⟨cfg, h, hc⟩ := System.exists_moves system (System.always Cmd Ans Tid World) answer (s := filled 15)
    (Move.calls 1 createOne 5 ++ Move.calls 2 createOne 13 ++ List.replicate 8 (.go 1))
    (P := fun s => decide ((s.store.groups 1).map (·.grpMembers.length) = some 17))
    (settled_filled (by decide)) (by decide)
  have hlen := of_decide_eq_true hc
  refine ⟨cfg, h, hlen, fun hlimited => ?_⟩
  obtain ⟨gs, hgs, hlen⟩ := Option.map_eq_some_iff.mp hlen
  exact absurd (hlen ▸ hlimited 1 gs hgs) (by decide)

end LibSpe2.Spe12.Limit
