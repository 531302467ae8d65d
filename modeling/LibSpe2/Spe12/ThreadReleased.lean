import LibSpe2.Spe12.ThreadBalance

/-!
# What a wait releases

From its creation on a thread has a context, a pipe for events and a place on the list of its group, and the call
that waits for it should release them all.

* `Kept` — the invariant between two calls: the process holds what the contexts hold, and every pipe so far.
* `Watched` — what nobody but the wait for a thread changes.
* `Yields`, `Cleaned`, `Waits`, `Goes` — what each of the calls leads to.
-/

namespace LibSpe2.Spe12.Threads

open Conc Function Groups
open Ctx (Resource ProgramHandle Use)

variable {s s' s₁ : World} {spe : Spe} {th : Thread} {gid : Option Groups.Gid} {handle : ProgramHandle}
  {flags : UInt32} {tr : List (Sigma Ans)} {store : Store} {α : Type}

/-! ## The invariant -/

/-- Every group counts its members. -/
def Counted (store : Store) : Prop :=
  ∀ g gs, store.groups g = some gs → gs.numListSize = gs.grpMembers.length

/-- What the contexts of a set hold. -/
def World.held (s : World) (contexts : Finset Spe) : Multiset Resource :=
  ∑ c ∈ contexts, (s.records c).owned c true

/-- **The invariant** between two calls. -/
structure Kept (s : World) : Prop where
  ledger : ∃ rest, s.live = rest + s.held s.contexts ∧ s.piped ≤ rest
  fit : ∀ c ∈ s.contexts, Ctx.Fit c (s.records c)
  owner : ∀ t c, s.store.threads t ≠ none → s.spectx t = some c → c ∈ s.contexts
  apart : ∀ t t' c, s.store.threads t ≠ none → s.store.threads t' ≠ none → s.spectx t = some c →
    s.spectx t' = some c → t = t'
  counted : Counted s.store

/-- A thread with its context and its pipe, and pipes that have been opened. -/
structure Watched where
  th : Thread
  thread : Groups.ThreadStore
  spe : Spe
  evPipe : Fd × Fd
  piped : Multiset Resource

/-- They are there. -/
structure Watched.In (w : Watched) (s : World) : Prop where
  thread : s.store.threads w.th = some w.thread
  spectx : s.spectx w.th = some w.spe
  evPipe : s.evPipe w.spe = w.evPipe
  piped : w.piped ≤ s.piped

variable {w : Watched}

theorem Watched.In.allocated (hw : w.In s) : s.store.threads w.th ≠ none := by
  rw [hw.thread]
  exact Option.some_ne_none _

theorem Watched.In.context (hw : w.In s) (h : Kept s) : w.spe ∈ s.contexts :=
  h.owner w.th w.spe hw.allocated hw.spectx

/-! ## Groups -/

theorem Kept.setStore (h : Kept s) (ht : store.threads = s.store.threads) (hc : Counted store) :
    Kept (s.setStore store) where
  ledger := h.ledger
  fit := h.fit
  owner t c hth := h.owner t c (ht ▸ hth)
  apart t t' c hth hth' := h.apart t t' c (ht ▸ hth) (ht ▸ hth')
  counted := hc

theorem Watched.In.setStore (hw : w.In s) (ht : store.threads = s.store.threads) : w.In (s.setStore store) where
  thread := (congrFun ht w.th).trans hw.thread
  spectx := hw.spectx
  evPipe := hw.evPipe
  piped := hw.piped

theorem Counted.setGroup {g : Groups.Gid} {gs : Groups.GroupStore} (h : Counted store)
    (hgs : gs.numListSize = gs.grpMembers.length) : Counted (store.setGroup g gs) := by
  intro g' gs' hg'
  by_cases hg : g' = g
  · rw [hg, Store.groups_setGroup, if_pos rfl] at hg'
    rw [← Option.some.inj hg']
    exact hgs
  · rw [Store.groups_setGroup, if_neg hg] at hg'
    exact h g' gs' hg'

theorem counted_gidSetup (policy priority events : Int) (group : Option Groups.Gid) (elem : Bool) (h : Counted store) :
    Counted (speGidSetup policy priority events group elem store).2 ∧
      (speGidSetup policy priority events group elem store).2.threads = store.threads := by
  cases group with
  | none => exact ⟨h, rfl⟩
  | some g =>
    have hnew : Counted (store.setGroup g ⟨policy, priority, events, [], 0, false⟩) := h.setGroup rfl
    cases elem with
    | false => exact ⟨hnew, rfl⟩
    | true => exact ⟨hnew, rfl⟩

theorem counted_addThread {elem : Bool} {rc : Int} {store' : Store} (h : Counted store)
    (hadd : Groups.addThreadToGroup gid th elem store = some (rc, store')) :
    Counted store' ∧ store'.threads = store.threads := by
  unfold Groups.addThreadToGroup at hadd
  cases elem with
  | false =>
    cases hadd
    exact ⟨h, rfl⟩
  | true =>
    obtain ⟨g, -, hadd⟩ := Option.bind_eq_some_iff.mp hadd
    obtain ⟨gs, hgs, hadd⟩ := Option.bind_eq_some_iff.mp hadd
    cases hadd
    refine ⟨h.setGroup ?_, rfl⟩
    show gs.numListSize + 1 = ((th :: gs.grpMembers).length : Int)
    rw [h g gs hgs, List.length_cons]
    omega

theorem counted_removeGroup {g : Groups.Gid} {rc : Int} {store' : Store} (h : Counted store)
    (hrem : Groups.removeGroupFromGroups g store = some (rc, store')) :
    Counted store' ∧ store'.threads = store.threads ∧ store'.groups = store.groups := by
  obtain ⟨⟨rc', listStart⟩, -, hrem⟩ := Option.bind_eq_some_iff.mp hrem
  cases hrem
  exact ⟨h, rfl, rfl⟩

/-- A thread is on the list of its group once, and can be taken off it. -/
def Removable (gs : Groups.GroupStore) (th : Thread) : Prop :=
  gs.grpMembers.length = 1 ∨ gs.grpMembers.head? ≠ some th ∧ gs.grpMembers.count th ≤ 1

/-- An element is not left when one has been taken out if it was there once at most. -/
theorem not_mem_erase_iff {l : List Thread} : th ∉ l.erase th ↔ l.count th ≤ 1 := by
  rw [← List.count_eq_zero, List.count_erase_self]
  omega

/-- What `remove_thread_from_group` leaves of the thread. -/
theorem counted_removeThread {g : Groups.Gid} {rc : Int} {store' : Store} (h : Counted store)
    (hrem : Groups.removeThreadFromGroup (some g) th store = some (rc, store')) :
    Counted store' ∧ store'.threads = store.threads ∧
      ∃ gs, store.groups g = some gs ∧ (th ∉ members store' g ↔ Removable gs th) := by
  obtain ⟨gs, hgs, -⟩ := Option.bind_eq_some_iff.mp hrem
  have hsize := h g gs hgs
  -- after the list of the group has become `l`
  have hset {l : List Thread} (hlen : gs.numListSize - 1 = l.length) :
      Counted (store.setGroup g { gs with grpMembers := l, numListSize := gs.numListSize - 1 }) := h.setGroup hlen
  have hmembers {l : List Thread} {n : Int} : members (store.setGroup g
      { gs with grpMembers := l, numListSize := n }) g = l := by
    unfold members
    rw [Store.groups_setGroup, if_pos rfl]
    rfl
  rcases hl : gs.grpMembers with - | ⟨p, - | ⟨q, rest⟩⟩
  · -- the null pointer is followed
    simp [Groups.removeThreadFromGroup, hgs, hsize, hl] at hrem
  · rw [removeThreadFromGroup_single hgs hl hsize] at hrem
    cases hrem
    have hnil : gs.numListSize - 1 = (([] : List Thread).length : Int) := by
      rw [hsize, hl]
      rfl
    refine ⟨hset hnil, rfl, gs, hgs, ?_⟩
    have hgone : th ∉ members (store.setGroup g
        { gs with grpMembers := [], numListSize := gs.numListSize - 1 }) g := by
      rw [hmembers]
      exact List.not_mem_nil
    exact ⟨fun _ => .inl (by rw [hl]; rfl), fun _ => hgone⟩
  · rw [removeThreadFromGroup_many hgs hl (List.cons_ne_nil q rest) hsize] at hrem
    have hlen : ¬(p :: q :: rest).length = 1 := by simp
    have hhead : (p :: q :: rest).head? ≠ some th ↔ p ≠ th := by simp
    split at hrem
    · next hmem =>
      cases hrem
      have hpred : gs.numListSize - 1 = ((p :: (q :: rest).erase th).length : Int) := by
        have hcons : (p :: (q :: rest).erase th).length = ((q :: rest).erase th).length + 1 := List.length_cons
        rw [hsize, hl, hcons, List.length_erase_of_mem hmem, List.length_cons, List.length_cons]
        omega
      refine ⟨hset hpred, rfl, gs, hgs, ?_⟩
      rw [hmembers, Removable, hl, hhead, List.mem_cons, not_or, not_mem_erase_iff]
      constructor
      · rintro ⟨hne, hcount⟩
        refine .inr ⟨Ne.symm hne, ?_⟩
        rw [List.count_cons_of_ne (Ne.symm hne)]
        exact hcount
      · rintro (h | ⟨hne, hcount⟩)
        · exact absurd h hlen
        · rw [List.count_cons_of_ne hne] at hcount
          exact ⟨Ne.symm hne, hcount⟩
    · next hmem =>
      cases hrem
      refine ⟨h, rfl, gs, hgs, ?_⟩
      have hsame : members (store.setErrno .ESRCH) g = p :: q :: rest := by
        show (store.groups g).elim [] _ = _
        rw [hgs]
        exact hl
      rw [hsame, Removable, hl, hhead, List.mem_cons, not_or]
      constructor
      · rintro ⟨hne, -⟩
        refine .inr ⟨Ne.symm hne, ?_⟩
        rw [List.count_cons_of_ne (Ne.symm hne), List.count_eq_zero.mpr hmem]
        exact Nat.zero_le 1
      · rintro (h | ⟨hne, -⟩)
        · exact absurd h hlen
        · exact ⟨Ne.symm hne, hmem⟩

theorem counted_destroyGroup {rc : Int} {store' : Store} (h : Counted store)
    (hd : Groups.speDestroyGroup gid store = some (rc, store')) : Counted store' ∧ store'.threads = store.threads := by
  obtain ⟨g, -, hd⟩ := Option.bind_eq_some_iff.mp hd
  unfold Groups.srchGroup at hd
  split at hd
  · next hsrch =>
    split at hsrch
    · cases hsrch
    · cases hsrch
      cases hd
      exact ⟨h, rfl⟩
  · next hsrch =>
    split at hsrch
    · cases hsrch
      obtain ⟨gs, hgs, hd⟩ := Option.bind_eq_some_iff.mp hd
      obtain ⟨⟨rc', store₁⟩, hrem, hd⟩ := Option.bind_eq_some_iff.mp hd
      cases hd
      have hset : Counted (store.setGroup g { gs with deleteMe := true }) := h.setGroup (h g gs hgs)
      obtain ⟨hc, ht, -⟩ := counted_removeGroup hset hrem
      exact ⟨hc, ht⟩
    · cases hsrch

/-! ## Contexts -/

theorem held_insert (contexts : Finset Spe) (h : spe ∉ contexts) :
    s.held (insert spe contexts) = (s.records spe).owned spe true + s.held contexts := Finset.sum_insert h

theorem held_erase {contexts : Finset Spe} (h : spe ∈ contexts) :
    (s.records spe).owned spe true + s.held (contexts.erase spe) = s.held contexts :=
  Finset.add_sum_erase contexts (fun c => (s.records c).owned c true) h

/-- What the other contexts hold is not touched. -/
theorem Elsewhere.held (h : Elsewhere spe s s') {contexts : Finset Spe} (hc : spe ∉ contexts) :
    s'.held contexts = s.held contexts :=
  Finset.sum_congr rfl fun c hmem => by rw [h.records c (ne_of_mem_of_not_mem hmem hc)]

theorem Watched.In.elsewhere (hw : w.In s) (h : Elsewhere spe s s') : w.In s' where
  thread := by rw [h.store]; exact hw.thread
  spectx := by rw [h.spectx]; exact hw.spectx
  evPipe := by rw [h.evPipe]; exact hw.evPipe
  piped := by rw [h.piped]; exact hw.piped

/-- What is not a context's own. -/
theorem Kept.split (h : Kept s) (hc : spe ∈ s.contexts) :
    ∃ rest l, s.piped ≤ rest ∧ s.live = rest + s.held (s.contexts.erase spe) + (s.records spe).owned spe true ∧
      l.event = true ∧ l.others = rest + s.held (s.contexts.erase spe) ∧
      Ctx.Inv l spe (s.focus spe).withEvent := by
  obtain ⟨rest, hlive, hpiped⟩ := h.ledger
  have hothers : s.live = rest + s.held (s.contexts.erase spe) + (s.records spe).owned spe true := by
    rw [hlive, ← held_erase hc]
    abel
  obtain ⟨l, he, hl, hinv⟩ := Ctx.Fit.inv (s := s.focus spe) (h.fit spe hc) hothers
  exact ⟨rest, l, hpiped, hothers, he, hl, hinv⟩

theorem Kept.elsewhere (h : Kept s) (helse : Elsewhere spe s s')
    (hledger : ∃ rest, s'.live = rest + s'.held s.contexts ∧ s.piped ≤ rest)
    (hfit : spe ∈ s.contexts → Ctx.Fit spe (s'.records spe)) : Kept s' := by
  constructor
  · rw [helse.contexts, helse.piped]
    exact hledger
  · intro c hmem
    rw [helse.contexts] at hmem
    by_cases hcs : c = spe
    · subst hcs
      exact hfit hmem
    · rw [helse.records c hcs]
      exact h.fit c hmem
  · rw [helse.store, helse.spectx, helse.contexts]
    exact h.owner
  · rw [helse.store, helse.spectx]
    exact h.apart
  · rw [helse.store]
    exact h.counted

/-- **A program of the base layer** that keeps the invariant of its context. -/
theorem Kept.onContext (h : Kept s) (hc : spe ∈ s.contexts) {p : Ctx.Code α}
    (hp : ∀ l, Ctx.Inv l spe (s.focus spe).withEvent →
      Solo Ctx.machine () p (s.focus spe) fun _ _ x => Ctx.Inv l spe x.withEvent) :
    Solo machine () (onContext spe p) s fun tr _ s' =>
      (∀ e ∈ tr, e.1.Inside) ∧ Elsewhere spe s s' ∧ Kept s' := by
  obtain ⟨rest, l, hpiped, -, he, hl, hinv⟩ := h.split hc
  refine (onContext_spec (Q := fun _ x => Ctx.Inv l spe x.withEvent) (hp l hinv)).mono ?_
  rintro tr a s' ⟨hinside, helse, hinv'⟩
  refine ⟨hinside, helse, ?_⟩
  have howned : s'.live = rest + s.held (s.contexts.erase spe) + (s'.records spe).owned spe true := by
    have hlive : s'.live = l.others + (s'.records spe).owned spe l.event := hinv'.live
    rw [hlive, hl, he]
  refine h.elsewhere helse ⟨rest, ?_, hpiped⟩ fun _ => hinv'.fit he
  rw [← held_erase hc, helse.held (Finset.notMem_erase spe _), howned]
  abel

/-! ## Creating a thread -/

theorem Kept.newThread (h : Kept s) (hth : s.store.threads th = none) : Kept (s.newThread th gid) := by
  have hold {t : Thread} {c : Spe} (ht : (s.newThread th gid).store.threads t ≠ none)
      (hc : (s.newThread th gid).spectx t = some c) : s.store.threads t ≠ none ∧ s.spectx t = some c := by
    have hne : t ≠ th := by
      rintro rfl
      have hnone : (s.newThread t gid).spectx t = none := update_self ..
      rw [hnone] at hc
      cases hc
    have ht : (update s.store.threads th (some ⟨gid⟩)) t ≠ none := ht
    have hc : (update s.spectx th none) t = some c := hc
    rw [update_of_ne hne] at ht hc
    exact ⟨ht, hc⟩
  constructor
  · exact h.ledger
  · exact h.fit
  · intro t c ht hc
    obtain ⟨ht, hc⟩ := hold ht hc
    exact h.owner t c ht hc
  · intro t t' c ht ht' hc hc'
    obtain ⟨ht, hc⟩ := hold ht hc
    obtain ⟨ht', hc'⟩ := hold ht' hc'
    exact h.apart t t' c ht ht' hc hc'
  · exact h.counted

theorem Watched.In.newThread (hw : w.In s) (hth : s.store.threads th = none) :
    w.In (s.newThread th gid) ∧ w.th ≠ th := by
  have hne : w.th ≠ th := by
    rintro rfl
    exact hw.allocated hth
  exact ⟨⟨(update_of_ne hne ..).trans hw.thread, (update_of_ne hne ..).trans hw.spectx, hw.evPipe, hw.piped⟩, hne⟩

/-- A context that could not be created. -/
theorem Kept.unmade (h : Kept s) (hnew : spe ∉ s.contexts) (helse : Elsewhere spe s s')
    (hlive : s'.live = s.live) : Kept s' := by
  obtain ⟨rest, hrest, hpiped⟩ := h.ledger
  refine h.elsewhere helse ⟨rest, ?_, hpiped⟩ fun hmem => absurd hmem hnew
  rw [helse.held hnew, hlive, hrest]

/-- **A new context** is the thread's. -/
theorem Kept.setSpectx (h : Kept s) (hnew : spe ∉ s.contexts) (helse : Elsewhere spe s s')
    (hc : Ctx.Created spe (Ctx.contextFlags (speEventsEnable ||| flags)) (s.focus spe) (s'.focus spe)) :
    Kept (s'.setSpectx spe th) := by
  have hevents : (speEventsEnable ||| flags) &&& speEventsEnable ≠ 0 := by
    rw [Ctx.flags_or_and]
    exact fun h => absurd (UInt32.or_eq_zero_iff.mp h).1 (by decide)
  obtain ⟨hfit, hlive⟩ := hc.fit hevents
  obtain ⟨rest, hrest, hpiped⟩ := h.ledger
  have hself : (s'.setSpectx spe th).records spe = (s'.records spe).withoutEvent := update_self ..
  have hother {c : Spe} (hcs : c ≠ spe) : (s'.setSpectx spe th).records c = s.records c :=
    (update_of_ne hcs ..).trans (helse.records c hcs)
  have hcontexts : (s'.setSpectx spe th).contexts = insert spe s.contexts := by
    rw [← helse.contexts]
    rfl
  -- a context of a thread is the new one of this thread, or was there before
  have howner {t : Thread} {c : Spe} (ht : (s'.setSpectx spe th).store.threads t ≠ none)
      (hct : (s'.setSpectx spe th).spectx t = some c) :
      t = th ∧ c = spe ∨ t ≠ th ∧ s.store.threads t ≠ none ∧ s.spectx t = some c := by
    have ht : s.store.threads t ≠ none := helse.store ▸ ht
    have hct : (update s'.spectx th (some spe)) t = some c := hct
    rw [helse.spectx] at hct
    by_cases htt : t = th
    · rw [htt, update_self] at hct
      exact .inl ⟨htt, (Option.some.inj hct).symm⟩
    · rw [update_of_ne htt] at hct
      exact .inr ⟨htt, ht, hct⟩
  have hheld : (s'.setSpectx spe th).held s.contexts = s.held s.contexts :=
    Finset.sum_congr rfl fun c hmem => by rw [hother (ne_of_mem_of_not_mem hmem hnew)]
  constructor
  · refine ⟨rest, ?_, ?_⟩
    · rw [hcontexts, held_insert _ hnew, hheld, hself]
      have hlive : s'.live = s.live + (s'.records spe).withoutEvent.owned spe true := hlive
      show s'.live = _
      rw [hlive, hrest]
      abel
    · have hpiped' : (s'.setSpectx spe th).piped = s.piped := helse.piped
      rw [hpiped']
      exact hpiped
  · intro c hmem
    by_cases hcs : c = spe
    · subst hcs
      rw [hself]
      exact hfit
    · rw [hother hcs]
      rw [hcontexts] at hmem
      exact h.fit c ((Finset.mem_insert.mp hmem).resolve_left hcs)
  · intro t c ht hct
    rw [hcontexts]
    rcases howner ht hct with ⟨-, rfl⟩ | ⟨-, ht, hct⟩
    · exact Finset.mem_insert_self ..
    · exact Finset.mem_insert_of_mem (h.owner t c ht hct)
  · intro t t' c ht ht' hct hct'
    rcases howner ht hct with ⟨htt, hcs⟩ | ⟨-, hold, hcold⟩
    · rcases howner ht' hct' with ⟨htt', -⟩ | ⟨-, hold', hcold'⟩
      · exact htt.trans htt'.symm
      · exact absurd (h.owner t' c hold' hcold') (hcs ▸ hnew)
    · rcases howner ht' hct' with ⟨-, hcs⟩ | ⟨-, hold', hcold'⟩
      · exact absurd (h.owner t c hold hcold) (hcs ▸ hnew)
      · exact h.apart t t' c hold hold' hcold hcold'
  · rw [show (s'.setSpectx spe th).store = s.store from helse.store]
    exact h.counted

theorem Watched.In.setSpectx (hw : w.In s) (hne : w.th ≠ th) : w.In (s.setSpectx spe th) :=
  ⟨hw.thread, (update_of_ne hne ..).trans hw.spectx, hw.evPipe, hw.piped⟩

/-- The pipe of a context is among those that have been opened, if there is one. -/
def Piped (s : World) (spe : Spe) : Prop :=
  s.evPipe spe = (-1, -1) ∨ 0 ≤ (s.evPipe spe).1 ∧ .fd (s.evPipe spe).1 ∈ s.piped

theorem Kept.setEvPipe (h : Kept s) (fds : Fd × Fd) : Kept (s.setEvPipe spe fds) :=
  ⟨h.ledger, h.fit, h.owner, h.apart, h.counted⟩

theorem Watched.In.setEvPipe (hw : w.In s) (hne : w.spe ≠ spe) (fds : Fd × Fd) : w.In (s.setEvPipe spe fds) :=
  ⟨hw.thread, hw.spectx, (update_of_ne hne ..).trans hw.evPipe, hw.piped⟩

theorem Kept.newPipe (h : Kept s) (r w : Fd) : Kept (s.newPipe spe r w) := by
  obtain ⟨rest, hlive, hpiped⟩ := h.ledger
  refine ⟨⟨{.fd r, .fd w} + rest, ?_, ?_⟩, h.fit, h.owner, h.apart, h.counted⟩
  · show {.fd r, .fd w} + s.live = {.fd r, .fd w} + rest + s.held s.contexts
    rw [hlive, add_assoc]
  · exact add_le_add_right hpiped _

theorem Watched.In.newPipe (hw : w.In s) (hne : w.spe ≠ spe) (r wr : Fd) : w.In (s.newPipe spe r wr) where
  thread := hw.thread
  spectx := hw.spectx
  evPipe := (update_of_ne hne ..).trans hw.evPipe
  piped := hw.piped.trans (Multiset.le_add_left ..)

/-- `registerImage` gives back the descriptor that it opens. -/
theorem keeps_registerImage {l : Ctx.Life} {p : Ctx.Proc} (hp : Ctx.Inv l spe p.withEvent) :
    Solo Ctx.machine () (registerImage handle) p fun _ _ p' => Ctx.Inv l spe p'.withEvent := by
  have hkeeps : Ctx.CtxKeeps l spe (registerImage handle) := by
    refine Ctx.keeps_base.bind fun priv _ => ?_
    intro x hx
    refine Ctx.post_openat.bind ?_
    rintro (e | fd) x₁ rfl
    · exact .ret ⟨hx, trivial⟩
    · refine Ctx.post_writeClose (f := .ret) fun r => .ret ⟨?_, trivial⟩
      exact (hx.same Ctx.same_setFile).same Ctx.same_noteWrite
  have hbare : (registerImage handle).All Ctx.Cmd.Bare := by
    refine .bind (.perform trivial) fun priv => .bind (.perform trivial) fun r => ?_
    split
    · trivial
    · exact .bind (.perform trivial) fun _ => .perform trivial
  exact Ctx.keeps_bare hkeeps hbare hp

/-- The thread has this context. -/
structure Owns (s : World) (th : Thread) (spe : Spe) : Prop where
  allocated : s.store.threads th ≠ none
  spectx : s.spectx th = some spe

theorem Owns.context (ho : Owns s th spe) (h : Kept s) : spe ∈ s.contexts := h.owner th spe ho.allocated ho.spectx

theorem Owns.elsewhere (ho : Owns s th spe) {c : Spe} (h : Elsewhere c s s') : Owns s' th spe where
  allocated := by rw [h.store]; exact ho.allocated
  spectx := by rw [h.spectx]; exact ho.spectx

theorem Owns.setStore (ho : Owns s th spe) (ht : store.threads = s.store.threads) : Owns (s.setStore store) th spe where
  allocated := by
    show store.threads th ≠ none
    rw [ht]
    exact ho.allocated
  spectx := ho.spectx

/-- Another thread has another context. -/
theorem Watched.In.spe_ne (hw : w.In s) (h : Kept s) (ho : Owns s th spe) (hne : w.th ≠ th) : w.spe ≠ spe := by
  rintro rfl
  exact hne (h.apart w.th th w.spe hw.allocated ho.allocated hw.spectx ho.spectx)

theorem Piped.elsewhere {c : Spe} (hp : Piped s spe) (h : Elsewhere c s s') : Piped s' spe := by
  unfold Piped
  rw [h.evPipe, h.piped]
  exact hp

theorem openEvPipe_spec (h : Kept s) (ho : Owns s th spe) :
    Solo machine () (openEvPipe spe) s fun _ _ s' => Kept s' ∧ Owns s' th spe ∧ Piped s' spe ∧
      s'.contexts = s.contexts ∧ ∀ w : Watched, w.In s → w.th ≠ th → w.In s' := by
  apply Solo.perform
  intro r s₁ hs₁
  rcases r with e | ⟨r, wr⟩
  · cases hs₁
    apply Solo.cmd
    intro _ s₂ hs₂
    cases hs₂
    refine Solo.ret ⟨h.setEvPipe _, ⟨ho.allocated, ho.spectx⟩, ?_, rfl, ?_⟩
    · exact .inl (update_self ..)
    · exact fun w hw hne => hw.setEvPipe (hw.spe_ne h ho hne) _
  · obtain ⟨⟨hr, -, -⟩, rfl⟩ := of_guard hs₁
    refine Solo.ret ⟨h.newPipe r wr, ⟨ho.allocated, ho.spectx⟩, ?_, rfl, ?_⟩
    · have hself : (s.newPipe spe r wr).evPipe spe = (r, wr) := update_self ..
      unfold Piped
      rw [hself]
      exact .inr ⟨hr.1, Multiset.mem_add.mpr (.inl (Multiset.mem_cons_self ..))⟩
    · exact fun w hw hne => hw.newPipe (hw.spe_ne h ho hne) r wr

/-- What a call that creates a thread leads to. -/
structure Yields (s : World) (r : Option Thread) (s' : World) : Prop where
  kept : Kept s'
  watched : ∀ w : Watched, w.In s → w.In s'
  result : ∀ t, r = some t → ∃ c, c ∉ s.contexts ∧ Owns s' t c ∧ Piped s' c

theorem finishSetup_yields (h : Kept s) (ho : Owns s th spe) :
    Solo machine () (finishSetup gid th spe handle) s fun _ r s' => Kept s' ∧
      (∀ w : Watched, w.In s → w.th ≠ th → w.In s') ∧ ∀ t, r = some t → Owns s' t spe ∧ Piped s' spe := by
  apply Solo.bind
  refine (h.onContext (ho.context h) fun l => Ctx.keeps_load).mono ?_
  rintro _ rc s₁ ⟨-, helse, h₁⟩
  have ho₁ := ho.elsewhere helse
  split
  · exact Solo.ret ⟨h₁, fun w hw _ => hw.elsewhere helse, nofun⟩
  apply Solo.bind
  refine (openEvPipe_spec h₁ ho₁).mono ?_
  rintro _ _ s₂ ⟨h₂, ho₂, hp₂, -, hw₂⟩
  apply Solo.perform
  intro elem s₃ hs₃
  obtain ⟨⟨rc', store⟩, hadd, hs₃⟩ := Option.bind_eq_some_iff.mp hs₃
  cases hs₃
  obtain ⟨hcounted, hthreads⟩ := counted_addThread h₂.counted hadd
  have h₃ : Kept (s₂.setStore store) := h₂.setStore hthreads hcounted
  have ho₃ : Owns (s₂.setStore store) th spe := ho₂.setStore hthreads
  apply Solo.bind
  refine (h₃.onContext (ho₃.context h₃) fun l => keeps_registerImage).mono ?_
  rintro _ _ s₄ ⟨-, helse₄, h₄⟩
  apply Solo.ret
  refine ⟨h₄, ?_, ?_⟩
  · intro w hw hne
    exact ((hw₂ w (hw.elsewhere helse) hne).setStore hthreads).elsewhere helse₄
  · rintro t ⟨⟩
    have hp₃ : Piped (s₂.setStore store) spe := hp₂
    exact ⟨ho₃.elsewhere helse₄, hp₃.elsewhere helse₄⟩

theorem setupThread_yields (h : Kept s) : Solo machine () (setupThread gid handle flags) s fun _ => Yields s := by
  apply Solo.perform
  intro r s₁ hs₁
  cases r with
  | none =>
    cases hs₁
    apply Solo.perform
    intro _ s₂ hs₂
    cases hs₂
    exact Solo.ret ⟨h.setStore rfl h.counted, fun w hw => hw.setStore rfl, nofun⟩
  | some th =>
    obtain ⟨hth, rfl⟩ := of_guard hs₁
    have h₁ : Kept (s.newThread th gid) := h.newThread hth
    apply Solo.perform
    intro spe s₂ hs₂
    obtain ⟨hnew, rfl⟩ := of_guard hs₂
    apply Solo.bind
    refine create_spec.mono ?_
    rintro _ created s₃ ⟨-, helse, hcreated⟩
    obtain ⟨rfl, hlive⟩ | ⟨rfl, hc⟩ := hcreated
    · refine Solo.ret ⟨h₁.unmade hnew helse hlive, ?_, nofun⟩
      exact fun w hw => (hw.newThread hth).1.elsewhere helse
    · apply Solo.perform
      intro _ s₄ hs₄
      cases hs₄
      have h₄ : Kept (s₃.setSpectx spe th) := h₁.setSpectx hnew helse hc
      have ho₄ : Owns (s₃.setSpectx spe th) th spe := by
        constructor
        · have hself : (s.newThread th gid).store.threads th = some ⟨gid⟩ := update_self ..
          show s₃.store.threads th ≠ none
          rw [helse.store, hself]
          exact Option.some_ne_none _
        · exact update_self ..
      refine (finishSetup_yields h₄ ho₄).mono ?_
      rintro _ r s₅ ⟨h₅, hw₅, hr⟩
      refine ⟨h₅, ?_, ?_⟩
      · intro w hw
        have hold : w.In (s.newThread th gid) ∧ w.th ≠ th := hw.newThread hth
        obtain ⟨hw₁, hne⟩ := hold
        exact hw₅ w ((hw₁.elsewhere helse).setSpectx hne) hne
      · intro t ht
        exact ⟨spe, hnew, hr t ht⟩

theorem Yields.before {r : Option Thread} (h : Yields s₁ r s') (hc : s₁.contexts = s.contexts)
    (hw : ∀ w : Watched, w.In s → w.In s₁) : Yields s r s' where
  kept := h.kept
  watched w hin := h.watched w (hw w hin)
  result := by
    rw [← hc]
    exact h.result

/-- Nothing but what is stored of the groups has changed, and no thread is returned. -/
theorem Yields.refused (h : Kept s) (ht : store.threads = s.store.threads) (hc : Counted store) :
    Yields s none (s.setStore store) :=
  ⟨h.setStore ht hc, fun _ hw => hw.setStore ht, nofun⟩

theorem speSetup_yields (h : Kept s) : Solo machine () (speSetup gid handle flags) s fun _ => Yields s := by
  cases gid with
  | none =>
    apply Solo.perform
    rintro ⟨group, elem⟩ s₁ hs₁
    obtain ⟨-, rfl⟩ := of_guard hs₁
    obtain ⟨hcounted, hthreads⟩ := counted_gidSetup s.store.defaultPolicy s.store.defaultPriority
      s.store.defaultEventmask group elem h.counted
    refine (setupThread_yields (h.setStore hthreads hcounted)).mono fun _ r s' hy => ?_
    exact hy.before rfl fun w hw => hw.setStore hthreads
  | some g =>
    apply Solo.perform
    intro n s₁ hs₁
    obtain ⟨gs, -, hs₁⟩ := Option.bind_eq_some_iff.mp hs₁
    obtain ⟨-, rfl⟩ := of_guard hs₁
    split
    · apply Solo.perform
      intro _ s₂ hs₂
      cases hs₂
      exact Solo.ret (.refused h rfl h.counted)
    · exact setupThread_yields h

theorem createThread_yields (h : Kept s) {mask : Nat} :
    Solo machine () (createThread gid handle mask flags) s fun _ => Yields s := by
  apply Solo.perform
  intro entries s₁ hs₁
  cases hs₁
  split
  · apply Solo.perform
    intro _ s₂ hs₂
    cases hs₂
    exact Solo.ret (.refused h rfl h.counted)
  · apply Solo.bind
    refine (speSetup_yields h).mono fun _ r s₂ hy => ?_
    cases r with
    | none =>
      apply Solo.perform
      intro _ s₃ hs₃
      cases hs₃
      have hw₃ (w : Watched) (hw : w.In s) : w.In (s₂.setStore (s₂.store.setErrno .EINVAL)) :=
        (hy.watched w hw).setStore rfl
      exact Solo.ret ⟨hy.kept.setStore rfl hy.kept.counted, hw₃, nofun⟩
    | some th =>
      apply Solo.perform
      intro rc s₃ hs₃
      cases hs₃
      apply Solo.ret
      refine ⟨hy.kept, hy.watched, ?_⟩
      split
      · nofun
      · exact hy.result

/-- **Creating** a thread keeps the invariant, and what was there stays. -/
theorem speCreateThread_yields (h : Kept s) {handle : Option ProgramHandle} {argp : Bool} {mask : Nat} :
    Solo machine () (speCreateThread gid handle argp mask flags) s fun _ => Yields s := by
  have hrefused : Solo machine () (do
      perform (.setErrno .EINVAL)
      return (none : Option Thread)) s fun _ => Yields s := by
    apply Solo.perform
    intro _ s₁ hs₁
    cases hs₁
    exact Solo.ret (.refused h rfl h.counted)
  cases handle with
  | none => exact hrefused
  | some handle =>
    unfold speCreateThread
    dsimp only
    split
    · exact hrefused
    cases gid with
    | none => exact createThread_yields h
    | some g =>
      apply Solo.perform
      intro found s₁ hs₁
      obtain ⟨-, rfl⟩ := of_guard hs₁
      have hsame : Counted (Groups.srchGroup g s.store).2 ∧
          (Groups.srchGroup g s.store).2.threads = s.store.threads := by
        unfold Groups.srchGroup
        split <;> exact ⟨h.counted, rfl⟩
      cases found with
      | true =>
        refine (createThread_yields (h.setStore hsame.2 hsame.1)).mono fun _ r s' hy => ?_
        exact hy.before rfl fun w hw => hw.setStore hsame.2
      | false => exact Solo.ret (.refused h hsame.2 hsame.1)

/-! ## Waiting for a thread -/

/-- What a context holds with an event record and without. -/
theorem owned_event (p : Ctx.Proc) : p.owned spe true = p.owned spe false + p.pipeFds spe := by
  unfold Ctx.Proc.owned
  simp

/-- What `spe_cleanup` leads to. -/
structure Cleaned (th : Thread) (s s' : World) : Prop where
  kept : Kept s'
  watched : ∀ w : Watched, w.In s → w.th ≠ th → w.In s'
  context : ∀ c, s.spectx th = some c → c ∉ s'.contexts ∧ s'.live + (s.records c).owned c false = s.live
  piped : s.piped ≤ s'.live
  member : ∃ g gs, s.store.threads th = some ⟨some g⟩ ∧ s.store.groups g = some gs ∧
    (th ∉ members s'.store g ↔ Removable gs th)

theorem speCleanup_cleaned (h : Kept s) : Solo machine () (speCleanup th) s fun _ _ => Cleaned th s := by
  apply Solo.perform
  intro spe s₁ hs₁
  obtain ⟨⟨hth, hspe⟩, rfl⟩ := of_guard hs₁
  have ho : Owns s th spe := ⟨hth, hspe⟩
  obtain ⟨rest, l, hpiped, hlive, he, hl, hinv⟩ := h.split (ho.context h)
  apply Solo.bind
  refine (onContext_spec (hinv.destroy he)).mono ?_
  rintro _ _ s₂ ⟨-, helse, hlive₂⟩
  have hlive₂ : s₂.live = rest + s.held (s.contexts.erase spe) + (s.records spe).pipeFds spe := by
    rw [← hl]
    exact hlive₂
  apply Solo.perform
  intro _ s₃ hs₃
  cases hs₃
  apply Solo.perform
  intro gid s₄ hs₄
  obtain ⟨hgid, rfl⟩ := of_guard hs₄
  have hgid : s.store.threads th = some ⟨gid⟩ := helse.store ▸ hgid
  apply Solo.perform
  intro _ s₅ hs₅
  obtain ⟨⟨rc, store⟩, hrem, hs₅⟩ := Option.bind_eq_some_iff.mp hs₅
  cases hs₅
  have hrem : Groups.removeThreadFromGroup gid th s.store = some (rc, store) := helse.store ▸ hrem
  obtain ⟨g, rfl, -⟩ := Option.bind_eq_some_iff.mp hrem
  obtain ⟨hcounted, hthreads, gs, hgs, hgone⟩ := counted_removeThread h.counted hrem
  apply Solo.cmd
  intro _ s₆ hs₆
  cases hs₆
  apply Solo.ret
  have hold {t : Thread} (ht : (store.freeThread th).threads t ≠ none) : t ≠ th ∧ s.store.threads t ≠ none := by
    have ht : (update store.threads th none) t ≠ none := ht
    by_cases htt : t = th
    · rw [htt, update_self] at ht
      exact absurd rfl ht
    · rw [update_of_ne htt, hthreads] at ht
      exact ⟨htt, ht⟩
  have hcontexts : (s₂.freeContext spe).contexts = s.contexts.erase spe := by
    rw [← helse.contexts]
    rfl
  constructor
  · constructor
    · refine ⟨rest + (s.records spe).pipeFds spe, ?_, ?_⟩
      · show s₂.live = _ + s₂.held (s₂.freeContext spe).contexts
        rw [hcontexts, helse.held (Finset.notMem_erase spe _), hlive₂]
        abel
      · show s₂.piped ≤ _
        rw [helse.piped]
        exact hpiped.trans (Multiset.le_add_right ..)
    · intro c hmem
      have hmem : c ∈ s.contexts.erase spe := hcontexts ▸ hmem
      obtain ⟨hne, hmem⟩ := Finset.mem_erase.mp hmem
      show Ctx.Fit c (s₂.records c)
      rw [helse.records c hne]
      exact h.fit c hmem
    · intro t c ht hct
      obtain ⟨hne, hthread⟩ := hold ht
      have hcold : s.spectx t = some c := helse.spectx ▸ hct
      have hcs : c ≠ spe := by
        rintro rfl
        exact hne (h.apart t th c hthread hth hcold hspe)
      show c ∈ (s₂.freeContext spe).contexts
      rw [hcontexts]
      exact Finset.mem_erase.mpr ⟨hcs, h.owner t c hthread hcold⟩
    · intro t t' c ht ht' hct hct'
      exact h.apart t t' c (hold ht).2 (hold ht').2 (helse.spectx ▸ hct) (helse.spectx ▸ hct')
    · exact hcounted
  · intro w hw hne
    have hw₂ := hw.elsewhere helse
    refine ⟨?_, hw₂.spectx, hw₂.evPipe, hw₂.piped⟩
    show (update store.threads th none) w.th = _
    rw [update_of_ne hne, hthreads]
    exact hw.thread
  · intro c hc
    obtain rfl := Option.some.inj (hspe.symm.trans hc)
    constructor
    · show spe ∉ (s₂.freeContext spe).contexts
      rw [hcontexts]
      exact Finset.notMem_erase spe _
    · show s₂.live + _ = _
      rw [hlive₂, hlive, owned_event]
      abel
  · show s.piped ≤ s₂.live
    rw [hlive₂, add_assoc]
    exact hpiped.trans (Multiset.le_add_right ..)
  · exact ⟨g, gs, hgid, hgs, hgone⟩

/-- The call has joined the thread. -/
def Joined (th : Thread) (tr : List (Sigma Ans)) : Prop := ⟨.pthreadJoin th, (0 : Int)⟩ ∈ tr

/-- With `WNOHANG` the call has found that the thread has not ended. -/
def AtOnce (th : Thread) (options : UInt32) (tr : List (Sigma Ans)) : Prop :=
  options &&& wnohang ≠ 0 ∧ ∃ n : Int, n ≠ 99 ∧ ⟨.threadStatus th, n⟩ ∈ tr

/-- What a call leads to. -/
structure Goes (s : World) (tr : List (Sigma Ans)) (s' : World) : Prop where
  kept : Kept s'
  watched : ∀ w : Watched, w.In s → ¬Joined w.th tr → w.In s'

/-- The commands of `spe_cleanup`. -/
def Cmd.Cleaning : Cmd → Prop
  | .threadStatus _ => False
  | _ => True

theorem speCleanup_cleaning : (speCleanup th).All Cmd.Cleaning := by
  apply Prog.All.bind (.perform trivial)
  intro spe
  have hdestroy : (onContext spe (Ctx.baseSpeContextDestroy spe)).All Cmd.Cleaning :=
    (Prog.all_true _).interp fun _ _ => .perform trivial
  apply hdestroy.bind
  intro _
  apply Prog.All.bind (.perform trivial)
  intro _
  apply Prog.All.bind (.perform trivial)
  intro gid
  exact .bind (.perform trivial) fun _ => .perform trivial

/-- What the call that waits for a thread leads to once it does wait. -/
structure Joins (th : Thread) (s : World) (tr : List (Sigma Ans)) (rc : Int) (s' : World) : Prop extends
    Goes s tr s' where
  cleaned : rc = 0 → Cleaned th s s'
  cleaning : ∀ e ∈ tr, e.1.Cleaning

theorem joinThread_joins (h : Kept s) : Solo machine () (joinThread th) s fun tr rc s' => Joins th s tr rc s' := by
  apply Solo.perform
  intro rc s₁ hs₁
  cases hs₁
  split
  · next hrc => exact Solo.ret ⟨⟨h, fun _ hw _ => hw⟩, nofun, by simp [Cmd.Cleaning]⟩
  · next hrc =>
    have hrc : rc = (0 : Int) := not_not.mp hrc
    subst hrc
    apply Solo.bind
    intro tr _ s₂ hends hplay
    have hc := speCleanup_cleaned h tr _ s₂ hends hplay
    have hclean := speCleanup_cleaning.ends hends
    apply Solo.ret
    refine ⟨⟨hc.kept, ?_⟩, fun _ => hc, ?_⟩
    · intro w hw hjoin
      refine hc.watched w hw ?_
      rintro rfl
      exact hjoin (List.mem_cons_self ..)
    · rw [List.append_nil]
      exact List.forall_mem_cons.mpr ⟨trivial, hclean⟩

/-- **Waiting**: a call that returns 0 did so at once, or has cleaned up. -/
structure Waits (th : Thread) (options : UInt32) (s : World) (tr : List (Sigma Ans)) (rc : Int) (s' : World) :
    Prop extends Goes s tr s' where
  result : rc = 0 → AtOnce th options tr ∧ s'.contexts = s.contexts ∨ ¬AtOnce th options tr ∧ Cleaned th s s'

theorem Joins.waits {rc n : Int} {options : UInt32} {e : List (Sigma Ans)} (h : Joins th s tr rc s')
    (hn : ¬(options &&& wnohang ≠ 0 ∧ n ≠ 99)) (he : ∀ x ∈ e, ∀ m : Int, x ≠ ⟨.threadStatus th, m⟩) :
    Waits th options s (⟨.srchThread th, true⟩ :: ⟨.threadStatus th, n⟩ :: (e ++ tr)) rc s' where
  kept := h.kept
  watched w hw hjoin := by
    apply h.watched w hw
    intro hmem
    apply hjoin
    exact List.mem_cons_of_mem _ (List.mem_cons_of_mem _ (List.mem_append_right _ hmem))
  result hrc := by
    refine .inr ⟨?_, h.cleaned hrc⟩
    rintro ⟨hopt, m, hm, hmem⟩
    rcases List.mem_cons.mp hmem with heq | hmem
    · cases heq
    rcases List.mem_cons.mp hmem with heq | hmem
    · cases heq
      exact hn ⟨hopt, hm⟩
    rcases List.mem_append.mp hmem with hmem | hmem
    · exact he _ hmem m rfl
    · exact (h.cleaning _ hmem).elim

theorem speWait_waits (h : Kept s) {status : Bool} {options : UInt32} :
    Solo machine () (speWait th status options) s fun tr rc s' => Waits th options s tr rc s' := by
  apply Solo.perform
  intro found s₁ hs₁
  obtain ⟨⟨th', store⟩, hsrch, hs₁⟩ := Option.bind_eq_some_iff.mp hs₁
  obtain ⟨hfound, rfl⟩ := of_guard hs₁
  obtain ⟨hit, -, hsrch⟩ := Option.bind_eq_some_iff.mp hsrch
  cases hit with
  | false =>
    cases hsrch
    cases hfound
    exact Solo.ret ⟨⟨h.setStore rfl h.counted, fun _ hw _ => hw.setStore rfl⟩, nofun⟩
  | true =>
    cases hsrch
    cases hfound
    apply Solo.perform
    intro n s₂ hs₂
    obtain ⟨-, rfl⟩ := of_guard hs₂
    split
    · next hnow =>
      apply Solo.perform
      intro _ s₃ hs₃
      obtain ⟨-, rfl⟩ := of_guard hs₃
      refine Solo.ret ⟨⟨h, fun _ hw _ => hw⟩, fun _ => .inl ⟨⟨hnow.1, n, hnow.2, ?_⟩, rfl⟩⟩
      exact List.mem_cons_of_mem _ (List.mem_cons_self ..)
    · next hnow =>
      split
      · apply Solo.perform
        intro _ s₃ hs₃
        obtain ⟨-, rfl⟩ := of_guard hs₃
        refine (joinThread_joins h).mono fun tr rc s' hj => ?_
        exact hj.waits (e := [⟨.storeStatus status, ()⟩]) hnow (by simp)
      · exact (joinThread_joins h).mono fun tr rc s' hj => hj.waits (e := []) hnow (by simp)

/-! ## Every call -/

/-- A call that has to do with groups only. -/
theorem Goes.setStore (h : Kept s) (hstore : Counted store ∧ store.threads = s.store.threads) :
    Goes s tr (s.setStore store) :=
  ⟨h.setStore hstore.2 hstore.1, fun _ hw _ => hw.setStore hstore.2⟩

/-- **Every call** keeps the invariant, and what only a wait for the thread changes. -/
theorem call_goes (h : Kept s) (c : Call) : Solo machine () c.code s fun tr _ s' => Goes s tr s' := by
  cases c with
  | createThread gid handle argp mask flags =>
    apply Solo.bind
    refine (speCreateThread_yields h).mono fun tr r s₁ hy => ?_
    exact Solo.ret ⟨hy.kept, fun w hw _ => hy.watched w hw⟩
  | wait speid status options =>
    apply Solo.bind
    refine (speWait_waits h).mono fun tr rc s₁ hw => ?_
    apply Solo.ret
    rw [List.append_nil]
    exact hw.toGoes
  | createGroup policy priority useEvents =>
    apply Solo.perform
    rintro ⟨group, elem⟩ s₁ hs₁
    obtain ⟨-, rfl⟩ := of_guard hs₁
    apply Solo.ret
    apply Goes.setStore h
    unfold Groups.speCreateGroup
    split
    · exact counted_gidSetup policy priority useEvents group elem h.counted
    · exact ⟨h.counted, rfl⟩
  | groupDefaults policy priority speEvents =>
    apply Solo.cmd
    intro _ s₁ hs₁
    cases hs₁
    apply Solo.ret
    apply Goes.setStore h
    unfold Groups.speGroupDefaults
    split
    · exact ⟨h.counted, rfl⟩
    · exact ⟨h.counted, rfl⟩
  | destroyGroup gid =>
    apply Solo.cmd
    intro _ s₁ hs₁
    obtain ⟨⟨rc, store⟩, hd, hs₁⟩ := Option.bind_eq_some_iff.mp hs₁
    cases hs₁
    apply Solo.ret
    exact Goes.setStore h (counted_destroyGroup h.counted hd)
  | use th u =>
    apply Solo.perform
    intro spe s₁ hs₁
    obtain ⟨⟨hth, hspe⟩, rfl⟩ := of_guard hs₁
    have hc : spe ∈ s.contexts := h.owner th spe hth hspe
    refine (h.onContext hc fun l => Ctx.keeps_use).mono ?_
    rintro tr _ s' ⟨-, helse, h'⟩
    exact ⟨h', fun w hw _ => hw.elsewhere helse⟩

end LibSpe2.Spe12.Threads
