import LibSpe2.Spe12.GroupMembers

/-!
# Asking about groups (`libspe12/spethreads.c`)

The calls that ask for the members of a group, for the group of a thread, and for the policy and the priority of a
group, and the one that sets the priority, beside the calls that make groups and threads.

* `speGetThreads`, `speGetGroup`, `speGetPriority`, `speGetPolicy`, `speSetPriority` — the functions; each is `none`
  where it follows a null pointer.
* `Lawful` — what the calls answer in a state.
* `Request`, `Fair` — the calls of a run, with the condition on each of them.
* `Priced` — the policies and the priorities have been checked, which every call preserves.

Main result: `queries_lawful`.
-/

namespace LibSpe2.Spe12.Groups

open Function (update)

/-! ## The code -/

/-- The loop of `spe_get_threads`: the members from the first element on. -/
def copyMembers : (n : Nat) → List Thread → Option (List Thread)
  | 0, _ => some []
  | _ + 1, [] => none
  | n + 1, t :: rest => (copyMembers n rest).map (t :: ·)

/-- `speIds` is whether this pointer is not null; the result, and what is stored to the array. -/
def speGetThreads (gid : Option Gid) (speIds : Bool) (s : Store) : Option (Int × List Thread × Store) :=
  if ∃ g ∈ gid, (srchGroup g s).1 = none then
    some (-1, [], s.setErrno .ESRCH)
  else do
    let g ← gid
    let group ← s.groups g
    if speIds = false then
      return (group.numListSize, [], s)
    else
      let ids ← copyMembers group.numListSize.toNat group.grpMembers
      return (ids.length, ids, s)

def speGetPriority (gid : Option Gid) (s : Store) : Option (Int × Store) :=
  if ∃ g ∈ gid, (srchGroup g s).1 = none then
    some (-1, s.setErrno .ESRCH)
  else do
    let g ← gid
    let group ← s.groups g
    return (group.priority, s)

/-- The policy is read before the group is looked up. -/
def speSetPriority (gid : Option Gid) (priority : Int) (s : Store) : Option (Int × Store) := do
  let g ← gid
  let group ← s.groups g
  if checkPriority group.policy priority = false then
    return (-1, s.setErrno .EINVAL)
  else if (srchGroup g s).1 = none then
    return (-1, s.setErrno .ESRCH)
  else
    return (0, s.setGroup g { group with priority })

def speGetPolicy (gid : Option Gid) (s : Store) : Option (Int × Store) :=
  if ∃ g ∈ gid, (srchGroup g s).1 = none then
    some (-1, s.setErrno .ESRCH)
  else do
    let g ← gid
    let group ← s.groups g
    return (group.policy, s)

/-- The result is a null pointer if the thread is not found. -/
def speGetGroup (speid : Thread) (s : Store) : Option (Option Gid × Store) := do
  match ← srchThread speid s with
  | (none, s) => return (none, s)
  | (some _, s) =>
    let thread ← s.threads speid
    return (thread.groupId, s)

/-! ## Requests -/

inductive Request where
  | call (c : Call)
  | speGetThreads (gid : Option Gid) (speIds : Bool)
  | speGetPriority (gid : Option Gid)
  | speSetPriority (gid : Option Gid) (priority : Int)
  | speGetPolicy (gid : Option Gid)
  | speGetGroup (speid : Thread)
  deriving DecidableEq

def Request.exec (w : State) : Request → Option State
  | call c => c.exec w
  | speGetThreads gid speIds => (Groups.speGetThreads gid speIds w.store).map fun r => ⟨r.2.2, w.alive⟩
  | speGetPriority gid => (Groups.speGetPriority gid w.store).map fun r => ⟨r.2, w.alive⟩
  | speSetPriority gid priority => (Groups.speSetPriority gid priority w.store).map fun r => ⟨r.2, w.alive⟩
  | speGetPolicy gid => (Groups.speGetPolicy gid w.store).map fun r => ⟨r.2, w.alive⟩
  | speGetGroup speid => (Groups.speGetGroup speid w.store).map fun r => ⟨r.2, w.alive⟩

def run (w : State) : List Request → Option State
  | [] => some w
  | r :: reqs => (r.exec w).bind fun w' => run w' reqs

/-- A call that can be made and keeps the members right, a request for a group that there is or was. -/
def Request.Fair (w : State) : Request → Prop
  | call c => c.Possible w ∧ c.Keeps w
  | speGetThreads gid _ | speGetPriority gid | speGetPolicy gid => gid ≠ none
  | speSetPriority gid _ => ∃ g ∈ gid, w.store.groups g ≠ none
  | speGetGroup _ => True

/-- Each request of a run is fair in the state in which it is made. -/
def Fair (w : State) : List Request → Prop
  | [] => True
  | r :: reqs => r.Fair w ∧ ∀ w', r.exec w = some w' → Fair w' reqs

/-! ## The law -/

/-- **The law**: the queries name each member of a group once and the group of each member, and agree; a group has
a policy and a priority that goes with it. -/
structure Lawful (w : State) : Prop where
  threads : ∀ g ∈ w.store.listStart, ∃ ids : List Thread,
    speGetThreads (some g) true w.store = some ((ids.length : Int), ids, w.store) ∧
    speGetThreads (some g) false w.store = some ((ids.length : Int), [], w.store) ∧ ids.Nodup ∧
      ∀ t, t ∈ ids ↔ speGetGroup t w.store = some (some g, w.store)
  group : ∀ t, w.alive t = true → ∃ g ∈ w.store.listStart, speGetGroup t w.store = some (some g, w.store)
  gone : ∀ t, w.alive t = false → speGetGroup t w.store = some (none, w.store.setErrno .ESRCH)
  schedule : ∀ g ∈ w.store.listStart, ∃ policy priority, speGetPolicy (some g) w.store = some (policy, w.store) ∧
    speGetPriority (some g) w.store = some (priority, w.store) ∧ checkPriority policy priority = true
  reprice : ∀ g ∈ w.store.listStart, ∀ policy, speGetPolicy (some g) w.store = some (policy, w.store) → ∀ priority,
    if checkPriority policy priority then
      ∃ s, speSetPriority (some g) priority w.store = some (0, s) ∧
        speGetPriority (some g) s = some (priority, s) ∧ speGetPolicy (some g) s = some (policy, s) ∧
        ∀ g' ∈ w.store.listStart, g' ≠ g → ∀ p, speGetPriority (some g') w.store = some (p, w.store) →
          speGetPriority (some g') s = some (p, s)
    else speSetPriority (some g) priority w.store = some (-1, w.store.setErrno .EINVAL)
  unlisted : ∀ g ∉ w.store.listStart, ∀ speIds,
    speGetThreads (some g) speIds w.store = some (-1, [], w.store.setErrno .ESRCH) ∧
      speGetPolicy (some g) w.store = some (-1, w.store.setErrno .ESRCH) ∧
        speGetPriority (some g) w.store = some (-1, w.store.setErrno .ESRCH)

/-! ## Priorities -/

/-- The defaults and all groups have a priority that goes with the policy. -/
structure Priced (s : Store) : Prop where
  default : checkPriority s.defaultPolicy s.defaultPriority = true
  group : ∀ g gs, s.groups g = some gs → checkPriority gs.policy gs.priority = true

namespace Priced

variable {s s' : Store} {g : Gid} {gs : GroupStore}

theorem setErrno (h : Priced s) (e : Errno) : Priced (s.setErrno e) := ⟨h.default, h.group⟩

theorem setThread (h : Priced s) (t : Thread) (ts : ThreadStore) : Priced (s.setThread t ts) := ⟨h.default, h.group⟩

theorem freeThread (h : Priced s) (t : Thread) : Priced (s.freeThread t) := ⟨h.default, h.group⟩

theorem setGroup (h : Priced s) (hgs : checkPriority gs.policy gs.priority = true) : Priced (s.setGroup g gs) where
  default := h.default
  group g' gs' hg' := by
    by_cases hg : g' = g
    · subst hg
      obtain rfl : gs = gs' := by simpa using hg'
      exact hgs
    · exact h.group g' gs' (by simpa [hg] using hg')

/-- What changes of a group is not the schedule. -/
theorem changeGroup (h : Priced s) (hg : s.groups g = some gs) {gs' : GroupStore} (hpolicy : gs'.policy = gs.policy)
    (hpriority : gs'.priority = gs.priority) : Priced (s.setGroup g gs') :=
  h.setGroup (by rw [hpolicy, hpriority]; exact h.group g gs hg)

theorem addGroupToGroups (h : Priced s) (elem : Bool) : Priced (Groups.addGroupToGroups g elem s).2 := by
  unfold Groups.addGroupToGroups
  split
  · exact ⟨h.default, h.group⟩
  · exact h.setErrno _

theorem gidSetup (h : Priced s) {policy priority useEvents : Int} (hp : checkPriority policy priority = true)
    (group : Option Gid) (elem : Bool) : Priced (speGidSetup policy priority useEvents group elem s).2 := by
  unfold speGidSetup
  cases group with
  | none => exact h.setErrno _
  | some g => exact (h.setGroup hp).addGroupToGroups elem

theorem removeGroupFromGroups (h : Priced s) {rc : Int} (hs : Groups.removeGroupFromGroups g s = some (rc, s')) :
    Priced s' := by
  obtain ⟨⟨rc', l⟩, -, hs⟩ := Option.bind_eq_some_iff.mp hs
  cases hs
  exact ⟨h.default, h.group⟩

theorem addThreadToGroup (h : Priced s) {gid : Option Gid} {t : Thread} {elem : Bool} {rc : Int}
    (hs : Groups.addThreadToGroup gid t elem s = some (rc, s')) : Priced s' := by
  unfold Groups.addThreadToGroup at hs
  split at hs
  · obtain ⟨g, -, hs⟩ := Option.bind_eq_some_iff.mp hs
    obtain ⟨gs, hg, hs⟩ := Option.bind_eq_some_iff.mp hs
    cases hs
    exact h.changeGroup hg rfl rfl
  · cases hs
    exact h.setErrno _

theorem removeThreadFromGroup (h : Priced s) {gid : Option Gid} {t : Thread} {rc : Int}
    (hs : Groups.removeThreadFromGroup gid t s = some (rc, s')) : Priced s' := by
  unfold Groups.removeThreadFromGroup at hs
  obtain ⟨g, -, hs⟩ := Option.bind_eq_some_iff.mp hs
  obtain ⟨gs, hg, hs⟩ := Option.bind_eq_some_iff.mp hs
  dsimp only at hs
  split at hs
  · have hset : Priced (s.setGroup g { gs with numListSize := gs.numListSize - 1, grpMembers := [] }) :=
      h.changeGroup hg rfl rfl
    split at hs
    · obtain ⟨⟨rc', s''⟩, hremove, hs⟩ := Option.bind_eq_some_iff.mp hs
      cases hs
      exact hset.removeGroupFromGroups hremove
    · cases hs
      exact hset
  · split at hs
    · cases hs
    · split at hs
      · cases hs
        exact h.changeGroup hg rfl rfl
      · cases hs
        exact h.setErrno _

theorem setupThread (h : Priced s) {gid : Option Gid} {env : Setup} {o : Option Thread}
    (hs : Groups.setupThread gid env s = some (o, s')) : Priced s' := by
  unfold Groups.setupThread at hs
  split at hs
  · cases hs
    exact h.setErrno _
  · next t _ =>
    dsimp only at hs
    split at hs
    · obtain ⟨⟨rc, s''⟩, hadd, hs⟩ := Option.bind_eq_some_iff.mp hs
      cases hs
      exact (h.setThread t _).addThreadToGroup hadd
    · cases hs
      exact h.setThread t _

theorem speSetup (h : Priced s) {gid : Option Gid} {env : Setup} {o : Option Thread}
    (hs : Groups.speSetup gid env s = some (o, s')) : Priced s' := by
  unfold Groups.speSetup at hs
  split at hs
  · -- the group has the defaults
    exact (h.gidSetup h.default env.group env.groupElem).setupThread hs
  · obtain ⟨grp, -, hs⟩ := Option.bind_eq_some_iff.mp hs
    split at hs
    · cases hs
      exact h.setErrno _
    · exact h.setupThread hs

theorem speCreateThread (h : Priced s) {gid : Option Gid} {handle argp : Bool} {mask : Nat} {flags : UInt32}
    {env : Setup} {o : Option Thread} (hs : Groups.speCreateThread gid handle argp mask flags env s = some (o, s')) :
    Priced s' := by
  unfold Groups.speCreateThread at hs
  split at hs
  · cases hs
    exact h.setErrno _
  split at hs
  · cases hs
    exact h.setErrno _
  split at hs
  · cases hs
    exact h.setErrno _
  · obtain ⟨⟨o', s''⟩, hsetup, hs⟩ := Option.bind_eq_some_iff.mp hs
    cases o' with
    | none =>
      cases hs
      exact (h.speSetup hsetup).setErrno _
    | some t =>
      cases hs
      exact h.speSetup hsetup

theorem speCleanup (h : Priced s) {t : Thread} (hs : Groups.speCleanup t s = some s') : Priced s' := by
  obtain ⟨ts, -, hs⟩ := Option.bind_eq_some_iff.mp hs
  obtain ⟨⟨rc, s''⟩, hremove, hs⟩ := Option.bind_eq_some_iff.mp hs
  cases hs
  exact (h.removeThreadFromGroup hremove).freeThread t

/-- Looking for a thread stores at most the error. -/
theorem srchThread (h : Priced s) {t : Thread} {o : Option Thread} (hs : Groups.srchThread t s = some (o, s')) :
    Priced s' := by
  obtain ⟨found, -, hs⟩ := Option.bind_eq_some_iff.mp hs
  split at hs
  · cases hs
    exact h
  · cases hs
    exact h.setErrno _

theorem speWait (h : Priced s) {t : Thread} {status : Bool} {options : UInt32} {env : Join} {rc : Int}
    {stored : Option UInt32} (hs : Groups.speWait t status options env s = some (rc, stored, s')) : Priced s' := by
  obtain ⟨⟨o, s''⟩, hsearch, hs⟩ := Option.bind_eq_some_iff.mp hs
  have hfound := h.srchThread hsearch
  cases o with
  | none =>
    cases hs
    exact hfound
  | some t' =>
    obtain ⟨ts, -, hs⟩ := Option.bind_eq_some_iff.mp hs
    split at hs
    · split at hs
      · cases hs
        exact hfound
      · cases hs
    split at hs
    · cases hs
    split at hs
    · cases hs
      exact hfound
    · obtain ⟨s₁, hclean, hs⟩ := Option.bind_eq_some_iff.mp hs
      cases hs
      exact hfound.speCleanup hclean

/-- Marking a group does not reprice it. -/
theorem speDestroyGroup (h : Priced s) {gid : Option Gid} {rc : Int}
    (hs : Groups.speDestroyGroup gid s = some (rc, s')) : Priced s' := by
  obtain ⟨g, -, hs⟩ := Option.bind_eq_some_iff.mp hs
  unfold srchGroup at hs
  split at hs
  next s₁ hsearch =>
    -- not found
    split at hsearch
    · cases hsearch
    · cases hsearch
      cases hs
      exact (h.setErrno _).setErrno _
  next s₁ hsearch =>
    split at hsearch
    · cases hsearch
      obtain ⟨gs, hg, hs⟩ := Option.bind_eq_some_iff.mp hs
      obtain ⟨⟨rc', s₂⟩, hremove, hs⟩ := Option.bind_eq_some_iff.mp hs
      cases hs
      have hmarked : Priced (s.setGroup g { gs with deleteMe := true }) := h.changeGroup hg rfl rfl
      exact hmarked.removeGroupFromGroups hremove
    · cases hsearch

theorem speCreateGroup (h : Priced s) (policy priority useEvents : Int) (group : Option Gid) (elem : Bool) :
    Priced (Groups.speCreateGroup policy priority useEvents group elem s).2 := by
  unfold Groups.speCreateGroup
  split
  next hcheck => exact h.gidSetup hcheck group elem
  · exact h.setErrno _

theorem speGroupDefaults (h : Priced s) (policy priority speEvents : Int) :
    Priced (Groups.speGroupDefaults policy priority speEvents s).2 := by
  unfold Groups.speGroupDefaults
  split
  next hcheck => exact ⟨hcheck, h.group⟩
  · exact h.setErrno _

theorem init : Priced .init := ⟨by decide, nofun⟩

/-- The calls price groups as the parameters are checked. -/
theorem exec {w w' : State} (h : Priced w.store) {c : Call} (hc : c.exec w = some w') : Priced w'.store := by
  cases c with
  | speCreateGroup policy priority useEvents group elem =>
    cases hc
    exact h.speCreateGroup policy priority useEvents group elem
  | speGroupDefaults policy priority speEvents =>
    cases hc
    exact h.speGroupDefaults policy priority speEvents
  | speCreateThread gid handle argp mask flags env =>
    obtain ⟨⟨o, s⟩, hcreate, hc⟩ := Option.bind_eq_some_iff.mp hc
    cases o <;> cases hc <;> exact h.speCreateThread hcreate
  | speWait speid status options env =>
    obtain ⟨⟨rc, stored, s⟩, hwait, hc⟩ := Option.bind_eq_some_iff.mp hc
    cases hc
    exact h.speWait hwait
  | speDestroyGroup gid =>
    obtain ⟨⟨rc, s⟩, hdestroy, hc⟩ := Option.bind_eq_some_iff.mp hc
    cases hc
    exact h.speDestroyGroup hdestroy

end Priced

/-! ## Answers -/

theorem copyMembers_length (ids : List Thread) : copyMembers ids.length ids = some ids := by
  induction ids with
  | nil => rfl
  | cons t rest ih => simp [copyMembers, ih]

theorem not_listed_eq (g : Gid) (s : Store) : (srchGroup g s).1 = none ↔ g ∉ s.listStart := by
  by_cases hl : g ∈ s.listStart <;> simp [srchGroup, hl]

section Answers

variable {s : Store} {g : Gid} {gs : GroupStore}

theorem speGetPriority_listed (hl : g ∈ s.listStart) (hg : s.groups g = some gs) :
    speGetPriority (some g) s = some (gs.priority, s) := by
  simp [speGetPriority, not_listed_eq, hl, hg]

theorem speGetPolicy_listed (hl : g ∈ s.listStart) (hg : s.groups g = some gs) :
    speGetPolicy (some g) s = some (gs.policy, s) := by
  simp [speGetPolicy, not_listed_eq, hl, hg]

theorem speSetPriority_listed (hl : g ∈ s.listStart) (hg : s.groups g = some gs) (priority : Int) :
    speSetPriority (some g) priority s =
      if checkPriority gs.policy priority then some (0, s.setGroup g { gs with priority })
      else some (-1, s.setErrno .EINVAL) := by
  cases hcheck : checkPriority gs.policy priority <;> simp [speSetPriority, not_listed_eq, hl, hg, hcheck]

end Answers

namespace Roll

variable {w : State} {g : Gid} {gs : GroupStore} {t : Thread}

theorem speGetThreads_listed (h : Roll w) (hl : g ∈ w.store.listStart) (hg : w.store.groups g = some gs)
    (speIds : Bool) : speGetThreads (some g) speIds w.store =
      some ((gs.grpMembers.length : Int), if speIds then gs.grpMembers else [], w.store) := by
  have hsize := h.size g gs hg
  cases speIds <;> simp [speGetThreads, not_listed_eq, hl, hg, hsize, copyMembers_length]

theorem speGetGroup_gone (h : Roll w) (ht : w.alive t = false) :
    speGetGroup t w.store = some (none, w.store.setErrno .ESRCH) := by
  simp [speGetGroup, h.srchThread_eq, ht]

/-- The group of a thread is the one that has it. -/
theorem speGetGroup_member (h : Roll w) : speGetGroup t w.store = some (some g, w.store) ↔ w.store.Member t g := by
  constructor
  · intro hget
    cases ht : w.alive t with
    | false => simp [h.speGetGroup_gone ht] at hget
    | true =>
      obtain ⟨g', gs, hts, hgs, hmem, -⟩ := h.group ht
      have hg : g' = g := by simpa [speGetGroup, h.srchThread_eq, ht, hts] using hget
      exact ⟨gs, hg ▸ hgs, hmem⟩
  · intro hm
    obtain ⟨ht, hts⟩ := h.home g t hm
    simp [speGetGroup, h.srchThread_eq, ht, hts]

/-- The priority has nothing to do with the members. -/
theorem reprice (h : Roll w) (hg : w.store.groups g = some gs) (priority : Int) :
    Roll { w with store := w.store.setGroup g { gs with priority } } := by
  have hm {t' : Thread} {g' : Gid} :
      (w.store.setGroup g { gs with priority }).Member t' g' ↔ w.store.Member t' g' := by
    by_cases hgg : g' = g <;> simp [Store.Member, hgg, hg]
  constructor
  · grind [h.allocated]
  · grind [h.size]
  · grind [h.nodup]
  · intro g' t' hmem
    exact h.home g' t' (hm.mp hmem)
  · intro t' ht'
    obtain ⟨g', hl', hmem⟩ := h.place t' ht'
    exact ⟨g', hl', hm.mpr hmem⟩

/-- With checked schedules the answers are lawful. -/
theorem lawful (h : Roll w) (hp : Priced w.store) : Lawful w where
  threads g hl := by
    obtain ⟨gs, hg⟩ := h.allocated g hl
    refine ⟨gs.grpMembers, h.speGetThreads_listed hl hg true, h.speGetThreads_listed hl hg false, h.nodup g gs hg, ?_⟩
    intro t
    rw [h.speGetGroup_member]
    simp [Store.Member, hg]
  group t ht := by
    obtain ⟨g, hl, hm⟩ := h.place t ht
    exact ⟨g, hl, h.speGetGroup_member.mpr hm⟩
  gone t ht := h.speGetGroup_gone ht
  schedule g hl := by
    obtain ⟨gs, hg⟩ := h.allocated g hl
    exact ⟨gs.policy, gs.priority, speGetPolicy_listed hl hg, speGetPriority_listed hl hg, hp.group g gs hg⟩
  reprice g hl policy hpolicy priority := by
    obtain ⟨gs, hg⟩ := h.allocated g hl
    obtain rfl : gs.policy = policy := by simpa [speGetPolicy_listed hl hg] using hpolicy
    have hset := speSetPriority_listed hl hg priority
    split
    next hcheck =>
      have hg' : (w.store.setGroup g { gs with priority }).groups g = some { gs with priority } := by simp
      have hl' : g ∈ (w.store.setGroup g { gs with priority }).listStart := hl
      have hpolicy' := speGetPolicy_listed hl' hg'
      rw [if_pos hcheck] at hset
      refine ⟨_, hset, speGetPriority_listed hl' hg', hpolicy', ?_⟩
      intro g₁ hl₁ hne p hprice
      -- another group is as it was
      obtain ⟨gs₁, hg₁⟩ := h.allocated g₁ hl₁
      obtain rfl : gs₁.priority = p := by simpa [speGetPriority_listed hl₁ hg₁] using hprice
      exact speGetPriority_listed hl₁ (by simpa [hne] using hg₁)
    next hcheck => rw [hset, if_neg hcheck]
  unlisted g hl speIds := by
    simp [speGetThreads, speGetPolicy, speGetPriority, not_listed_eq, hl]

end Roll

/-! ## Runs -/

variable {w : State}

/-- **One request** preserves what the answers rest on. -/
theorem Request.step {r : Request} (hroll : Roll w) (hprice : Priced w.store) (hr : r.Fair w) :
    ∃ w', r.exec w = some w' ∧ Roll w' ∧ Priced w'.store := by
  have herror (e : Errno) : Roll { w with store := w.store.setErrno e } := hroll.setErrno e
  cases r with
  | call c =>
    obtain ⟨w', hexec, hroll'⟩ := (hroll.step hr.1).1 hr.2
    exact ⟨w', hexec, hroll', hprice.exec hexec⟩
  | speGetThreads gid speIds =>
    obtain ⟨g, rfl⟩ := Option.ne_none_iff_exists'.mp hr
    by_cases hl : g ∈ w.store.listStart
    · obtain ⟨gs, hg⟩ := hroll.allocated g hl
      exact ⟨w, by simp [exec, hroll.speGetThreads_listed hl hg], hroll, hprice⟩
    · exact ⟨_, by simp [exec, Groups.speGetThreads, not_listed_eq, hl], herror .ESRCH, hprice.setErrno _⟩
  | speGetPriority gid =>
    obtain ⟨g, rfl⟩ := Option.ne_none_iff_exists'.mp hr
    by_cases hl : g ∈ w.store.listStart
    · obtain ⟨gs, hg⟩ := hroll.allocated g hl
      exact ⟨w, by simp [exec, speGetPriority_listed hl hg], hroll, hprice⟩
    · exact ⟨_, by simp [exec, Groups.speGetPriority, not_listed_eq, hl], herror .ESRCH, hprice.setErrno _⟩
  | speGetPolicy gid =>
    obtain ⟨g, rfl⟩ := Option.ne_none_iff_exists'.mp hr
    by_cases hl : g ∈ w.store.listStart
    · obtain ⟨gs, hg⟩ := hroll.allocated g hl
      exact ⟨w, by simp [exec, speGetPolicy_listed hl hg], hroll, hprice⟩
    · exact ⟨_, by simp [exec, Groups.speGetPolicy, not_listed_eq, hl], herror .ESRCH, hprice.setErrno _⟩
  | speSetPriority gid priority =>
    obtain ⟨g, rfl, hne⟩ := hr
    obtain ⟨gs, hg⟩ := Option.ne_none_iff_exists'.mp hne
    cases hcheck : checkPriority gs.policy priority with
    | false =>
      exact ⟨_, by simp [exec, Groups.speSetPriority, hg, hcheck], herror .EINVAL, hprice.setErrno _⟩
    | true =>
      by_cases hl : g ∈ w.store.listStart
      · exact ⟨_, by simp [exec, speSetPriority_listed hl hg, hcheck], hroll.reprice hg priority,
          hprice.setGroup hcheck⟩
      · exact ⟨_, by simp [exec, Groups.speSetPriority, not_listed_eq, hg, hcheck, hl], herror .ESRCH,
          hprice.setErrno _⟩
  | speGetGroup speid =>
    cases ht : w.alive speid with
    | false => exact ⟨_, by simp [exec, hroll.speGetGroup_gone ht], herror .ESRCH, hprice.setErrno _⟩
    | true =>
      obtain ⟨g, -, hm⟩ := hroll.place speid ht
      exact ⟨w, by simp [exec, hroll.speGetGroup_member.mpr hm], hroll, hprice⟩

theorem run_lawful {reqs : List Request} (hroll : Roll w) (hprice : Priced w.store) (hreqs : Fair w reqs) :
    ∃ w', run w reqs = some w' ∧ Lawful w' := by
  induction reqs generalizing w with
  | nil => exact ⟨w, rfl, hroll.lawful hprice⟩
  | cons r reqs ih =>
    obtain ⟨hr, hrest⟩ := hreqs
    obtain ⟨w₁, hexec, hroll₁, hprice₁⟩ := r.step hroll hprice hr
    obtain ⟨w', hrun, hlawful⟩ := ih hroll₁ hprice₁ (hrest w₁ hexec)
    exact ⟨w', by simp [run, hexec, hrun], hlawful⟩

/-- **Asking about groups.** After every run of calls and queries, each of them fair, the run has not followed a
null pointer and the queries answer by the law. -/
theorem queries_lawful (reqs : List Request) (h : Fair .init reqs) : ∃ w, run .init reqs = some w ∧ Lawful w :=
  run_lawful Roll.init Priced.init h

/-- A group at 1 with threads at 10 and at 11 and a real-time priority; the first thread is waited for. -/
def createTwoAndAsk : List Request :=
  let env (t : Thread) : Setup :=
    { entries := none, group := none, groupElem := false, thread := some t, context := true, load := 0,
      threadElem := true, pthread := 0 }
  [.call (.speCreateGroup 1 5 0 (some 1) true), .call (.speCreateThread (some 1) true false 1 0 (env 10)),
    .call (.speCreateThread (some 1) true false 1 0 (env 11)), .speGetThreads (some 1) true,
    .speSetPriority (some 1) 100, .speSetPriority (some 1) 99, .call (.speWait 10 true 0 ⟨99, 0, 0x20000000⟩),
    .speGetGroup 10, .speGetThreads (some 1) false]

theorem queries_lawful_two : ∃ w, run .init createTwoAndAsk = some w ∧ Lawful w := by
  apply queries_lawful createTwoAndAsk
  refine ⟨⟨fun _ _ => rfl, trivial⟩, ?_⟩
  rintro _ ⟨⟩
  refine ⟨⟨⟨nofun, by rintro _ ⟨⟩; rfl⟩, fun _ => ⟨rfl, nofun⟩⟩, ?_⟩
  rintro _ ⟨⟩
  refine ⟨⟨⟨nofun, by rintro _ ⟨⟩; rfl⟩, fun _ => ⟨rfl, nofun⟩⟩, ?_⟩
  rintro _ ⟨⟩
  refine ⟨nofun, ?_⟩
  rintro _ ⟨⟩
  refine ⟨⟨1, rfl, nofun⟩, ?_⟩
  rintro _ ⟨⟩
  refine ⟨⟨1, rfl, nofun⟩, ?_⟩
  rintro _ ⟨⟩
  refine ⟨⟨trivial, fun _ _ => rfl, ?_⟩, ?_⟩
  · -- it is not at the head of the list
    rintro - ⟨_, ⟨⟩, _, ⟨⟩, -, hhead⟩
    cases hhead
  rintro _ ⟨⟩
  refine ⟨trivial, ?_⟩
  rintro _ ⟨⟩
  exact ⟨nofun, fun _ _ => trivial⟩

end LibSpe2.Spe12.Groups
