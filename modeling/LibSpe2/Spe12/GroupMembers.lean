import LibSpe2.Spe12.Groups

/-!
# The members of a group

A thread that has been created and not yet been waited for is alive. Between the calls of the old interface
every group should count the members on its list, and the list should hold the threads of the group that are
alive, each once; `srch_thread` should find the threads that are alive and no other.

* `Grouped` — what is asked of a state.
* `Removes` — what is asked of `remove_thread_from_group`, and `removes_iff`, when it does that.
* `Call.Keeps` — the condition on a call under which the next state is as asked.

Main result: `grouped`.
-/

namespace LibSpe2.Spe12.Groups

open Function

variable {s s' : Store} {alive : Thread → Bool} {g : Gid} {gs : GroupStore} {t : Thread}

@[simp, grind =] theorem Store.groups_setGroup (g' : Gid) :
    (s.setGroup g gs).groups g' = if g' = g then some gs else s.groups g' := update_apply ..

@[simp, grind =] theorem Store.threads_setGroup : (s.setGroup g gs).threads = s.threads := rfl

@[simp, grind =] theorem Store.listStart_setGroup : (s.setGroup g gs).listStart = s.listStart := rfl

/-! ## The loops -/

/-- The loop takes the first element for the thread out. -/
theorem removeNext_eq (l : List Thread) : removeNext t l = if t ∈ l then some (l.erase t) else none := by
  induction l with
  | nil => rfl
  | cons np rest ih =>
    unfold removeNext
    by_cases h : np = t
    · simp [h]
    · by_cases hmem : t ∈ rest <;> simp [ih, h, Ne.symm h, hmem]

/-- The loop takes the group out if it has no members. -/
theorem removeGroup_eq (hg : s.groups g = some gs) (l : List Gid) :
    removeGroup s g l =
      some (if g ∈ l then 0 else 1, if gs.numListSize = 0 then l.erase g else l) := by
  induction l with
  | nil => simp [removeGroup]
  | cons gp rest ih =>
    unfold removeGroup
    by_cases h : gp = g
    · simp [h, hg]
    · by_cases hsize : gs.numListSize = 0 <;> simp [ih, h, Ne.symm h, hsize]

theorem removeGroupFromGroups_eq (hg : s.groups g = some gs) :
    removeGroupFromGroups g s = some (if g ∈ s.listStart then 0 else 1,
      { s with listStart := if gs.numListSize = 0 then s.listStart.erase g else s.listStart }) := by
  simp [removeGroupFromGroups, removeGroup_eq hg]

/-- The thread is on the list of the group. -/
def Store.Member (s : Store) (t : Thread) (g : Gid) : Prop :=
  ∃ gs, s.groups g = some gs ∧ t ∈ gs.grpMembers

theorem searchGroups_eq {l : List Gid} (hl : ∀ g ∈ l, ∃ gs, s.groups g = some gs) :
    ∃ b, searchGroups s t l = some b ∧ (b = true ↔ ∃ g ∈ l, s.Member t g) := by
  induction l with
  | nil => exact ⟨false, rfl, by simp⟩
  | cons gp rest ih =>
    obtain ⟨⟨gs, hgs⟩, hrest⟩ := List.forall_mem_cons.mp hl
    by_cases hmem : t ∈ gs.grpMembers
    · exact ⟨true, by simp [searchGroups, hgs, hmem], by simp [Store.Member, hgs, hmem]⟩
    · obtain ⟨b, hb, hiff⟩ := ih hrest
      refine ⟨b, by simp [searchGroups, hgs, hmem, hb], ?_⟩
      simp [hiff, Store.Member, hgs, hmem]

/-! ## Taking a thread out -/

/-- The group without a member. -/
def GroupStore.without (gs : GroupStore) (t : Thread) : GroupStore :=
  { gs with grpMembers := gs.grpMembers.erase t, numListSize := gs.numListSize - 1 }

/-- The store when a member has left; the last one may take the group from the list. -/
def Store.without (s : Store) (g : Gid) (gs : GroupStore) (t : Thread) : Store :=
  { s with
    groups := update s.groups g (some (gs.without t))
    listStart := if gs.deleteMe ∧ gs.grpMembers = [t] then s.listStart.erase g else s.listStart }

/-- **The contract** of `remove_thread_from_group`: a member is taken out, wherever it stands, and nothing
else changes but that the last one may take its group along; who is no member is refused. -/
structure Removes (s : Store) (g : Gid) (gs : GroupStore) (t : Thread) : Prop where
  member : t ∈ gs.grpMembers →
    removeThreadFromGroup (some g) t s = some (0, s.without g gs t)
  other : t ∉ gs.grpMembers →
    removeThreadFromGroup (some g) t s = some (-esrch, s.setErrno .ESRCH)

/-- Of two members or more, the first one is not looked at. -/
theorem removeThreadFromGroup_many {p : Thread} {rest : List Thread} (hg : s.groups g = some gs)
    (hl : gs.grpMembers = p :: rest) (hrest : rest ≠ []) (hsize : gs.numListSize = gs.grpMembers.length) :
    removeThreadFromGroup (some g) t s =
      if t ∈ rest then
        some (0, s.setGroup g { gs with
          grpMembers := p :: rest.erase t, numListSize := gs.numListSize - 1 })
      else some (-esrch, s.setErrno .ESRCH) := by
  have hone : ¬gs.numListSize = 1 := by
    have hpos := List.length_pos_iff.mpr hrest
    rw [hsize, hl, List.length_cons]
    omega
  by_cases hmem : t ∈ rest <;> simp [removeThreadFromGroup, hg, hone, hl, removeNext_eq, hmem]

/-- A single member is taken out, for whomever the call is. -/
theorem removeThreadFromGroup_single {p : Thread} (hg : s.groups g = some gs) (hl : gs.grpMembers = [p])
    (hsize : gs.numListSize = gs.grpMembers.length) :
    removeThreadFromGroup (some g) t s = some (0,
      { s with
        groups := update s.groups g (some { gs with grpMembers := [], numListSize := gs.numListSize - 1 })
        listStart := if gs.deleteMe then s.listStart.erase g else s.listStart }) := by
  have hone : gs.numListSize = 1 := by simp [hsize, hl]
  cases hdel : gs.deleteMe with
  | false => simp [removeThreadFromGroup, hg, hone, hdel, Store.setGroup]
  | true => simp [removeThreadFromGroup, hg, hone, hdel, removeGroupFromGroups_eq, Store.setGroup]

/-- **When the contract is met**: the thread is the only member, or there are others before it or without
it. -/
theorem removes_iff (hg : s.groups g = some gs) (hsize : gs.numListSize = gs.grpMembers.length)
    (hnd : gs.grpMembers.Nodup) :
    Removes s g gs t ↔
      gs.grpMembers = [t] ∨ 2 ≤ gs.grpMembers.length ∧ gs.grpMembers.head? ≠ some t := by
  rcases hl : gs.grpMembers with - | ⟨p, - | ⟨q, rest⟩⟩
  · -- the null pointer is followed
    simp only [List.length_nil, List.head?_nil]
    constructor
    · intro h
      have hnone := h.other (by simp [hl])
      simp [removeThreadFromGroup, hg, hsize, hl] at hnone
    · grind
  · by_cases hp : p = t
    · subst hp
      simp only [true_or, iff_true]
      refine ⟨fun _ => ?_, fun h => absurd (by simp [hl]) h⟩
      simp [removeThreadFromGroup_single hg hl hsize, Store.without, GroupStore.without, hl]
    · have hmem : t ∉ gs.grpMembers := by simp [hl, Ne.symm hp]
      simp only [List.cons.injEq, hp, List.length_singleton]
      constructor
      · intro h
        have hother := h.other hmem
        simp [removeThreadFromGroup_single hg hl hsize, esrch] at hother
      · grind
  · have hlen : 2 ≤ (p :: q :: rest).length := by simp
    rw [hl] at hnd
    have hmany := removeThreadFromGroup_many (t := t) hg hl (List.cons_ne_nil q rest) hsize
    by_cases hp : p = t
    · subst hp
      rw [if_neg (List.nodup_cons.mp hnd).1] at hmany
      simp only [List.head?_cons]
      constructor
      · intro h
        have hmember := h.member (by simp [hl])
        simp [hmany, esrch] at hmember
      · grind
    · simp only [List.head?_cons, ne_eq, Option.some.injEq, hp, not_false_eq_true, hlen, and_self, or_true,
        iff_true]
      have hiff : t ∈ gs.grpMembers ↔ t ∈ q :: rest := by simp [hl, Ne.symm hp]
      constructor
      · intro hmem
        rw [hmany, if_pos (hiff.mp hmem)]
        simp [Store.without, GroupStore.without, hl, hp, List.erase_cons_tail, Store.setGroup]
      · intro hmem
        rw [hmany, if_neg (hmem ∘ hiff.mpr)]

/-! ## Calls -/

/-- A call of the old interface, with what the system answers. -/
inductive Call where
  | speCreateGroup (policy priority useEvents : Int) (group : Option Gid) (elem : Bool)
  | speGroupDefaults (policy priority speEvents : Int)
  | speCreateThread (gid : Option Gid) (handle argp : Bool) (mask : Nat) (flags : UInt32) (env : Setup)
  | speWait (speid : Thread) (status : Bool) (options : UInt32) (env : Join)
  | speDestroyGroup (gid : Option Gid)
  deriving DecidableEq

/-- The store, and who is alive. -/
structure State where
  store : Store
  alive : Thread → Bool

def State.init : State := ⟨.init, fun _ => false⟩

/-- `spe_wait` gets its thread: it is found, it is waited for, and it has ended. -/
def Waited (s : Store) (speid : Thread) (options : UInt32) (env : Join) : Prop :=
  searchGroups s speid s.listStart = some true ∧ ¬env.AtOnce options ∧ env.rc = 0

instance (speid : Thread) (options : UInt32) (env : Join) : Decidable (Waited s speid options env) :=
  inferInstanceAs (Decidable (_ ∧ _))

/-- A thread that was handed to the caller is alive until the caller has waited for it. -/
def Call.exec (w : State) : Call → Option State
  | speCreateGroup policy priority useEvents group elem =>
    some { w with store := (Groups.speCreateGroup policy priority useEvents group elem w.store).2 }
  | speGroupDefaults policy priority speEvents =>
    some { w with store := (Groups.speGroupDefaults policy priority speEvents w.store).2 }
  | speCreateThread gid handle argp mask flags env => do
    match ← Groups.speCreateThread gid handle argp mask flags env w.store with
    | (some t, s) => return ⟨s, update w.alive t true⟩
    | (none, s) => return ⟨s, w.alive⟩
  | speWait speid status options env => do
    let (_, _, s) ← Groups.speWait speid status options env w.store
    return ⟨s, if Waited w.store speid options env then update w.alive speid false else w.alive⟩
  | speDestroyGroup gid => do
    let (_, s) ← Groups.speDestroyGroup gid w.store
    return ⟨s, w.alive⟩

/-- What `calloc` hands out is not in use. -/
def Call.Possible (w : State) : Call → Prop
  | speCreateGroup _ _ _ group _ => ∀ g ∈ group, w.store.groups g = none
  | speCreateThread _ _ _ _ _ env =>
    (∀ g ∈ env.group, w.store.groups g = none) ∧ ∀ t ∈ env.thread, w.store.threads t = none
  | _ => True

/-- A condition on every call of a run, in the state in which it is made. -/
def Along (Q : State → Call → Prop) (w : State) : List Call → Prop
  | [] => True
  | c :: calls => Q w c ∧ match c.exec w with
    | none => True
    | some w' => Along Q w' calls

/-! ## What is asked -/

/-- **Membership**: the groups count their members and hold those that are alive, each once, and they are
found. -/
structure Grouped (w : State) : Prop where
  size : ∀ g gs, w.store.groups g = some gs → gs.numListSize = gs.grpMembers.length
  nodup : ∀ g gs, w.store.groups g = some gs → gs.grpMembers.Nodup
  members : ∀ g gs, w.store.groups g = some gs → ∀ t,
    t ∈ gs.grpMembers ↔ w.alive t = true ∧ w.store.threads t = some ⟨some g⟩
  found : ∀ t, srchThread t w.store =
    some (if w.alive t then (some t, w.store) else (none, w.store.setErrno .ESRCH))

/-- Every call of the run returns, and membership is as asked before, between and after the calls. -/
def AlwaysGrouped (w : State) : List Call → Prop
  | [] => Grouped w
  | c :: calls => Grouped w ∧ ∃ w', c.exec w = some w' ∧ AlwaysGrouped w' calls

/-- `spe_create_thread` gets as far as putting the thread on a list. -/
structure Adds (s : Store) (gid : Option Gid) (handle argp : Bool) (mask : Nat) (flags : UInt32)
    (env : Setup) : Prop where
  handle : handle = true
  argp : flags &&& speUserRegs ≠ 0 → argp = true
  listed : ∀ g ∈ gid, g ∈ s.listStart
  mask : mask ≠ 0 ∧ mask &&& ((1 <<< speGroupMax env.entries) - 1) ≠ 0
  room : ∀ g ∈ gid, ∀ gs ∈ s.groups g, gs.numListSize ≠ maxThreadsPerGroup
  thread : env.thread.isSome
  context : env.context = true
  load : env.load = 0

/-- The thread is at the head of the list of its group, with others behind it. -/
def AtHead (s : Store) (t : Thread) : Prop :=
  ∃ g ∈ (s.threads t).bind ThreadStore.groupId, ∃ gs ∈ s.groups g,
    2 ≤ gs.grpMembers.length ∧ gs.grpMembers.head? = some t

/-- **The condition** on a call. -/
def Call.Keeps (w : State) : Call → Prop
  | speCreateThread gid handle argp mask flags env =>
    Adds w.store gid handle argp mask flags env →
      -- the thread gets onto a list that is searched just when it is started
      if env.pthread = 0 then
        env.threadElem = true ∧ (gid = none → env.group.isSome ∧ env.groupElem = true)
      else env.threadElem = false
  | speWait speid status options env =>
    (searchGroups w.store speid w.store.listStart = some true →
      env.AtOnce options ∨ env.Stopped options → status = true) ∧
    (Waited w.store speid options env → ¬AtHead w.store speid)
  | speDestroyGroup gid => gid ≠ none
  | _ => True

/-! ## The invariant -/

variable {w w' : State} {gid : Option Gid} {handle argp : Bool} {mask : Nat} {flags : UInt32} {env : Setup}

/-- **The invariant**: membership, and the list of the groups holds groups. -/
structure Roll (w : State) : Prop where
  allocated : ∀ g ∈ w.store.listStart, ∃ gs, w.store.groups g = some gs
  size : ∀ g gs, w.store.groups g = some gs → gs.numListSize = gs.grpMembers.length
  nodup : ∀ g gs, w.store.groups g = some gs → gs.grpMembers.Nodup
  home : ∀ g t, w.store.Member t g → w.alive t = true ∧ w.store.threads t = some ⟨some g⟩
  place : ∀ t, w.alive t = true → ∃ g ∈ w.store.listStart, w.store.Member t g

theorem Roll.init : Roll .init where
  allocated := nofun
  size := nofun
  nodup := nofun
  home := nofun
  place := nofun

namespace Roll

/-- Who is found is alive, and the other way round. -/
theorem search (h : Roll w) (t : Thread) :
    searchGroups w.store t w.store.listStart = some (w.alive t) := by
  obtain ⟨b, hb, hiff⟩ := searchGroups_eq (t := t) h.allocated
  have halive : w.alive t = true ↔ ∃ g ∈ w.store.listStart, w.store.Member t g :=
    ⟨h.place t, fun ⟨g, _, hm⟩ => (h.home g t hm).1⟩
  rw [hb, Bool.eq_iff_iff.mpr (hiff.trans halive.symm)]

theorem srchThread_eq (h : Roll w) (t : Thread) : srchThread t w.store =
    some (if w.alive t then (some t, w.store) else (none, w.store.setErrno .ESRCH)) := by
  cases halive : w.alive t <;> simp [srchThread, h.search, halive]

/-- A thread that is alive has a group whose list it is on. -/
theorem group (h : Roll w) (ht : w.alive t = true) : ∃ g gs, w.store.threads t = some ⟨some g⟩ ∧
    w.store.groups g = some gs ∧ t ∈ gs.grpMembers ∧ g ∈ w.store.listStart := by
  obtain ⟨g, hl, gs, hgs, hmem⟩ := h.place t ht
  exact ⟨g, gs, (h.home g t ⟨gs, hgs, hmem⟩).2, hgs, hmem, hl⟩

theorem not_alive (h : Roll w) (ht : w.store.threads t = none) : w.alive t = false := by
  by_contra halive
  obtain ⟨g, gs, hts, -⟩ := h.group (by simpa using halive)
  rw [ht] at hts
  cases hts

theorem not_member (h : Roll w) (ht : w.store.threads t = none) : ¬w.store.Member t g := by
  intro hm
  have hts := (h.home g t hm).2
  rw [ht] at hts
  cases hts

theorem tidy (h : Roll w) : Grouped w where
  size := h.size
  nodup := h.nodup
  members g gs hgs t := by
    constructor
    · intro hmem
      exact h.home g t ⟨gs, hgs, hmem⟩
    · intro ⟨halive, hts⟩
      obtain ⟨g', gs', hts', hgs', hmem, -⟩ := h.group halive
      rw [hts] at hts'
      obtain rfl : g = g' := by injections
      rw [hgs] at hgs'
      obtain rfl := Option.some.inj hgs'
      exact hmem
  found := h.srchThread_eq

theorem setErrno (h : Roll w) (e : Errno) : Roll { w with store := w.store.setErrno e } :=
  ⟨h.allocated, h.size, h.nodup, h.home, h.place⟩

/-- A new group has no members, whether or not it gets onto the list. -/
theorem newGroup (h : Roll w) (hg : w.store.groups g = none) (hempty : gs.grpMembers = [])
    (hsize : gs.numListSize = 0) (elem : Bool) :
    Roll { w with store := (addGroupToGroups g elem (w.store.setGroup g gs)).2 } := by
  have hset : Roll { w with store := w.store.setGroup g gs } := by
    have hm (g' : Gid) (t : Thread) : (w.store.setGroup g gs).Member t g' ↔ w.store.Member t g' := by
      by_cases heq : g' = g <;> simp [Store.Member, heq, hg, hempty]
    constructor
    · grind [h.allocated]
    · grind [h.size]
    · grind [h.nodup]
    · intro g' t hmem
      exact h.home g' t ((hm g' t).mp hmem)
    · intro t ht
      obtain ⟨g', hl, hmem⟩ := h.place t ht
      exact ⟨g', hl, (hm g' t).mpr hmem⟩
  cases elem with
  | false => exact hset.setErrno _
  | true =>
    refine ⟨?_, hset.size, hset.nodup, hset.home, ?_⟩
    · intro g' hl
      obtain rfl | hl := List.mem_cons.mp hl
      · exact ⟨gs, by simp [addGroupToGroups, Store.setGroup]⟩
      · exact hset.allocated g' hl
    · intro t ht
      obtain ⟨g', hl, hm⟩ := hset.place t ht
      exact ⟨g', List.mem_cons_of_mem _ hl, hm⟩

/-- A new thread is on no list. -/
theorem newThread (h : Roll w) (ht : w.store.threads t = none) (ts : ThreadStore) :
    Roll { w with store := w.store.setThread t ts } := by
  refine ⟨h.allocated, h.size, h.nodup, ?_, h.place⟩
  intro g t' hm
  obtain ⟨halive, hts⟩ := h.home g t' hm
  have hne : t' ≠ t := by
    intro heq
    rw [heq, ht] at hts
    cases hts
  exact ⟨halive, by simpa [Store.setThread, hne] using hts⟩

/-- **A new member**, of a group that is on the list. -/
theorem add (h : Roll w) (ht : w.store.threads t = some ⟨some g⟩) (halive : w.alive t = false)
    (hg : w.store.groups g = some gs) (hl : g ∈ w.store.listStart) :
    Roll ⟨w.store.setGroup g
      { gs with grpMembers := t :: gs.grpMembers, numListSize := gs.numListSize + 1 },
      update w.alive t true⟩ := by
  have hnot : t ∉ gs.grpMembers := by
    intro hmem
    have := (h.home g t ⟨gs, hg, hmem⟩).1
    simp [halive] at this
  constructor
  · grind [h.allocated]
  · intro g' gs' hgs'
    have hsize := h.size g gs hg
    grind [h.size]
  · grind [h.nodup]
  · rintro g' t' ⟨gs', hgs', hmem⟩
    by_cases htt : t' = t
    · -- it was on no list, so that it is on this one only
      have hgg : g' = g := by
        by_contra hne
        have hm : w.store.Member t g' := ⟨gs', by simpa [hne] using hgs', htt ▸ hmem⟩
        simp [(h.home g' t hm).1] at halive
      simp [htt, hgg, ht]
    · have hm : w.store.Member t' g' := by
        by_cases hgg : g' = g <;> grind [Store.Member]
      simpa [htt] using h.home g' t' hm
  · intro t' ht'
    by_cases htt : t' = t
    · rw [htt]
      exact ⟨g, hl, _, by simp; rfl, List.mem_cons_self ..⟩
    · obtain ⟨g', hl', gs', hgs', hmem⟩ := h.place t' (by simpa [htt] using ht')
      refine ⟨g', hl', ?_⟩
      by_cases hgg : g' = g <;> grind [Store.Member]

/-- **A member less**. -/
theorem remove (h : Roll w) (hg : w.store.groups g = some gs) (hmem : t ∈ gs.grpMembers) :
    Roll ⟨(w.store.without g gs t).freeThread t, update w.alive t false⟩ := by
  have hnd := h.nodup g gs hg
  have hgroups (g' : Gid) : ((w.store.without g gs t).freeThread t).groups g' =
      if g' = g then some (gs.without t) else w.store.groups g' := update_apply ..
  have hm {t' : Thread} {g' : Gid} : ((w.store.without g gs t).freeThread t).Member t' g' ↔
      w.store.Member t' g' ∧ t' ≠ t := by
    unfold Store.Member
    rw [hgroups]
    by_cases hgg : g' = g
    · simp [hgg, hg, GroupStore.without, hnd.mem_erase_iff, and_comm]
    · simp only [hgg, if_false]
      refine ⟨fun ⟨gs', hgs', hmem'⟩ => ⟨⟨gs', hgs', hmem'⟩, ?_⟩, And.left⟩
      -- a member of two groups would have two homes
      rintro rfl
      have hhome := (h.home g t' ⟨gs, hg, hmem⟩).2.symm.trans (h.home g' t' ⟨gs', hgs', hmem'⟩).2
      injections
      exact hgg (Eq.symm ‹_›)
  constructor
  · intro g' hl
    rw [hgroups]
    split
    · exact ⟨_, rfl⟩
    · apply h.allocated
      simp only [Store.freeThread, Store.without] at hl
      split at hl
      · exact List.mem_of_mem_erase hl
      · exact hl
  · intro g' gs' hgs'
    rw [hgroups] at hgs'
    split at hgs'
    · obtain rfl := Option.some.inj hgs'
      have hpos := List.length_pos_of_mem hmem
      simp only [GroupStore.without, h.size g gs hg, List.length_erase_of_mem hmem]
      omega
    · exact h.size g' gs' hgs'
  · intro g' gs' hgs'
    rw [hgroups] at hgs'
    split at hgs'
    · obtain rfl := Option.some.inj hgs'
      exact hnd.erase t
    · exact h.nodup g' gs' hgs'
  · intro g' t' hmem'
    obtain ⟨hmem', hne⟩ := hm.mp hmem'
    simpa [Store.freeThread, Store.without, hne] using h.home g' t' hmem'
  · intro t' ht'
    have hne : t' ≠ t := by
      rintro rfl
      simp at ht'
    obtain ⟨g', hl', hmem'⟩ := h.place t' (by simpa [hne] using ht')
    refine ⟨g', ?_, hm.mpr ⟨hmem', hne⟩⟩
    simp only [Store.freeThread, Store.without]
    split
    · -- with another member the group stays
      have hgg : g' ≠ g := by
        rintro rfl
        obtain ⟨gs', hgs', hmem'⟩ := hmem'
        grind
      exact (List.mem_erase_of_ne hgg).mpr hl'
    · exact hl'

/-- Destroying a group marks it, and takes it from the list if it has no members. -/
theorem destroy (h : Roll w) (hg : w.store.groups g = some gs) :
    Roll { w with store :=
      { w.store.setGroup g { gs with deleteMe := true } with
        listStart := if gs.numListSize = 0 then w.store.listStart.erase g else w.store.listStart } } := by
  have hm {t' : Thread} {g' : Gid} : (w.store.setGroup g { gs with deleteMe := true }).Member t' g' ↔
      w.store.Member t' g' := by
    by_cases hgg : g' = g <;> simp [Store.Member, hgg, hg]
  constructor
  · intro g' hl
    have hl' : g' ∈ w.store.listStart := by
      dsimp only at hl
      split at hl
      · exact List.mem_of_mem_erase hl
      · exact hl
    obtain ⟨gs', hgs'⟩ := h.allocated g' hl'
    by_cases hgg : g' = g
    · exact ⟨_, by simp [hgg]; rfl⟩
    · exact ⟨gs', by simpa [hgg] using hgs'⟩
  · grind [h.size]
  · grind [h.nodup]
  · intro g' t' hmem
    exact h.home g' t' (hm.mp hmem)
  · intro t' ht'
    obtain ⟨g', hl', hmem⟩ := h.place t' ht'
    refine ⟨g', ?_, hm.mpr hmem⟩
    dsimp only
    split
    · have hgg : g' ≠ g := by
        rintro rfl
        obtain ⟨gs', hgs', hmem⟩ := hmem
        have hsize := h.size g' gs hg
        grind [List.length_pos_of_mem]
      exact (List.mem_erase_of_ne hgg).mpr hl'
    · exact hl'

theorem gidSetup (h : Roll w) {group : Option Gid} (hfresh : ∀ g ∈ group, w.store.groups g = none)
    (policy priority useEvents : Int) (elem : Bool) :
    Roll { w with store := (speGidSetup policy priority useEvents group elem w.store).2 } := by
  cases group with
  | none => exact h.setErrno _
  | some g => exact h.newGroup (hfresh g rfl) rfl rfl elem

end Roll

/-! ## Creating a thread -/

/-- What is there when the thread is put on a list. -/
structure Ready (w : State) (gid : Option Gid) (env : Setup) (t : Thread) (gid' : Option Gid)
    (s : Store) : Prop where
  roll : Roll { w with store := s }
  thread : s.threads t = none
  allocated : ∀ g ∈ gid', ∃ gs, s.groups g = some gs
  listed : (∃ g ∈ gid', g ∈ s.listStart) ↔ (gid = none → env.group.isSome ∧ env.groupElem = true)

/-- **Getting that far.** -/
theorem Roll.adds (h : Roll w) (hadds : Adds w.store gid handle argp mask flags env)
    (hgroup : ∀ g ∈ env.group, w.store.groups g = none)
    (hthread : ∀ t ∈ env.thread, w.store.threads t = none) :
    ∃ t gid' s, Ready w gid env t gid' s ∧
      speCreateThread gid handle argp mask flags env w.store =
        (addThreadToGroup gid' t env.threadElem (s.setThread t ⟨gid'⟩)).map fun r =>
          (if env.pthread = 0 then some t else none, r.2) := by
  obtain ⟨t, ht⟩ := Option.isSome_iff_exists.mp hadds.thread
  have hsetup (gid' : Option Gid) (s : Store) : setupThread gid' env s =
      (addThreadToGroup gid' t env.threadElem (s.setThread t ⟨gid'⟩)).map fun r => (some t, r.2) := by
    cases hadd : addThreadToGroup gid' t env.threadElem (s.setThread t ⟨gid'⟩) <;>
      simp [setupThread, ht, hadds.context, hadds.load, hadd]
  have hargs : ¬(¬handle = true ∨ flags &&& speUserRegs ≠ 0 ∧ ¬argp = true) := by
    have := hadds.argp
    simp only [hadds.handle]
    grind
  have hmask : ¬(mask = 0 ∨ mask &&& ((1 <<< speGroupMax env.entries) - 1) = 0) :=
    not_or.mpr hadds.mask
  cases gid with
  | some g =>
    have hl := hadds.listed g rfl
    obtain ⟨gs, hgs⟩ := h.allocated g hl
    have hroom : gs.numListSize ≠ maxThreadsPerGroup := hadds.room g rfl gs hgs
    refine ⟨t, some g, w.store, ⟨h, hthread t ht, ?_, ?_⟩, ?_⟩
    · rintro _ ⟨⟩
      exact ⟨gs, hgs⟩
    · simp [hl]
    · unfold speCreateThread
      rw [if_neg hargs, if_neg (by simp [srchGroup, hl]), if_neg hmask]
      cases hadd : addThreadToGroup (some g) t env.threadElem (w.store.setThread t ⟨some g⟩) <;>
        simp [speSetup, hgs, hroom, hsetup, hadd]
  | none =>
    let s := (speGidSetup w.store.defaultPolicy w.store.defaultPriority w.store.defaultEventmask env.group
      env.groupElem w.store).2
    have hcreate : speCreateThread none handle argp mask flags env w.store =
        (addThreadToGroup env.group t env.threadElem (s.setThread t ⟨env.group⟩)).map fun r =>
          (if env.pthread = 0 then some t else none, r.2) := by
      have hfst : speGidSetup w.store.defaultPolicy w.store.defaultPriority w.store.defaultEventmask
          env.group env.groupElem w.store = (env.group, s) := by
        cases hg : env.group <;> simp [s, speGidSetup, hg]
      unfold speCreateThread
      rw [if_neg hargs, if_neg (by simp), if_neg hmask]
      cases hadd : addThreadToGroup env.group t env.threadElem (s.setThread t ⟨env.group⟩) <;>
        simp [speSetup, hfst, hsetup, hadd]
    refine ⟨t, env.group, s, ⟨h.gidSetup hgroup _ _ _ _, ?_, ?_, ?_⟩, hcreate⟩
    · cases hg : env.group <;> cases hel : env.groupElem <;>
        simpa [s, speGidSetup, addGroupToGroups, Store.setErrno, hg, hel] using hthread t ht
    · intro g hg
      rw [Option.mem_def] at hg
      cases hel : env.groupElem <;> exact ⟨_, by simp [s, speGidSetup, addGroupToGroups, Store.setErrno, hg, hel]; rfl⟩
    · cases hg : env.group with
      | none => simp
      | some g =>
        have hnot : g ∉ w.store.listStart := by
          intro hl
          obtain ⟨gs, hgs⟩ := h.allocated g hl
          simp [hgroup g hg] at hgs
        cases hel : env.groupElem <;> simp [s, speGidSetup, addGroupToGroups, Store.setErrno, hg, hel, hnot]

/-- Without a thread, a context or a program nothing is put on a list. -/
theorem Roll.setupThread_refused (h : Roll w)
    (hnot : ¬(env.thread.isSome ∧ env.context = true ∧ env.load = 0))
    (hthread : ∀ t ∈ env.thread, w.store.threads t = none) :
    ∃ s, setupThread gid env w.store = some (none, s) ∧ Roll { w with store := s } := by
  cases ht : env.thread with
  | none => exact ⟨_, by simp [setupThread, ht], h.setErrno .ENOMEM⟩
  | some t =>
    have hload : ¬(env.context = true ∧ env.load = 0) := by simpa [ht] using hnot
    exact ⟨_, by simp [setupThread, ht, hload], h.newThread (hthread t ht) ⟨gid⟩⟩

/-- **Not getting that far**: no thread is handed out, and no list holds one. -/
theorem Roll.refused (h : Roll w) (hadds : ¬Adds w.store gid handle argp mask flags env)
    (hgroup : ∀ g ∈ env.group, w.store.groups g = none)
    (hthread : ∀ t ∈ env.thread, w.store.threads t = none) :
    ∃ s, speCreateThread gid handle argp mask flags env w.store = some (none, s) ∧
      Roll { w with store := s } := by
  unfold speCreateThread
  split
  · exact ⟨_, rfl, h.setErrno _⟩
  next hargs =>
  split
  · exact ⟨_, rfl, h.setErrno _⟩
  next hlisted =>
  split
  · exact ⟨_, rfl, h.setErrno _⟩
  next hmask =>
  have hl : ∀ g ∈ gid, g ∈ w.store.listStart := by
    intro g hg
    by_contra hnot
    exact hlisted ⟨g, hg, by simp [srchGroup, hnot]⟩
  have hsetup : ∃ s, speSetup gid env w.store = some (none, s) ∧ Roll { w with store := s } := by
    unfold speSetup
    cases gid with
    | none =>
      have hnot : ¬(env.thread.isSome ∧ env.context = true ∧ env.load = 0) := by
        rintro ⟨h₁, h₂, h₃⟩
        exact hadds ⟨by grind, by grind, hl, not_or.mp hmask, nofun, h₁, h₂, h₃⟩
      have hroll := h.gidSetup hgroup w.store.defaultPolicy w.store.defaultPriority
        w.store.defaultEventmask env.groupElem
      apply hroll.setupThread_refused hnot
      intro t ht
      cases hg : env.group <;> cases hel : env.groupElem <;>
        simpa [speGidSetup, addGroupToGroups, Store.setErrno] using hthread t ht
    | some g =>
      obtain ⟨gs, hgs⟩ := h.allocated g (hl g rfl)
      by_cases hroom : gs.numListSize = maxThreadsPerGroup
      · exact ⟨_, by simp [hgs, hroom], h.setErrno .ENOMEM⟩
      · have hnot : ¬(env.thread.isSome ∧ env.context = true ∧ env.load = 0) := by
          rintro ⟨h₁, h₂, h₃⟩
          refine hadds ⟨by grind, by grind, hl, not_or.mp hmask, ?_, h₁, h₂, h₃⟩
          rintro _ ⟨⟩ gs' hgs'
          rw [hgs] at hgs'
          exact Option.some.inj hgs' ▸ hroom
        have hrefused : ∃ s, setupThread (some g) env w.store = some (none, s) ∧ Roll { w with store := s } :=
          h.setupThread_refused hnot hthread
        obtain ⟨s, hs, hroll⟩ := hrefused
        exact ⟨s, by simpa [hgs, hroom] using hs, hroll⟩
  obtain ⟨s, hs, hroll⟩ := hsetup
  exact ⟨_, by simp [hs], hroll.setErrno .EINVAL⟩

/-- The store with the thread on the list of the group. -/
def Store.added (s : Store) (g : Gid) (gs : GroupStore) (t : Thread) : Store :=
  (s.setThread t ⟨some g⟩).setGroup g
    { gs with grpMembers := t :: gs.grpMembers, numListSize := gs.numListSize + 1 }

namespace Ready

variable {gid' : Option Gid}

theorem not_alive (h : Ready w gid env t gid' s) : w.alive t = false := h.roll.not_alive h.thread

/-- A thread that the caller has and no list. -/
theorem not_grouped_unlisted (h : Ready w gid env t gid' s) :
    ¬Grouped ⟨(s.setThread t ⟨gid'⟩).setErrno .ENOMEM, update w.alive t true⟩ := by
  intro hgrouped
  have hfound := hgrouped.found t
  simp [((h.roll.newThread h.thread ⟨gid'⟩).setErrno .ENOMEM).srchThread_eq, h.not_alive] at hfound

/-- A thread that the caller has and the list of a group, which is searched. -/
theorem roll_added (h : Ready w gid env t (some g) s) (hgs : s.groups g = some gs) (hl : g ∈ s.listStart) :
    Roll ⟨s.added g gs t, update w.alive t true⟩ :=
  (h.roll.newThread h.thread ⟨some g⟩).add (update_self ..) h.not_alive hgs hl

/-- The list of a group that is not on the list of the groups is not searched. -/
theorem not_grouped_hidden (h : Ready w gid env t (some g) s) (hl : g ∉ s.listStart) :
    ¬Grouped ⟨s.added g gs t, update w.alive t true⟩ := by
  intro hgrouped
  have hallocated : ∀ g' ∈ (s.added g gs t).listStart, ∃ gs', (s.added g gs t).groups g' = some gs' := by
    intro g' hl'
    obtain ⟨gs', hgs'⟩ := h.roll.allocated g' hl'
    have hgg : g' ≠ g := fun heq => hl (heq ▸ hl')
    exact ⟨gs', by simpa [Store.added, Store.setThread, hgg] using hgs'⟩
  obtain ⟨b, hb, hiff⟩ := searchGroups_eq (t := t) hallocated
  have hfound := hgrouped.found t
  have htrue : b = true := by
    cases b <;> simp [srchThread, hb] at hfound ⊢
  obtain ⟨g', hl', gs', hgs', hmem⟩ := hiff.mp htrue
  have hgg : g' ≠ g := fun heq => hl (heq ▸ hl')
  have hm : s.Member t g' := ⟨gs', by simpa [Store.added, Store.setThread, hgg] using hgs', hmem⟩
  exact h.roll.not_member h.thread hm

/-- A thread that a list has and not the caller. -/
theorem not_grouped_unstarted (h : Ready w gid env t (some g) s) :
    ¬Grouped ⟨s.added g gs t, w.alive⟩ := by
  intro hgrouped
  have hgroup : (s.added g gs t).groups g =
      some { gs with grpMembers := t :: gs.grpMembers, numListSize := gs.numListSize + 1 } := by
    simp [Store.added]
  have hmem := (hgrouped.members g _ hgroup t).mp (List.mem_cons_self ..)
  simp [h.not_alive] at hmem

end Ready

/-- **Creating**: when the next state is as asked. -/
theorem Roll.create (h : Roll w) (hp : (Call.speCreateThread gid handle argp mask flags env).Possible w) :
    ((Call.speCreateThread gid handle argp mask flags env).Keeps w →
      ∃ w', (Call.speCreateThread gid handle argp mask flags env).exec w = some w' ∧ Roll w') ∧
    ((∃ w', (Call.speCreateThread gid handle argp mask flags env).exec w = some w' ∧ Grouped w') →
      (Call.speCreateThread gid handle argp mask flags env).Keeps w) := by
  by_cases hadds : Adds w.store gid handle argp mask flags env
  · obtain ⟨t, gid', s, hready, heq⟩ := h.adds hadds hp.1 hp.2
    have hkeeps : (Call.speCreateThread gid handle argp mask flags env).Keeps w ↔
        if env.pthread = 0 then env.threadElem = true ∧ ∃ g ∈ gid', g ∈ s.listStart
        else env.threadElem = false := by
      rw [hready.listed]
      exact ⟨fun hk => hk hadds, fun hk _ => hk⟩
    rw [hkeeps]
    cases hel : env.threadElem with
    | false =>
      have hexec : (Call.speCreateThread gid handle argp mask flags env).exec w =
          some ⟨(s.setThread t ⟨gid'⟩).setErrno .ENOMEM,
            if env.pthread = 0 then update w.alive t true else w.alive⟩ := by
        by_cases hstart : env.pthread = 0 <;> simp [Call.exec, heq, addThreadToGroup, hel, hstart]
      rw [hexec]
      by_cases hstart : env.pthread = 0
      · simp only [hstart, if_true]
        refine ⟨nofun, fun ⟨w', hw', hgrouped⟩ => ?_⟩
        obtain rfl := Option.some.inj hw'
        exact absurd hgrouped hready.not_grouped_unlisted
      · simp only [hstart, if_false]
        have hnew := hready.roll.newThread hready.thread ⟨gid'⟩
        exact ⟨fun _ => ⟨_, rfl, hnew.setErrno .ENOMEM⟩, fun _ => trivial⟩
    | true =>
      cases gid' with
      | none =>
        -- the null pointer is followed
        have hexec : (Call.speCreateThread gid handle argp mask flags env).exec w = none := by
          simp [Call.exec, heq, addThreadToGroup, hel]
        rw [hexec]
        exact ⟨fun hk => by simp at hk, nofun⟩
      | some g =>
        obtain ⟨gs, hgs⟩ := hready.allocated g rfl
        have hgs' : (s.setThread t ⟨some g⟩).groups g = some gs := hgs
        have hexec : (Call.speCreateThread gid handle argp mask flags env).exec w =
            some ⟨s.added g gs t, if env.pthread = 0 then update w.alive t true else w.alive⟩ := by
          by_cases hstart : env.pthread = 0 <;>
            simp [Call.exec, heq, addThreadToGroup, hel, hstart, hgs', Store.added]
        rw [hexec]
        by_cases hstart : env.pthread = 0
        · simp only [hstart, if_true]
          constructor
          · rintro ⟨-, _, ⟨⟩, hl⟩
            exact ⟨_, rfl, hready.roll_added hgs hl⟩
          · rintro ⟨w', hw', hgrouped⟩
            obtain rfl := Option.some.inj hw'
            refine ⟨trivial, g, rfl, ?_⟩
            by_contra hl
            exact hready.not_grouped_hidden hl hgrouped
        · simp only [hstart, if_false]
          refine ⟨nofun, fun ⟨w', hw', hgrouped⟩ => ?_⟩
          obtain rfl := Option.some.inj hw'
          exact absurd hgrouped hready.not_grouped_unstarted
  · obtain ⟨s, hs, hroll⟩ := h.refused hadds hp.1 hp.2
    exact ⟨fun _ => ⟨_, by simp [Call.exec, hs], hroll⟩, fun _ hadds' => absurd hadds' hadds⟩

/-! ## Waiting for a thread -/

variable {speid : Thread} {status : Bool} {options : UInt32} {join : Join}

/-- The thread is taken off its list if it is not at the head of a longer one. -/
theorem Roll.cleanup (h : Roll w) (ht : w.alive speid = true) :
    (¬AtHead w.store speid → ∃ s, speCleanup speid w.store = some s ∧
      Roll ⟨s, update w.alive speid false⟩) ∧
    (AtHead w.store speid → ∀ s, speCleanup speid w.store = some s →
      ¬Grouped ⟨s, update w.alive speid false⟩) := by
  obtain ⟨g, gs, hts, hgs, hmem, -⟩ := h.group ht
  have hhead : AtHead w.store speid ↔ 2 ≤ gs.grpMembers.length ∧ gs.grpMembers.head? = some speid := by
    simp [AtHead, hts, hgs]
  have hiff := removes_iff (t := speid) hgs (h.size g gs hgs) (h.nodup g gs hgs)
  rw [hhead]
  constructor
  · intro hnot
    have hremoves : Removes w.store g gs speid := by
      apply hiff.mpr
      rcases hl : gs.grpMembers with - | ⟨p, - | ⟨q, rest⟩⟩
      · simp [hl] at hmem
      · simp_all
      · simp_all
    refine ⟨_, ?_, h.remove hgs hmem⟩
    simp [speCleanup, hts, hremoves.member hmem]
  · intro ⟨hlen, hfirst⟩ s hs hgrouped
    rcases hl : gs.grpMembers with - | ⟨p, rest⟩
    · simp [hl] at hmem
    · obtain rfl : p = speid := by simpa [hl] using hfirst
      have hrest : rest ≠ [] := by
        rintro rfl
        simp [hl] at hlen
      have hnd := h.nodup g gs hgs
      rw [hl] at hnd
      have hmany := removeThreadFromGroup_many (t := p) hgs hl hrest (h.size g gs hgs)
      rw [if_neg (List.nodup_cons.mp hnd).1] at hmany
      obtain rfl : (w.store.setErrno .ESRCH).freeThread p = s := by
        simpa [speCleanup, hts, hmany] using hs
      -- it is still on the list
      have hmem' := (hgrouped.members g gs hgs p).mp hmem
      simp at hmem'

/-- **Waiting**: when the next state is as asked. -/
theorem Roll.wait (h : Roll w) :
    ((Call.speWait speid status options join).Keeps w →
      ∃ w', (Call.speWait speid status options join).exec w = some w' ∧ Roll w') ∧
    ((∃ w', (Call.speWait speid status options join).exec w = some w' ∧ Grouped w') →
      (Call.speWait speid status options join).Keeps w) := by
  cases ht : w.alive speid with
  | false =>
    have hnot : ¬Waited w.store speid options join := by simp [Waited, h.search, ht]
    have hexec : (Call.speWait speid status options join).exec w =
        some { w with store := w.store.setErrno .ESRCH } := by
      simp [Call.exec, speWait, h.srchThread_eq, ht, hnot]
    refine ⟨fun _ => ⟨_, hexec, h.setErrno _⟩, fun _ => ⟨fun hsearch => ?_, fun hw => absurd hw hnot⟩⟩
    simp [h.search, ht] at hsearch
  | true =>
    obtain ⟨g, gs, hts, -⟩ := h.group ht
    have hwaited : Waited w.store speid options join ↔ ¬join.AtOnce options ∧ join.rc = 0 := by
      simp [Waited, h.search, ht]
    have hkeeps : (Call.speWait speid status options join).Keeps w ↔
        (join.AtOnce options ∨ join.Stopped options → status = true) ∧
        (¬join.AtOnce options ∧ join.rc = 0 → ¬AtHead w.store speid) := by
      simp [Call.Keeps, hwaited, h.search, ht]
    rw [hkeeps]
    by_cases hstatus : (join.AtOnce options ∨ join.Stopped options) ∧ status = false
    · -- the null pointer is stored to
      have hexec : (Call.speWait speid status options join).exec w = none := by
        by_cases honce : join.AtOnce options
        · simp [Call.exec, speWait, h.srchThread_eq, ht, honce, hstatus.2]
        · have hstopped := hstatus.1.resolve_left honce
          simp [Call.exec, speWait, h.srchThread_eq, ht, honce, hstopped, hstatus.2]
      rw [hexec]
      refine ⟨fun hk => ?_, nofun⟩
      have htrue := hk.1 hstatus.1
      simp [hstatus.2] at htrue
    · have hstores : join.AtOnce options ∨ join.Stopped options → status = true := by
        intro hs
        by_contra hfalse
        exact hstatus ⟨hs, by simpa using hfalse⟩
      have hgo : ¬(join.Stopped options ∧ status = false) := by
        rintro ⟨hs, hfalse⟩
        simp [hstores (.inr hs)] at hfalse
      by_cases hw : ¬join.AtOnce options ∧ join.rc = 0
      · have hexec : (Call.speWait speid status options join).exec w =
            (speCleanup speid w.store).map fun s => ⟨s, update w.alive speid false⟩ := by
          cases hclean : speCleanup speid w.store <;>
            simp [Call.exec, speWait, h.srchThread_eq, ht, hts, hwaited, hw, hgo, hclean]
        obtain ⟨hkeep, hbreak⟩ := h.cleanup ht
        rw [hexec]
        constructor
        · intro hk
          obtain ⟨s, hs, hroll⟩ := hkeep (hk.2 hw)
          exact ⟨_, by rw [hs]; rfl, hroll⟩
        · rintro ⟨w', hw', hgrouped⟩
          obtain ⟨s, hs, rfl⟩ := Option.map_eq_some_iff.mp hw'
          exact ⟨hstores, fun _ hhead => hbreak hhead s hs hgrouped⟩
      · have hexec : (Call.speWait speid status options join).exec w = some w := by
          by_cases honce : join.AtOnce options
          · simp [Call.exec, speWait, h.srchThread_eq, ht, hts, hwaited, honce, hstores (.inl honce)]
          · have hrc : join.rc ≠ 0 := fun hrc => hw ⟨honce, hrc⟩
            simp [Call.exec, speWait, h.srchThread_eq, ht, hts, hwaited, honce, hgo, hrc]
        rw [hexec]
        exact ⟨fun _ => ⟨w, rfl, h⟩, fun _ => ⟨hstores, fun hw' => absurd hw' hw⟩⟩

/-! ## Runs -/

/-- **One call**: the condition is what makes the next state as asked. -/
theorem Roll.step (h : Roll w) {c : Call} (hp : c.Possible w) :
    (c.Keeps w → ∃ w', c.exec w = some w' ∧ Roll w') ∧
    ((∃ w', c.exec w = some w' ∧ Grouped w') → c.Keeps w) := by
  cases c with
  | speCreateGroup policy priority useEvents group elem =>
    refine ⟨fun _ => ⟨_, rfl, ?_⟩, fun _ => trivial⟩
    unfold speCreateGroup
    split
    · exact h.gidSetup hp policy priority useEvents elem
    · exact h.setErrno _
  | speGroupDefaults policy priority speEvents =>
    refine ⟨fun _ => ⟨_, rfl, ?_⟩, fun _ => trivial⟩
    unfold speGroupDefaults
    split
    · exact ⟨h.allocated, h.size, h.nodup, h.home, h.place⟩
    · exact h.setErrno _
  | speCreateThread gid handle argp mask flags env => exact h.create hp
  | speWait speid status options join => exact h.wait
  | speDestroyGroup gid =>
    cases gid with
    | none => exact ⟨fun hk => absurd rfl hk, nofun⟩
    | some g =>
      refine ⟨fun _ => ?_, fun _ => nofun⟩
      by_cases hl : g ∈ w.store.listStart
      · obtain ⟨gs, hgs⟩ := h.allocated g hl
        refine ⟨_, ?_, h.destroy hgs⟩
        have hgs' : (w.store.setGroup g { gs with deleteMe := true }).groups g =
            some { gs with deleteMe := true } := by simp
        simp [Call.exec, speDestroyGroup, srchGroup, hl, hgs, removeGroupFromGroups_eq hgs']
      · exact ⟨_, by simp [Call.exec, speDestroyGroup, srchGroup, hl], (h.setErrno .ESRCH).setErrno .ESRCH⟩

/-- **Whole runs.** -/
theorem Roll.run (h : Roll w) {calls : List Call} (hp : Along (fun w c => c.Possible w) w calls) :
    AlwaysGrouped w calls ↔ Along (fun w c => c.Keeps w) w calls := by
  induction calls generalizing w with
  | nil => exact ⟨fun _ => trivial, fun _ => h.tidy⟩
  | cons c calls ih =>
    obtain ⟨hpc, hps⟩ := hp
    obtain ⟨hkeep, hneeds⟩ := h.step hpc
    constructor
    · rintro ⟨-, w', hw', halways⟩
      have hk : c.Keeps w := by
        apply hneeds
        cases calls with
        | nil => exact ⟨w', hw', halways⟩
        | cons c' calls => exact ⟨w', hw', halways.1⟩
      obtain ⟨w'', hw'', hroll⟩ := hkeep hk
      obtain rfl := Option.some.inj (hw'.symm.trans hw'')
      refine ⟨hk, ?_⟩
      rw [hw'] at hps ⊢
      exact (ih hroll hps).mp halways
    · rintro ⟨hk, hks⟩
      obtain ⟨w', hw', hroll⟩ := hkeep hk
      rw [hw'] at hps hks
      exact ⟨h.tidy, w', hw', (ih hroll hps).mpr hks⟩

/-- **Group membership.** In a run of calls the groups and their threads are as asked in every state between
the calls just if every call meets its condition; and a thread is taken out of a group as asked just if it is
the only member, or there are two members or more and it is not the first one. -/
theorem grouped (calls : List Call) (hp : Along (fun w c => c.Possible w) .init calls) :
    (AlwaysGrouped .init calls ↔ Along (fun w c => c.Keeps w) .init calls) ∧
    ∀ (s : Store) (g : Gid) (gs : GroupStore) (t : Thread), s.groups g = some gs →
      gs.numListSize = gs.grpMembers.length → gs.grpMembers.Nodup →
      (Removes s g gs t ↔
        gs.grpMembers = [t] ∨ 2 ≤ gs.grpMembers.length ∧ gs.grpMembers.head? ≠ some t) :=
  ⟨Roll.init.run hp, fun _ _ _ _ hg hsize hnd => removes_iff hg hsize hnd⟩

/-- A group at 1 with the threads at 10 and at 11, and one of them is waited for. -/
def createTwoAndWait (t : Thread) : List Call :=
  let env (t : Thread) : Setup :=
    { entries := none, group := none, groupElem := false, thread := some t, context := true, load := 0,
      threadElem := true, pthread := 0 }
  [.speCreateGroup 0 0 0 (some 1) true,
    .speCreateThread (some 1) true false 1 0 (env 10),
    .speCreateThread (some 1) true false 1 0 (env 11),
    .speWait t true 0 ⟨99, 0, 0x20000000⟩]

theorem createTwoAndWait_possible (ht : t = 10 ∨ t = 11) :
    Along (fun w c => c.Possible w) .init (createTwoAndWait t) := by
  refine ⟨fun _ _ => rfl, ⟨nofun, ?_⟩, ⟨nofun, ?_⟩, ?_⟩
  · rintro _ ⟨⟩
    rfl
  · rintro _ ⟨⟩
    rfl
  · obtain rfl | rfl := ht <;> exact ⟨trivial, trivial⟩

/-- The first of the two is not at the head. -/
theorem grouped_first : AlwaysGrouped .init (createTwoAndWait 10) := by
  apply (grouped _ (createTwoAndWait_possible (.inl rfl))).1.mpr
  refine ⟨trivial, fun _ => ⟨rfl, nofun⟩, fun _ => ⟨rfl, nofun⟩, ⟨fun _ _ => rfl, ?_⟩, trivial⟩
  rintro - ⟨_, ⟨⟩, _, ⟨⟩, -, hhead⟩
  cases hhead

/-- The second one is, and stays on the list. -/
theorem not_grouped : Along (fun w c => c.Possible w) .init (createTwoAndWait 11) ∧
    ¬AlwaysGrouped .init (createTwoAndWait 11) := by
  refine ⟨createTwoAndWait_possible (.inr rfl), ?_⟩
  rintro ⟨-, _, ⟨⟩, -, _, ⟨⟩, -, _, ⟨⟩, -, _, ⟨⟩, hgrouped⟩
  have hmem := (hgrouped.members 1 _ rfl 11).mp (List.mem_cons_self ..)
  cases hmem.1

end LibSpe2.Spe12.Groups
