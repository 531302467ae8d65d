import LibSpe2.Conc.Solo
import LibSpe2.Spe12.GroupMembers

/-!
# Calls that overlap (`libspe12/spethreads.c`, `libspe12/spe.c`)

`spe_create_thread` in a given group and `spe_wait`, one access to the lists at a time: the lists are changed
under the lock, and the size of a group is tested without it, before the context is created and loaded.

* `Cmd`, `exec` — one access to the lists or to a group, or one call of the system.
* `speCreateThread`, `speWait` — the calls.
* `World.past` is history, which no code looks at: for each group the calls that have passed the test and whose
  member has not been counted yet.

Main results: `addThreadToGroup_solo` and `removeThreadFromGroup_solo`, with nobody else moving, the accesses do
what the functions of `Spe12/Groups.lean` do.
-/

namespace LibSpe2.Spe12.Limit

open Conc Function Groups

/-! ## The machine -/

structure World where
  store : Store
  /-- The thread that has `grp_list.mutex`. -/
  grpLock : Option Tid
  past : Groups.Gid → List Tid

inductive Cmd where
  | lockGroups
  | unlockGroups
  /-- The loops of `srch_group` and `srch_thread`. -/
  | isGroup (gid : Groups.Gid)
  | isMember (th : Thread)
  /-- The directory that `spe_group_max` reads. -/
  | entries
  /-- `grp->numListSize == MAX_THREADS_PER_GROUP`. -/
  | testSize (gid : Groups.Gid)
  /-- The allocation of the thread, its context and the program: the thread, if it has them all. -/
  | setup (gid : Groups.Gid)
  /-- `malloc` in `add_thread_to_group`. -/
  | mallocElem (gid : Groups.Gid)
  /-- `gid->grp_members = listElem`, and `gid->numListSize++`. -/
  | linkMember (gid : Groups.Gid) (th : Thread)
  | countMember (gid : Groups.Gid)
  | pthreadCreate
  | threadStatus (th : Thread)
  | pthreadJoin (th : Thread)
  | groupId (th : Thread)
  | numListSize (gid : Groups.Gid)
  /-- `gid->numListSize--`. -/
  | uncount (gid : Groups.Gid)
  /-- `gid->grp_members = NULL`. -/
  | clearMembers (gid : Groups.Gid)
  /-- The loop of `remove_thread_from_group`, up to `p->next = np->next`. -/
  | unlinkMember (gid : Groups.Gid) (th : Thread)
  | deleteMe (gid : Groups.Gid)
  /-- The loop of `remove_group_from_groups`. -/
  | unlistGroup (gid : Groups.Gid)
  | freeThread (th : Thread)
  | setErrno (e : Errno)

@[reducible] def Ans : Cmd → Type
  | .isGroup _ | .isMember _ | .mallocElem _ | .unlinkMember _ _ | .deleteMe _ => Bool
  | .entries => Option Nat
  | .testSize _ | .numListSize _ | .pthreadCreate | .threadStatus _ | .pthreadJoin _ | .unlistGroup _ => Int
  | .setup _ => Option Thread
  | .groupId _ => Groups.Gid
  | _ => Unit

namespace World

variable (s : World)

def setGroup (g : Groups.Gid) (gs : Groups.GroupStore) : World := { s with store := s.store.setGroup g gs }

/-- A call has passed the test. -/
def pass (g : Groups.Gid) (t : Tid) : World := { s with past := update s.past g (t :: s.past g) }

/-- Its member is counted, or there will be none. -/
def leave (g : Groups.Gid) (t : Tid) : World := { s with past := update s.past g ((s.past g).erase t) }

end World

/-- `exec t c r s`: the state after `c` of thread `t` was answered `r` in `s`. A null pointer, or one that has
been freed, is not followed. -/
def exec (t : Tid) : (c : Cmd) → Ans c → World → Option World
  | .lockGroups, _, s => if s.grpLock = none then some { s with grpLock := some t } else none
  | .unlockGroups, _, s => if s.grpLock = some t then some { s with grpLock := none } else none
  | .isGroup g, found, s => if found = decide (g ∈ s.store.listStart) then some s else none
  | .isMember th, found, s =>
    if searchGroups s.store th s.store.listStart = some found then some s else none
  | .testSize g, n, s => do
    let gs ← s.store.groups g
    if n ≠ gs.numListSize then none
    else if n = maxThreadsPerGroup then some s
    else some (s.pass g t)
  | .setup g, none, s => some (s.leave g t)
  | .setup g, some th, s =>
    if s.store.threads th = none then some { s with store := s.store.setThread th ⟨some g⟩ } else none
  | .mallocElem g, elem, s => some (if elem then s else s.leave g t)
  | .linkMember g th, _, s => do
    let gs ← s.store.groups g
    some (s.setGroup g { gs with grpMembers := th :: gs.grpMembers })
  | .countMember g, _, s => do
    let gs ← s.store.groups g
    some ((s.setGroup g { gs with numListSize := gs.numListSize + 1 }).leave g t)
  | .groupId th, g, s => do
    let ts ← s.store.threads th
    if ts.groupId = some g then some s else none
  | .numListSize g, n, s => do
    let gs ← s.store.groups g
    if n = gs.numListSize then some s else none
  | .uncount g, _, s => do
    let gs ← s.store.groups g
    some (s.setGroup g { gs with numListSize := gs.numListSize - 1 })
  | .clearMembers g, _, s => do
    let gs ← s.store.groups g
    some (s.setGroup g { gs with grpMembers := [] })
  | .unlinkMember g th, found, s => do
    let gs ← s.store.groups g
    match gs.grpMembers with
    | [] => none
    | p :: rest =>
      match removeNext th rest, found with
      | some rest', true => some (s.setGroup g { gs with grpMembers := p :: rest' })
      | none, false => some s
      | _, _ => none
  | .deleteMe g, v, s => do
    let gs ← s.store.groups g
    if v = gs.deleteMe then some s else none
  | .unlistGroup g, rc, s => do
    let (rc', store) ← removeGroupFromGroups g s.store
    if rc = rc' then some { s with store } else none
  | .freeThread th, _, s => some { s with store := s.store.freeThread th }
  | .setErrno e, _, s => some { s with store := s.store.setErrno e }
  | .entries, _, s | .pthreadCreate, _, s | .threadStatus _, _, s | .pthreadJoin _, _, s => some s

def machine : Machine Cmd Ans Tid World := ⟨exec⟩

abbrev Code := Prog Cmd Ans

abbrev perform (c : Cmd) : Code (Ans c) := Prog.perform c

/-! ## The code -/

/-- `srch_group`. -/
def srchGroup (gid : Groups.Gid) : Code Bool := do
  perform .lockGroups
  let found ← perform (.isGroup gid)
  perform .unlockGroups
  if found then return true
  else
    perform (.setErrno .ESRCH)
    return false

/-- `srch_thread`. -/
def srchThread (th : Thread) : Code Bool := do
  perform .lockGroups
  let found ← perform (.isMember th)
  perform .unlockGroups
  if found then return true
  else
    perform (.setErrno .ESRCH)
    return false

/-- `add_thread_to_group`. -/
def addThreadToGroup (gid : Groups.Gid) (th : Thread) : Code Int := do
  if ← perform (.mallocElem gid) then
    perform .lockGroups
    perform (.linkMember gid th)
    perform (.countMember gid)
    perform .unlockGroups
    return 0
  else
    perform (.setErrno .ENOMEM)
    return -enomem

/-- `spe_setup` of a given group. -/
def speSetup (gid : Groups.Gid) : Code (Option Thread) := do
  let n ← perform (.testSize gid)
  if n = maxThreadsPerGroup then
    perform (.setErrno .ENOMEM)
    return none
  else
    match ← perform (.setup gid) with
    | none => return none
    | some th => do
      -- `rc` is not looked at
      let _ ← addThreadToGroup gid th
      return some th

/-- `spe_create_thread` in a given group; `handle` and `argp` are whether these pointers are not null. -/
def speCreateThread (gid : Groups.Gid) (handle argp : Bool) (mask : Nat) (flags : UInt32) : Code (Option Thread) := do
  if ¬handle ∨ flags &&& speUserRegs ≠ 0 ∧ ¬argp then
    perform (.setErrno .EINVAL)
    return none
  else if ← srchGroup gid then
    let entries ← perform .entries
    if mask = 0 ∨ mask &&& ((1 <<< speGroupMax entries) - 1) = 0 then
      perform (.setErrno .EINVAL)
      return none
    else
      match ← speSetup gid with
      | none => do
        perform (.setErrno .EINVAL)
        return none
      | some th => do
        let rc ← perform .pthreadCreate
        return if rc = 0 then some th else none
  else return none

/-- `remove_group_from_groups`. -/
def removeGroupFromGroups (gid : Groups.Gid) : Code Int := do
  perform .lockGroups
  let rc ← perform (.unlistGroup gid)
  perform .unlockGroups
  return rc

/-- `remove_thread_from_group`. -/
def removeThreadFromGroup (gid : Groups.Gid) (th : Thread) : Code Int := do
  perform .lockGroups
  if (← perform (.numListSize gid)) = 1 then
    perform (.uncount gid)
    perform (.clearMembers gid)
    perform .unlockGroups
    if ← perform (.deleteMe gid) then
      let _ ← removeGroupFromGroups gid
      return 0
    else return 0
  else if ← perform (.unlinkMember gid th) then
    perform (.uncount gid)
    perform .unlockGroups
    return 0
  else
    perform .unlockGroups
    perform (.setErrno .ESRCH)
    return -esrch

/-- `spe_wait`; what it stores to `*status` has nothing to do with the groups. -/
def speWait (speid : Thread) (options : UInt32) : Code Int := do
  if ← srchThread speid then
    let threadStatus ← perform (.threadStatus speid)
    if options &&& wnohang ≠ 0 ∧ threadStatus ≠ 99 then return 0
    else
      let rc ← perform (.pthreadJoin speid)
      if rc ≠ 0 then return -1
      else
        let gid ← perform (.groupId speid)
        let _ ← removeThreadFromGroup gid speid
        perform (.freeThread speid)
        return rc
  else return -1

/-! ## Calls -/

inductive Call where
  | create (gid : Groups.Gid) (handle argp : Bool) (mask : Nat) (flags : UInt32)
  | wait (speid : Thread) (options : UInt32)

def Call.code : Call → Code Unit
  | .create gid handle argp mask flags => do
    let _ ← speCreateThread gid handle argp mask flags
  | .wait speid options => do
    let _ ← speWait speid options

/-! ## One call on its own -/

section

variable {α : Type} {Q : List (Sigma Ans) → α → World → Prop} {s : World} {t : Tid} {g : Groups.Gid} {th : Thread}
  {gs gs' : Groups.GroupStore}

theorem solo_lock {k : Unit → Code α}
    (h : Solo machine t (k ()) { s with grpLock := some t } fun tr => Q (⟨.lockGroups, ()⟩ :: tr)) :
    Solo machine t ((perform .lockGroups).bind k) s Q := by
  apply Solo.perform
  intro _ s₁ hs
  have hs : (if s.grpLock = none then some { s with grpLock := some t } else none) = some s₁ := hs
  split at hs
  · cases hs
    exact h
  · cases hs

theorem solo_unlock {k : Unit → Code α}
    (h : Solo machine t (k ()) { s with grpLock := none } fun tr => Q (⟨.unlockGroups, ()⟩ :: tr)) :
    Solo machine t ((perform .unlockGroups).bind k) s Q := by
  apply Solo.perform
  intro _ s₁ hs
  have hs : (if s.grpLock = some t then some { s with grpLock := none } else none) = some s₁ := hs
  split at hs
  · cases hs
    exact h
  · cases hs

theorem setGroup_setGroup (x : Store) : (x.setGroup g gs).setGroup g gs' = x.setGroup g gs' := by
  rw [Store.setGroup, Store.setGroup, Store.setGroup, update_idem]

theorem groups_self (x : Store) : (x.setGroup g gs).groups g = some gs := update_self ..

/-- With nobody else moving, a member is added as `Spe12/Groups.lean` says. -/
theorem addThreadToGroup_solo : Solo machine t (addThreadToGroup g th) s fun _ rc s' =>
    ∃ elem, Groups.addThreadToGroup (some g) th elem s.store = some (rc, s'.store) := by
  apply Solo.perform
  intro elem s₁ hs₁
  cases hs₁
  cases elem with
  | true =>
    apply solo_lock
    apply Solo.perform
    intro _ s₂ hs₂
    obtain ⟨gs, hg, hs₂⟩ := Option.bind_eq_some_iff.mp hs₂
    have hg : s.store.groups g = some gs := hg
    cases hs₂
    apply Solo.perform
    intro _ s₃ hs₃
    obtain ⟨gs₁, hg₁, hs₃⟩ := Option.bind_eq_some_iff.mp hs₃
    obtain rfl := Option.some.inj ((groups_self s.store).symm.trans hg₁)
    cases hs₃
    apply solo_unlock
    refine Solo.ret ⟨true, ?_⟩
    rw [Groups.addThreadToGroup, if_pos rfl]
    show (s.store.groups g).bind _ = _
    rw [hg]
    exact congrArg (fun x => some ((0 : Int), x)) (setGroup_setGroup s.store).symm
  | false =>
    apply Solo.perform
    intro _ s₂ hs₂
    cases hs₂
    exact Solo.ret ⟨false, rfl⟩

theorem removeGroupFromGroups_solo : Solo machine t (removeGroupFromGroups g) s fun _ rc s' =>
    Groups.removeGroupFromGroups g s.store = some (rc, s'.store) := by
  apply solo_lock
  apply Solo.perform
  intro rc s₁ hs₁
  obtain ⟨⟨rc', store⟩, hstore, hs₁⟩ := Option.bind_eq_some_iff.mp hs₁
  have hs₁ : (if rc = rc' then some { s with grpLock := some t, store } else none) = some s₁ := hs₁
  split at hs₁
  · next hrc =>
    cases hs₁
    subst hrc
    apply solo_unlock
    exact Solo.ret hstore
  · cases hs₁

/-- A group of one member, whichever it is. -/
theorem removeThreadFromGroup_one (th : Thread) {x : Store} (hg : x.groups g = some gs)
    (hone : gs.numListSize = 1) :
    Groups.removeThreadFromGroup (some g) th x =
      if gs.deleteMe then (Groups.removeGroupFromGroups g (x.setGroup g
        { gs with numListSize := gs.numListSize - 1, grpMembers := [] })).map fun y => (0, y.2)
      else some (0, x.setGroup g { gs with numListSize := gs.numListSize - 1, grpMembers := [] }) := by
  rw [Groups.removeThreadFromGroup]
  show (x.groups g).bind _ = _
  rw [hg]
  show (if gs.numListSize = 1 then _ else _) = _
  rw [if_pos hone]
  by_cases hdel : gs.deleteMe = true
  · rw [if_pos hdel, if_pos hdel]
    generalize Groups.removeGroupFromGroups g _ = y
    cases y <;> rfl
  · rw [if_neg hdel, if_neg hdel]
    rfl

/-- A group that does not have one member. -/
theorem removeThreadFromGroup_more (th : Thread) {x : Store} (hg : x.groups g = some gs)
    (hone : gs.numListSize ≠ 1) :
    Groups.removeThreadFromGroup (some g) th x =
      match gs.grpMembers with
      | [] => none
      | p :: rest =>
        match removeNext th rest with
        | some rest' =>
          some (0, x.setGroup g { gs with grpMembers := p :: rest', numListSize := gs.numListSize - 1 })
        | none => some (-esrch, x.setErrno .ESRCH) := by
  rw [Groups.removeThreadFromGroup]
  show (x.groups g).bind _ = _
  rw [hg]
  show (if gs.numListSize = 1 then _ else _) = _
  rw [if_neg hone]
  rfl

/-- With nobody else moving, a member is removed as `Spe12/Groups.lean` says. -/
theorem removeThreadFromGroup_solo : Solo machine t (removeThreadFromGroup g th) s fun _ rc s' =>
    Groups.removeThreadFromGroup (some g) th s.store = some (rc, s'.store) := by
  apply solo_lock
  apply Solo.perform
  intro n s₁ hs₁
  obtain ⟨gs, hg, hs₁⟩ := Option.bind_eq_some_iff.mp hs₁
  have hg : s.store.groups g = some gs := hg
  split at hs₁
  on_goal 2 => cases hs₁
  next hn =>
  cases hs₁
  have hn : n = gs.numListSize := hn
  subst hn
  by_cases hone : gs.numListSize = 1
  · rw [if_pos hone]
    apply Solo.perform
    intro _ s₂ hs₂
    obtain ⟨gs₁, hg₁, hs₂⟩ := Option.bind_eq_some_iff.mp hs₂
    obtain rfl := Option.some.inj (hg.symm.trans hg₁)
    cases hs₂
    apply Solo.perform
    intro _ s₃ hs₃
    obtain ⟨gs₂, hg₂, hs₃⟩ := Option.bind_eq_some_iff.mp hs₃
    obtain rfl := Option.some.inj ((groups_self s.store).symm.trans hg₂)
    cases hs₃
    apply solo_unlock
    apply Solo.perform
    intro deleteMe s₄ hs₄
    obtain ⟨gs₃, hg₃, hs₄⟩ := Option.bind_eq_some_iff.mp hs₄
    obtain rfl := Option.some.inj ((groups_self _).symm.trans hg₃)
    split at hs₄
    on_goal 2 => cases hs₄
    next hdel =>
    cases hs₄
    have hdel : deleteMe = gs.deleteMe := hdel
    subst hdel
    have hremove := removeThreadFromGroup_one th hg hone
    have hstore : (s.store.setGroup g { gs with numListSize := gs.numListSize - 1 }).setGroup g
        { gs with numListSize := gs.numListSize - 1, grpMembers := [] } =
          s.store.setGroup g { gs with numListSize := gs.numListSize - 1, grpMembers := [] } :=
      setGroup_setGroup s.store
    split
    · next hdel =>
      rw [if_pos hdel] at hremove
      refine Solo.bind (Solo.mono removeGroupFromGroups_solo ?_)
      intro tr rc s₅ hs₅
      have hs₅ : Groups.removeGroupFromGroups g (s.store.setGroup g
          { gs with numListSize := gs.numListSize - 1, grpMembers := [] }) = some (rc, s₅.store) := by
        rw [← hstore]
        exact hs₅
      rw [hs₅] at hremove
      exact Solo.ret hremove
    · next hdel =>
      rw [if_neg hdel] at hremove
      apply Solo.ret
      rw [hremove]
      exact congrArg (fun x => some ((0 : Int), x)) hstore.symm
  · rw [if_neg hone]
    apply Solo.perform
    intro found s₂ hs₂
    obtain ⟨gs₁, hg₁, hs₂⟩ := Option.bind_eq_some_iff.mp hs₂
    obtain rfl := Option.some.inj (hg.symm.trans hg₁)
    have hremove := removeThreadFromGroup_more th hg hone
    split at hs₂
    · cases hs₂
    next p rest hmembers =>
    rw [hmembers] at hremove
    split at hs₂
    · next rest' hrest _ =>
      cases hs₂
      dsimp only at hremove
      rw [hrest] at hremove
      apply Solo.perform
      intro _ s₃ hs₃
      obtain ⟨gs₂, hg₂, hs₃⟩ := Option.bind_eq_some_iff.mp hs₃
      obtain rfl := Option.some.inj ((groups_self s.store).symm.trans hg₂)
      cases hs₃
      apply solo_unlock
      apply Solo.ret
      rw [hremove]
      exact congrArg (fun x => some ((0 : Int), x)) (setGroup_setGroup s.store).symm
    · next hrest _ =>
      cases hs₂
      dsimp only at hremove
      rw [hrest] at hremove
      apply solo_unlock
      apply Solo.perform
      intro _ s₃ hs₃
      cases hs₃
      exact Solo.ret hremove
    · cases hs₂

end

end LibSpe2.Spe12.Limit
