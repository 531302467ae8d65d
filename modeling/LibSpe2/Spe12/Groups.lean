import LibSpe2.Sys.World

/-!
# Groups of SPE threads (`libspe12/spethreads.c`, `libspe12/spe.c`)

The old interface keeps its threads in groups. `grp_list` links the groups, and a group links its members;
either list is modelled by what it holds, from the head. A group or a thread is named by its address, and
`none` is the null pointer where the code may meet one.

* `Store` — the lists and what has been allocated; a `group_store` is never freed.
* `addThreadToGroup`, `removeThreadFromGroup`, `srchThread` and the rest — the functions of `spethreads.c`.
* `speCreateThread`, `speWait`, `speDestroyGroup` — the calls of the interface.

What the system answers is an argument of a call: `Setup` when a thread is created, `Join` when it is waited
for. A function is `none` where it follows a null pointer or one that has been freed.
-/

namespace LibSpe2.Spe12.Groups

open Function

/-! ## Constants -/

/-- `MAX_THREADS_PER_GROUP`. -/
def maxThreadsPerGroup : Nat := 16

/-- `SPE_USER_REGS`. -/
def speUserRegs : UInt32 := 0x2

/-- `WNOHANG` and `WUNTRACED`. -/
def wnohang : UInt32 := 1
def wuntraced : UInt32 := 2

/-- `ESRCH` and `ENOMEM`, as they are returned. -/
def esrch : Int := 3
def enomem : Int := 12

/-! ## Data -/

abbrev Gid := Nat
abbrev Thread := Nat

structure GroupStore where
  policy : Int
  priority : Int
  useEvents : Int
  grpMembers : List Thread
  numListSize : Int
  deleteMe : Bool
  deriving DecidableEq

/-- The member of a `struct thread_store` that has to do with groups. -/
structure ThreadStore where
  groupId : Option Gid
  deriving DecidableEq

structure Store where
  /-- `grp_list.list_start`. -/
  listStart : List Gid
  /-- `grp_list.numListSize`. -/
  numListSize : Int
  groups : Gid → Option GroupStore
  threads : Thread → Option ThreadStore
  defaultPolicy : Int
  defaultPriority : Int
  defaultEventmask : Int
  errno : Errno

namespace Store

/-- Before any call; `SCHED_OTHER` is 0. -/
def init : Store where
  listStart := []
  numListSize := 0
  groups _ := none
  threads _ := none
  defaultPolicy := 0
  defaultPriority := 0
  defaultEventmask := 0
  errno := .zero

variable (s : Store)

def setGroup (g : Gid) (gs : GroupStore) : Store := { s with groups := update s.groups g (some gs) }

def setThread (t : Thread) (ts : ThreadStore) : Store := { s with threads := update s.threads t (some ts) }

/-- `free(thread_store)`. -/
def freeThread (t : Thread) : Store := { s with threads := update s.threads t none }

def setErrno (e : Errno) : Store := { s with errno := e }

end Store

/-! ## Lists -/

/-- `elem` is whether `malloc` has an element for the list. -/
def addGroupToGroups (gid : Gid) (elem : Bool) (s : Store) : Int × Store :=
  if elem then
    (0, { s with listStart := gid :: s.listStart, numListSize := s.numListSize + 1 })
  else
    (-enomem, s.setErrno .ENOMEM)

def addThreadToGroup (gid : Option Gid) (thread : Thread) (elem : Bool) (s : Store) :
    Option (Int × Store) :=
  if elem then do
    let g ← gid
    let gs ← s.groups g
    return (0, s.setGroup g
      { gs with grpMembers := thread :: gs.grpMembers, numListSize := gs.numListSize + 1 })
  else
    return (-enomem, s.setErrno .ENOMEM)

/-- The loop of `remove_group_from_groups`, and what it leaves of the list. -/
def removeGroup (s : Store) (gid : Gid) : List Gid → Option (Int × List Gid)
  | [] => some (1, [])
  | gp :: rest =>
    if gp = gid then do
      let gs ← s.groups gp
      return (0, if gs.numListSize = 0 then rest else gp :: rest)
    else do
      let (rc, rest') ← removeGroup s gid rest
      return (rc, gp :: rest')

def removeGroupFromGroups (gid : Gid) (s : Store) : Option (Int × Store) := do
  let (rc, listStart) ← removeGroup s gid s.listStart
  return (rc, { s with listStart })

/-- The loop of `remove_thread_from_group`: from an element on, the next one is looked at. -/
def removeNext (thread : Thread) : List Thread → Option (List Thread)
  | [] => none
  | np :: rest => if np = thread then some rest else (removeNext thread rest).map (np :: ·)

def removeThreadFromGroup (gid : Option Gid) (thread : Thread) (s : Store) : Option (Int × Store) := do
  let g ← gid
  let gs ← s.groups g
  if gs.numListSize = 1 then
    -- whichever thread the element is for
    let s := s.setGroup g { gs with numListSize := gs.numListSize - 1, grpMembers := [] }
    if gs.deleteMe then
      let (_, s) ← removeGroupFromGroups g s
      return (0, s)
    else
      return (0, s)
  else
    match gs.grpMembers with
    | [] => none
    | p :: rest =>
      match removeNext thread rest with
      | some rest' =>
        return (0, s.setGroup g { gs with grpMembers := p :: rest', numListSize := gs.numListSize - 1 })
      | none => return (-esrch, s.setErrno .ESRCH)

/-- The loops of `srch_thread`. -/
def searchGroups (s : Store) (thread : Thread) : List Gid → Option Bool
  | [] => some false
  | gp :: rest => do
    let gs ← s.groups gp
    if thread ∈ gs.grpMembers then some true else searchGroups s thread rest

def srchThread (thread : Thread) (s : Store) : Option (Option Thread × Store) := do
  if ← searchGroups s thread s.listStart then
    return (some thread, s)
  else
    return (none, s.setErrno .ESRCH)

def srchGroup (group : Gid) (s : Store) : Option Gid × Store :=
  if group ∈ s.listStart then (some group, s) else (none, s.setErrno .ESRCH)

/-! ## Groups -/

/-- `group` is what `calloc` answers. An element that cannot be had is not noticed. -/
def speGidSetup (policy priority useEvents : Int) (group : Option Gid) (elem : Bool) (s : Store) :
    Option Gid × Store :=
  match group with
  | none => (none, s.setErrno .ENOMEM)
  | some g =>
    let gs := { policy, priority, useEvents, grpMembers := [], numListSize := 0, deleteMe := false }
    let (_, s) := addGroupToGroups g elem (s.setGroup g gs)
    (some g, s)

/-- The policies are `SCHED_OTHER`, `SCHED_FIFO` and `SCHED_RR`. -/
def checkPriority (policy priority : Int) : Bool :=
  if policy = 2 ∨ policy = 1 then decide (1 ≤ priority ∧ priority ≤ 99)
  else if policy = 0 then decide (0 ≤ priority ∧ priority ≤ 40)
  else true

def speCreateGroup (policy priority useEvents : Int) (group : Option Gid) (elem : Bool) (s : Store) :
    Option Gid × Store :=
  if checkPriority policy priority then
    speGidSetup policy priority useEvents group elem s
  else
    (none, s.setErrno .EINVAL)

def speGroupDefaults (policy priority speEvents : Int) (s : Store) : Int × Store :=
  if checkPriority policy priority then
    (0, { s with defaultPolicy := policy, defaultPriority := priority, defaultEventmask := speEvents })
  else
    (-1, s.setErrno .EINVAL)

def speDestroyGroup (speGid : Option Gid) (s : Store) : Option (Int × Store) := do
  let gid ← speGid
  match srchGroup gid s with
  | (none, s) => return (-1, s.setErrno .ESRCH)
  | (some _, s) =>
    let gs ← s.groups gid
    let (_, s) ← removeGroupFromGroups gid (s.setGroup gid { gs with deleteMe := true })
    return (0, s)

/-! ## Threads -/

/-- What the system answers while a thread is created. -/
structure Setup where
  /-- The entries of `/sys/devices/system/spu`, if it can be opened. -/
  entries : Option Nat
  /-- `calloc` in `spe_gid_setup`. -/
  group : Option Gid
  /-- `malloc` in `add_group_to_groups`. -/
  groupElem : Bool
  /-- `calloc` in `spe_setup`. -/
  thread : Option Thread
  /-- Whether `_base_spe_context_create` has a context. -/
  context : Bool
  /-- `_base_spe_program_load`. -/
  load : Int
  /-- `malloc` in `add_thread_to_group`. -/
  threadElem : Bool
  /-- `pthread_create`. -/
  pthread : Int
  deriving DecidableEq

/-- `spe_group_max` of the null pointer; a directory has at least the entries for itself and its parent. -/
def speGroupMax (entries : Option Nat) : Nat :=
  match entries with
  | none => maxThreadsPerGroup
  | some n => n - 2

/-- `spe_setup` once it has a group. -/
def setupThread (gid : Option Gid) (env : Setup) (s : Store) : Option (Option Thread × Store) :=
  match env.thread with
  | none => some (none, s.setErrno .ENOMEM)
  | some t =>
    let s := s.setThread t { groupId := gid }
    if env.context ∧ env.load = 0 then do
      -- `rc` is not looked at
      let (_, s) ← addThreadToGroup gid t env.threadElem s
      return (some t, s)
    else
      some (none, s)

def speSetup (gid : Option Gid) (env : Setup) (s : Store) : Option (Option Thread × Store) :=
  match gid with
  | none =>
    let (gid, s) := speGidSetup s.defaultPolicy s.defaultPriority s.defaultEventmask env.group
      env.groupElem s
    setupThread gid env s
  | some g => do
    let grp ← s.groups g
    if grp.numListSize = maxThreadsPerGroup then
      return (none, s.setErrno .ENOMEM)
    else
      setupThread gid env s

/-- `handle` and `argp` are whether these pointers are not null. -/
def speCreateThread (gid : Option Gid) (handle argp : Bool) (mask : Nat) (flags : UInt32) (env : Setup)
    (s : Store) : Option (Option Thread × Store) :=
  if ¬handle ∨ flags &&& speUserRegs ≠ 0 ∧ ¬argp then
    some (none, s.setErrno .EINVAL)
  else if ∃ g ∈ gid, (srchGroup g s).1 = none then
    some (none, s.setErrno .ESRCH)
  else if mask = 0 ∨ mask &&& ((1 <<< speGroupMax env.entries) - 1) = 0 then
    some (none, s.setErrno .EINVAL)
  else do
    match ← speSetup gid env s with
    | (none, s) => return (none, s.setErrno .EINVAL)
    | (some t, s) => return (if env.pthread = 0 then some t else none, s)

/-- What the system answers while a thread is waited for. -/
structure Join where
  /-- `thread_status`, which the thread writes. -/
  threadStatus : Int
  /-- `pthread_join`. -/
  rc : Int
  /-- `ret_status`, which the thread writes. -/
  retStatus : UInt32
  deriving DecidableEq

def speWaitStatus (speStatusR : UInt32) : UInt32 :=
  let rc := (speStatusR &&& 0xffff0000) >>> 16
  let term : UInt32 :=
    if speStatusR &&& 0x4 ≠ 0 then 6
    else if speStatusR &&& 0x20 ≠ 0 then 4
    else if speStatusR &&& 0x40 ≠ 0 then 4
    else if rc < speProgramNormalEnd ∨ rc > 0x20ff then 4
    else if speStatusR &&& 0x1 ≠ 0 then 9
    else 0
  ((rc &&& 0xff) <<< 8) ||| (term &&& 0x7f)

/-- `_base_spe_context_destroy` does not touch the groups. -/
def speCleanup (thread : Thread) (s : Store) : Option Store := do
  let ts ← s.threads thread
  let (_, s) ← removeThreadFromGroup ts.groupId thread s
  return s.freeThread thread

/-- Whether `spe_wait` returns at once: the thread has not ended and the caller does not want to wait. -/
def Join.AtOnce (env : Join) (options : UInt32) : Prop :=
  options &&& wnohang ≠ 0 ∧ env.threadStatus ≠ 99

/-- Whether `spe_wait` reports that the thread has stopped. -/
def Join.Stopped (env : Join) (options : UInt32) : Prop :=
  options &&& wuntraced ≠ 0 ∧ (env.threadStatus = 10 ∨ env.threadStatus = 20)

instance (env : Join) (options : UInt32) : Decidable (env.AtOnce options) :=
  inferInstanceAs (Decidable (_ ∧ _))

instance (env : Join) (options : UInt32) : Decidable (env.Stopped options) :=
  inferInstanceAs (Decidable (_ ∧ _))

/-- `status` is whether the pointer is not null. The result, what `*status` is in the end if the call stores
to it, and the store. -/
def speWait (speid : Thread) (status : Bool) (options : UInt32) (env : Join) (s : Store) :
    Option (Int × Option UInt32 × Store) := do
  match ← srchThread speid s with
  | (none, s) => return (-1, none, s)
  | (some _, s) =>
    let _ ← s.threads speid
    if env.AtOnce options then
      if status then return (0, some 0, s) else none
    else if env.Stopped options ∧ ¬status then
      none
    else if env.rc ≠ 0 then
      return (-1, if env.Stopped options then some 0x4 else none, s)
    else
      let s ← speCleanup speid s
      return (0, if status then some (speWaitStatus env.retStatus) else none, s)

end LibSpe2.Spe12.Groups
