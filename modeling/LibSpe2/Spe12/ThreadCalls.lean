import LibSpe2.Context.Bare
import LibSpe2.Spe12.GroupMembers
import Mathlib.Algebra.BigOperators.Group.Finset.Basic

/-!
# What a thread acquires (`libspe12/spe.c`, `libspe12/spethreads.c`)

`spe_create_thread` and `spe_wait` with all that they acquire and release: the thread and its group, the context of
the base layer, the pipe for events, the member of the group.

* `World` — the groups and threads, the contexts with their private records, and what the process holds.
* `Cmd`, `exec` — one access to the lists, one call of the system, or one command of the base layer on a context
  (`Cmd.ctx`), of which the code is in `Context/`.
* `speCreateThread`, `speWait` — the calls, and `Call`, all that is called between them.

The variables of the environment have no part in this, nor what is stored to `*status`.
-/

namespace LibSpe2.Spe12.Threads

open Conc Function Groups
open Ctx (Resource ProgramHandle Use)

/-! ## The machine -/

structure World where
  store : Store
  /-- `spectx` of a thread. -/
  spectx : Thread → Option Spe
  /-- The contexts that there are. -/
  contexts : Finset Spe
  /-- The private records of a context; what the process holds is not there but in `live`. -/
  records : Spe → Ctx.Proc
  /-- `ev_pipe` of a context. -/
  evPipe : Spe → Fd × Fd
  /-- The descriptors and the mappings that the process has. -/
  live : Multiset Resource
  /-- The descriptors of all pipes for events so far (history). -/
  piped : Multiset Resource

namespace World

variable (s : World) (spe : Spe)

/-- What the base layer sees from a context. -/
def focus : Ctx.Proc := { s.records spe with live := s.live }

/-- The base layer has changed this. -/
def put (p : Ctx.Proc) : World := { s with records := update s.records spe p, live := p.live }

/-- A number that a new descriptor may get. -/
def FreeFd (fd : Fd) : Prop := 0 ≤ fd ∧ .fd fd ∉ s.live

instance (fd : Fd) : Decidable (s.FreeFd fd) := inferInstanceAs (Decidable (_ ∧ _))

def setStore (store : Store) : World := { s with store }

/-- `calloc` in `spe_setup`, and `group_id`. -/
def newThread (th : Thread) (gid : Option Groups.Gid) : World :=
  { s with store := s.store.setThread th ⟨gid⟩, spectx := update s.spectx th none }

/-- The thread has got its context. -/
def setSpectx (th : Thread) : World :=
  { s with
    spectx := update s.spectx th (some spe)
    contexts := insert spe s.contexts
    records := update s.records spe (s.records spe).withoutEvent }

def setEvPipe (fds : Fd × Fd) : World := { s with evPipe := update s.evPipe spe fds }

/-- `pipe`: two new descriptors. -/
def newPipe (r w : Fd) : World :=
  { s.setEvPipe spe (r, w) with live := {.fd r, .fd w} + s.live, piped := {.fd r, .fd w} + s.piped }

/-- `free` in `free_spe_context`. -/
def freeContext : World := { s with contexts := s.contexts.erase spe }

end World

inductive Cmd where
  | setErrno (e : Errno)
  | srchGroup (gid : Groups.Gid)
  | srchThread (th : Thread)
  /-- The directory that `spe_group_max` reads. -/
  | entries
  | numListSize (gid : Groups.Gid)
  /-- `spe_gid_setup` with the defaults: what `calloc` answers, and whether there is an element for the list. -/
  | speGidSetup
  /-- `calloc` of a thread of this group. -/
  | callocThread (gid : Option Groups.Gid)
  /-- `malloc` of a context. -/
  | mallocContext
  | ctx (spe : Spe) (c : Ctx.Cmd)
  | setSpectx (th : Thread) (spe : Spe)
  | pipe (spe : Spe)
  | setEvPipe (spe : Spe) (fds : Fd × Fd)
  /-- `add_thread_to_group`: whether there is an element for the list. -/
  | addThreadToGroup (gid : Option Groups.Gid) (th : Thread)
  | pthreadCreate
  | threadStatus (th : Thread)
  /-- `*status = …`, where `status` is whether the pointer is not null. -/
  | storeStatus (status : Bool)
  | pthreadJoin (th : Thread)
  | spectx (th : Thread)
  | freeContext (spe : Spe)
  | groupId (th : Thread)
  | removeThreadFromGroup (gid : Option Groups.Gid) (th : Thread)
  | freeThread (th : Thread)
  | speCreateGroup (policy priority useEvents : Int)
  | speGroupDefaults (policy priority speEvents : Int)
  | speDestroyGroup (gid : Option Groups.Gid)

@[reducible] def Ans : Cmd → Type
  | .srchGroup _ | .srchThread _ | .addThreadToGroup _ _ => Bool
  | .entries => Option Nat
  | .numListSize _ | .pthreadCreate | .threadStatus _ | .pthreadJoin _ => Int
  | .speGidSetup | .speCreateGroup _ _ _ => Option Groups.Gid × Bool
  | .callocThread _ => Option Thread
  | .mallocContext | .spectx _ => Spe
  | .ctx _ c => Ctx.Ans c
  | .pipe _ => Except Errno (Fd × Fd)
  | .groupId _ => Option Groups.Gid
  | _ => Unit

/-- `exec t c r s`: the state after `c` was answered `r` in `s`. What is allocated is new, and a null pointer, or
one that has been freed, is not followed. -/
def exec (_ : Unit) : (c : Cmd) → Ans c → World → Option World
  | .setErrno e, _, s => some (s.setStore (s.store.setErrno e))
  | .srchGroup g, found, s =>
    if found = (Groups.srchGroup g s.store).1.isSome then some (s.setStore (Groups.srchGroup g s.store).2)
    else none
  | .srchThread th, found, s => do
    let (th', store) ← Groups.srchThread th s.store
    if found = th'.isSome then some (s.setStore store) else none
  | .numListSize g, n, s => do
    let gs ← s.store.groups g
    if n = gs.numListSize then some s else none
  | .speGidSetup, (group, elem), s =>
    if ∀ g ∈ group, s.store.groups g = none then
      some (s.setStore (Groups.speGidSetup s.store.defaultPolicy s.store.defaultPriority
        s.store.defaultEventmask group elem s.store).2)
    else none
  | .callocThread _, none, s => some s
  | .callocThread gid, some th, s => if s.store.threads th = none then some (s.newThread th gid) else none
  | .mallocContext, spe, s => if spe ∉ s.contexts then some s else none
  | .ctx spe c, r, s => (Ctx.exec () c r (s.focus spe)).map (s.put spe)
  | .setSpectx th spe, _, s => some (s.setSpectx spe th)
  | .pipe spe, .ok (r, w), s =>
    if s.FreeFd r ∧ s.FreeFd w ∧ r ≠ w then some (s.newPipe spe r w) else none
  | .setEvPipe spe fds, _, s => some (s.setEvPipe spe fds)
  | .addThreadToGroup gid th, elem, s => do
    let (_, store) ← Groups.addThreadToGroup gid th elem s.store
    some (s.setStore store)
  | .threadStatus th, _, s => if s.store.threads th ≠ none then some s else none
  | .storeStatus status, _, s => if status then some s else none
  | .spectx th, spe, s => if s.store.threads th ≠ none ∧ s.spectx th = some spe then some s else none
  | .freeContext spe, _, s => some (s.freeContext spe)
  | .groupId th, gid, s => if s.store.threads th = some ⟨gid⟩ then some s else none
  | .removeThreadFromGroup gid th, _, s => do
    let (_, store) ← Groups.removeThreadFromGroup gid th s.store
    some (s.setStore store)
  | .freeThread th, _, s => some (s.setStore (s.store.freeThread th))
  | .speCreateGroup policy priority useEvents, (group, elem), s =>
    if ∀ g ∈ group, s.store.groups g = none then
      some (s.setStore (Groups.speCreateGroup policy priority useEvents group elem s.store).2)
    else none
  | .speGroupDefaults policy priority speEvents, _, s =>
    some (s.setStore (Groups.speGroupDefaults policy priority speEvents s.store).2)
  | .speDestroyGroup gid, _, s => do
    let (_, store) ← Groups.speDestroyGroup gid s.store
    some (s.setStore store)
  | .pipe _, .error _, s | .entries, _, s | .pthreadCreate, _, s | .pthreadJoin _, _, s => some s

def machine : Machine Cmd Ans Unit World := ⟨exec⟩

abbrev Code := Prog Cmd Ans

abbrev perform (c : Cmd) : Code (Ans c) := Prog.perform c

/-- A program of the base layer on a context. -/
def onContext {α : Type} (spe : Spe) (p : Ctx.Code α) : Code α := p.interp fun c => perform (.ctx spe c)

/-! ## Creating a thread -/

/-- `printf("%p")` of an image. -/
def imagePointer (image : Option Nat) : String :=
  match image with
  | none => "(nil)"
  | some image => "0x" ++ String.ofList (Nat.toDigits 16 image)

/-- "Register SPE image start address as "object-id" for oprofile." -/
def registerImage (handle : ProgramHandle) : Ctx.Code Unit := do
  let priv ← Ctx.perform .base
  match ← Ctx.perform (.openat priv.fdSpeDir "object-id" .rdwr) with
  | .error _ => return ()
  | .ok sigfd =>
    let _ ← Ctx.perform (.write sigfd ((imagePointer handle.elfImage).toUTF8.toList ++ [0]))
    Ctx.perform (.close sigfd)

/-- `pipe(ev_pipe)`; both ends are -1 if it fails. -/
def openEvPipe (spe : Spe) : Code Unit := do
  match ← perform (.pipe spe) with
  | .ok _ => return ()
  | .error _ => perform (.setEvPipe spe (-1, -1))

/-- `spe_setup` once there is a context. -/
def finishSetup (gid : Option Groups.Gid) (th : Thread) (spe : Spe) (handle : ProgramHandle) :
    Code (Option Thread) := do
  let rc ← onContext spe (Ctx.baseSpeProgramLoad spe handle)
  if rc ≠ 0 then return none
  else
    openEvPipe spe
    -- `rc` is not looked at
    let _ ← perform (.addThreadToGroup gid th)
    onContext spe (registerImage handle)
    return some th

/-- `spe_setup` once there is a group. -/
def setupThread (gid : Option Groups.Gid) (handle : ProgramHandle) (flags : UInt32) : Code (Option Thread) := do
  match ← perform (.callocThread gid) with
  | none =>
    perform (.setErrno .ENOMEM)
    return none
  | some th =>
    let spe ← perform .mallocContext
    if ← onContext spe (Ctx.baseSpeContextCreate spe (speEventsEnable ||| flags) none none) then
      perform (.setSpectx th spe)
      finishSetup gid th spe handle
    else return none

/-- `spe_setup`. -/
def speSetup (gid : Option Groups.Gid) (handle : ProgramHandle) (flags : UInt32) : Code (Option Thread) := do
  match gid with
  | none =>
    let (gid, _) ← perform .speGidSetup
    setupThread gid handle flags
  | some g =>
    let n ← perform (.numListSize g)
    if n = maxThreadsPerGroup then
      perform (.setErrno .ENOMEM)
      return none
    else setupThread (some g) handle flags

/-- `spe_create_thread` from the test of `mask` on. -/
def createThread (gid : Option Groups.Gid) (handle : ProgramHandle) (mask : Nat) (flags : UInt32) :
    Code (Option Thread) := do
  let entries ← perform .entries
  if mask = 0 ∨ mask &&& ((1 <<< speGroupMax entries) - 1) = 0 then
    perform (.setErrno .EINVAL)
    return none
  else
    match ← speSetup gid handle flags with
    | none =>
      perform (.setErrno .EINVAL)
      return none
    | some th =>
      let rc ← perform .pthreadCreate
      return if rc ≠ 0 then none else some th

/-- `spe_create_thread`; `argp` is whether the pointer is not null. -/
def speCreateThread (gid : Option Groups.Gid) (handle : Option ProgramHandle) (argp : Bool) (mask : Nat)
    (flags : UInt32) : Code (Option Thread) := do
  match handle with
  | none =>
    perform (.setErrno .EINVAL)
    return none
  | some handle =>
    if flags &&& speUserRegs ≠ 0 ∧ ¬argp then
      perform (.setErrno .EINVAL)
      return none
    else
      match gid with
      | none => createThread none handle mask flags
      | some g =>
        if ← perform (.srchGroup g) then createThread (some g) handle mask flags
        else return none

/-! ## Waiting for a thread -/

/-- `spe_cleanup`. -/
def speCleanup (th : Thread) : Code Unit := do
  let spe ← perform (.spectx th)
  let _ ← onContext spe (Ctx.baseSpeContextDestroy spe)
  perform (.freeContext spe)
  let gid ← perform (.groupId th)
  perform (.removeThreadFromGroup gid th)
  perform (.freeThread th)

/-- `spe_wait` once the thread is to be joined. -/
def joinThread (speid : Thread) : Code Int := do
  let rc ← perform (.pthreadJoin speid)
  if rc ≠ 0 then return -1
  else
    speCleanup speid
    return rc

/-- `spe_wait`; `status` is whether the pointer is not null. -/
def speWait (speid : Thread) (status : Bool) (options : UInt32) : Code Int := do
  if ← perform (.srchThread speid) then
    let threadStatus ← perform (.threadStatus speid)
    if options &&& wnohang ≠ 0 ∧ threadStatus ≠ 99 then
      perform (.storeStatus status)
      return 0
    else if options &&& wuntraced ≠ 0 ∧ (threadStatus = 10 ∨ threadStatus = 20) then
      perform (.storeStatus status)
      joinThread speid
    else joinThread speid
  else return -1

/-! ## Calls -/

/-- What is called of the interface, and the threads' own calls. -/
inductive Call where
  | createThread (gid : Option Groups.Gid) (handle : Option ProgramHandle) (argp : Bool) (mask : Nat) (flags : UInt32)
  | wait (speid : Thread) (status : Bool) (options : UInt32)
  | createGroup (policy priority useEvents : Int)
  | groupDefaults (policy priority speEvents : Int)
  | destroyGroup (gid : Option Groups.Gid)
  | use (th : Thread) (u : Use)

def Call.code : Call → Code Unit
  | createThread gid handle argp mask flags => do
    let _ ← speCreateThread gid handle argp mask flags
  | wait speid status options => do
    let _ ← speWait speid status options
  | createGroup policy priority useEvents => do
    let _ ← perform (.speCreateGroup policy priority useEvents)
  | groupDefaults policy priority speEvents => perform (.speGroupDefaults policy priority speEvents)
  | destroyGroup gid => perform (.speDestroyGroup gid)
  | use th u => do
    let spe ← perform (.spectx th)
    onContext spe (u.code spe)

end LibSpe2.Spe12.Threads
