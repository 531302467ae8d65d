import LibSpe2.Conc.Marked
import LibSpe2.Context.Rules
import LibSpe2.Data.References
import LibSpe2.Sys.Frame

/-!
# A context that threads share

Any number of threads make calls on one context. What they share is the world of `Sys`, where the calls
of all modules find the slots of the context, its locks and the interest sets of `epoll`; everything
else is answered freely.

Beside the threads there are books that say who has the references to the slots. A call that caches the
descriptor of a slot leaves its reference there at once; one that does not has it in its hands until it
closes the slot again or `epoll_ctl` registers an event, and leaves it when it returns.

* `exec`, `system` — the threads.
* `Books`, `observer`, `counted` — the threads and the books; `counted_reachable_iff`, the same states are reached
  with the books and without.
* `Accountable`, `Thrifty` — the conditions under which the counts are right, and under which no
  reference is left twice.
-/

namespace LibSpe2.Shared

open Conc Function
open Ctx (BasePriv Op)

/-! ## The threads -/

/-- The slot of a file, as it is opened. -/
def slotOf (filename : String) (mode : Ctx.Mode) : Option FdName :=
  Ctx.fdNames.find? fun d => Ctx.speFdAttr d = (filename, mode)

/-- `exec spe priv t c r s`: the world after thread `t` did `c` in `s` and was answered `r`, on the
context `spe` with the record `priv`. -/
def exec (spe : Spe) (priv : BasePriv) (t : Tid) : (c : Ctx.Cmd) → Ctx.Ans c → World → Option World
  | .load l, v, s => LibSpe2.exec t (.load l) v s
  | .store l v, r, s => LibSpe2.exec t (.store l v) r s
  | .openat _ filename mode, r, s =>
    match slotOf filename mode with
    | some d => LibSpe2.exec t (.openat spe d) r s
    | none => some s
  | .close fd, r, s => LibSpe2.exec t (.close fd) r s
  | .pipe, r, s => LibSpe2.exec t (.pipe spe) r s
  | .base, b, s => if b = priv then some s else none
  | .sys (.readMboxStat _), _, s | .sys (.readOutMbox _), _, s | .sys (.writeInMbox _ _), _, s => some s
  | .sys c, r, s => LibSpe2.exec t c r s
  | .dma .lock, _, s => LibSpe2.exec t (.lock (.fdLock spe .mfc)) () s
  | .dma .unlock, _, s => LibSpe2.exec t (.unlock (.fdLock spe .mfc)) () s
  | _, _, s => some s

def machine (spe : Spe) (priv : BasePriv) : Machine Ctx.Cmd Ctx.Ans Tid World := ⟨exec spe priv⟩

/-- The context as `_base_spe_context_create` leaves it, in memory that held counts of `0`. -/
structure Created (spe : Spe) (s : World) : Prop where
  closed : ∀ d, s.mem (.speFdsArray spe d) = -1
  count : ∀ d, s.mem (.speFdsRefcount spe d) = 0
  owner : ∀ d, s.owner (.fdLock spe d) = none
  epoll : ∀ h fd e, s.epoll h fd = some e → e.spe ≠ spe

/-- The threads that share the context. -/
def system (spe : Spe) (priv : BasePriv) : System Ctx.Cmd Ctx.Ans Tid World where
  toMachine := machine spe priv
  Call := { op : Op // op.Plain }
  code _ op := op.1.code spe
  init := Created spe

/-! ## The books -/

/-- The slot that an entry of an interest set is about, if it is one of the context. -/
def source (spe : Spe) (e : EpollEntry) : Option FdName :=
  if e.spe = spe then
    match e.type with
    | .outIntrMbox => some .ibox
    | .inMbox => some .wbox
    | .tagGroup => some .mfc
    | .speStopped => none
  else none

/-- The call leaves the slots that it opens open: all calls but those that close them again or register
an event. -/
def caches : Op → Bool
  | .signalWrite _ _ | .eventHandlerRegister _ _ => false
  | _ => true

/-- A call begins, and returns. -/
inductive Mark where
  | begins (caches : Bool)
  | returned

structure Books where
  /-- The thread is in a call that leaves slots open. -/
  caching : Tid → Bool
  /-- The references to each slot; a registration is a handler and the descriptor that it watches. -/
  refs : FdName → References Tid (Handler × Fd)

/-- Nobody has a reference. -/
def Books.new : Books := ⟨fun _ => false, fun _ => .none⟩

def Books.set (b : Books) (d : FdName) (x : References Tid (Handler × Fd)) : Books :=
  { b with refs := update b.refs d x }

@[simp] theorem Books.set_refs_self (b : Books) (d : FdName) (x : References Tid (Handler × Fd)) :
    (b.set d x).refs d = x := update_self ..

theorem Books.set_refs_of_ne (b : Books) {d d' : FdName} (x : References Tid (Handler × Fd))
    (h : d' ≠ d) : (b.set d x).refs d' = b.refs d' := update_of_ne h ..

/-- Keep the books. -/
def observer (spe : Spe) : Observer Ctx.Cmd Ctx.Ans Tid World Mark Books where
  cmd t
    | .sys (.note (.opened _ d _)), _, _, b =>
      b.set d (if b.caching t then (b.refs d).cache else (b.refs d).take t)
    | .sys (.note (.closed _ d _)), _, _, b => b.set d ((b.refs d).drop t)
    | .sys (.epollAdd h fd e), .ok _, _, b =>
      match source spe e with
      | some d => b.set d ((b.refs d).register t (h, fd))
      | none => b
    | .sys (.epollDel h fd), .ok _, s, b =>
      match (s.epoll h fd).bind (source spe) with
      | some d => b.set d ((b.refs d).unregister (h, fd))
      | none => b
    | _, _, _, b => b
  mark t
    | .begins caches, _, b => { b with caching := update b.caching t caches }
    | .returned, _, b => { b with refs := fun d => (b.refs d).leave t }

/-- The threads that share the context, and the books. -/
def counted (spe : Spe) (priv : BasePriv) :
    System (Marked Ctx.Cmd Mark) (Marked.Ans Ctx.Ans) Tid (World × Books) where
  toMachine := (machine spe priv).observed (observer spe)
  Call := { op : Op // op.Plain }
  code _ op := do
    Prog.mark (.begins (caches op.1))
    (op.1.code spe).marked
    Prog.mark .returned
  init x := Created spe x.1 ∧ x.2 = .new

/-- The calls are those of the threads. -/
theorem counted_code (spe : Spe) (priv : BasePriv) (t : Tid) (op : { op : Op // op.Plain }) :
    ((counted spe priv).code t op).erase = (system spe priv).code t op := by
  show ((op.1.code spe).marked.bind fun _ => Prog.mark Mark.returned).erase = op.1.code spe
  rw [Prog.erase_bind, Prog.erase_marked]
  exact Prog.bind_ret _

theorem counted_observes (spe : Spe) (priv : BasePriv) :
    (counted spe priv).Observes (system spe priv) (observer spe) where
  machine := rfl
  code t op := .inl ⟨op, counted_code spe priv t op⟩
  init _ h := h.1

theorem counted_covers (spe : Spe) (priv : BasePriv) : (counted spe priv).Covers (system spe priv) where
  code t op := ⟨op, counted_code spe priv t op⟩
  init _ hs := ⟨.new, hs, rfl⟩

/-- The books have no influence on what the threads can reach. -/
theorem counted_reachable_iff (spe : Spe) (priv : BasePriv) (s : World) :
    (∃ b th, (counted spe priv).Reachable ⟨(s, b), th⟩) ↔ ∃ th, (system spe priv).Reachable ⟨s, th⟩ :=
  (counted_observes spe priv).reachable_iff (counted_covers spe priv) s

/-! ## Conditions -/

/-- The conditions under which the counts are right: `openat` answers a positive descriptor, fewer than
`2^31 - 1` references are held when another one is taken, and an event is registered by a call that has
a reference to the slot itself. -/
def Accountable (spe : Spe) (t : Tid) :
    (c : Marked Ctx.Cmd Mark) → Marked.Ans Ctx.Ans c → World × Books → Prop
  | .cmd (.openat _ _ _), .ok fd, _ => 0 < fd
  | .cmd (.sys (.note (.opened _ d _))), _, x => (x.2.refs d).total + 1 < 2 ^ 31
  | .cmd (.sys (.epollAdd _ _ e)), .ok _, x => ∀ d, source spe e = some d → t ∈ (x.2.refs d).hands
  | _, _, _ => True

/-- The conditions under which no reference is left where one has been left before: a call that leaves
the slot open takes its reference while none has been left, no event of a slot is removed, and what a
call leaves when it returns is the only one. -/
def Thrifty (spe : Spe) (t : Tid) :
    (c : Marked Ctx.Cmd Mark) → Marked.Ans Ctx.Ans c → World × Books → Prop
  | .cmd (.sys (.note (.opened _ d _))), _, x => x.2.caching t = true → (x.2.refs d).cached = 0
  | .cmd (.sys (.epollDel h fd)), .ok _, x => (x.1.epoll h fd).bind (source spe) = none
  | .mark .returned, _, x => ∀ d, (x.2.refs d).cached + (x.2.refs d).hands.count t ≤ 1
  | _, _, _ => True

end LibSpe2.Shared
