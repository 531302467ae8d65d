import LibSpe2.Data.Growable
import LibSpe2.SpuTools.SortOrder

/-!
# Processes (`tools/spu-tools/src/proc-info.c`)

`get_procs` adds up the contexts of every process in an array of its own, that it keeps from one call to the next.

* `Procs` — `procs`, `procs_n` and `procs_capacity`, with the records that the pointers lead to.
* `getProcs` — the call. It has no result where it leaves the array, follows a pointer to nothing, or sorts by a
  comparison that is none.
-/

namespace LibSpe2.SpuTools

open Function

/-- `DEFAULT_CAPACITY`. -/
def defaultCapacity : Nat := 32

/-- The address of a record. -/
abbrev Ref := Nat

structure Procs where
  table : Growable Ref
  /-- The records that have been allocated and not freed. -/
  heap : Ref → Option Proc

/-- A record that `bzero` has cleared. -/
def Proc.zero : Proc where
  ppuPid := 0
  user := none
  binaryName := none
  time _ := 0
  percentSpu := 0
  counter _ := 0
  nThreads := 0

/-- A context is added to its process. -/
def Proc.add (lib : Libc) (p : Proc) (c : Ctx) : Proc :=
  { p with
    time := fun t => p.time t + c.time t
    percentSpu := lib.single (p.percentSpu + c.percentSpu)
    counter := fun k => p.counter k + c.counter k
    nThreads := p.nThreads + 1 }

namespace Procs

/-- The record of `procs[proc_idx]` is changed. -/
def update (s : Procs) (procIdx : Nat) (f : Proc → Proc) : Option Procs := do
  let r ← s.table.deref procIdx
  let p ← s.heap r
  some { s with heap := Function.update s.heap r (some (f p)) }

/-- `procs[proc_idx]` is there, and has been cleared for the process of a context. `newRef` is what `malloc` answers. -/
def entry (s : Procs) (procIdx : Nat) (newRef : Ref) (c : Ctx) : Option Procs := do
  let table := s.table.ensureCapacity defaultCapacity (procIdx + 1)
  let s ← if procIdx ≥ table.n then do
      let table ← table.write procIdx (some newRef)
      -- what the new record holds is lost to `bzero`
      some ⟨{ table with n := procIdx + 1 }, Function.update s.heap newRef (some .zero)⟩
    else some { s with table }
  s.update procIdx fun _ => { Proc.zero with binaryName := c.binaryName, user := c.user, ppuPid := c.ppuPid }

/-- `ctxs[j]`, which is added if it is of the process of `ctxs[i]`. -/
def addThread (lib : Libc) (i procIdx : Nat) (x : List Ctx × Procs) (j : Nat) : Option (List Ctx × Procs) := do
  let ci ← x.1[i]?
  let cj ← x.1[j]?
  if ci.ppuPid ≠ cj.ppuPid then some x
  else do
    let s ← x.2.update procIdx fun p => p.add lib cj
    some (x.1.set j { cj with updated := true }, s)

/-- The contexts of one process, from the first on; `j` runs to the end of the array. -/
def addThreads (lib : Libc) (i procIdx : Nat) (ctxs : List Ctx) (s : Procs) : Option (List Ctx × Procs) :=
  (List.range' i (ctxs.length - i)).foldlM (addThread lib i procIdx) (ctxs, s)

/-- What has been marked of the contexts, `proc_idx` and the array. -/
abbrev Filled := List Ctx × Nat × Procs

/-- `ctxs[i]`, whose process is next if it has not been marked. -/
def addProc (lib : Libc) (newRef : Nat → Ref) (x : Filled) (i : Nat) : Option Filled := do
  let c ← x.1[i]?
  if c.updated then some x
  else do
    let s ← x.2.2.entry x.2.1 (newRef x.2.1) c
    let (ctxs, s) ← s.addThreads lib i x.2.1 x.1
    some (ctxs, x.2.1 + 1, s)

/-- The processes, one after the other. -/
def fill (lib : Libc) (newRef : Nat → Ref) (ctxs : List Ctx) (s : Procs) : Option Filled :=
  (List.range' 0 ctxs.length).foldlM (addProc lib newRef) (ctxs, 0, s)

/-- The entries from `proc_idx` on are freed. -/
def freeRest (s : Procs) (procIdx : Nat) : Option Procs :=
  (List.range' procIdx (s.table.n - procIdx)).foldlM (fun s i => do
    let r ← s.table.deref i
    let _ ← s.heap r
    let table ← s.table.write i none
    some ⟨{ table with n := table.n - 1 }, Function.update s.heap r none⟩) s

/-- `qsort`, which compares the records that the pointers lead to. -/
def sort (s : Procs) (lib : Libc) (field : ProcField) (descending : Bool) : Option Procs := do
  let refs ← s.table.elements
  if refs.all fun r => (s.heap r).isSome then
    let table ← s.table.rearrange (lib.sort fun r1 r2 =>
      procsCompare lib field descending ((s.heap r1).getD .zero) ((s.heap r2).getD .zero))
    some { s with table }
  else none

end Procs

/-- `get_procs`: what has become of the contexts, and of the array. The call returns a null pointer where it is given
one. -/
def getProcs (lib : Libc) (field : ProcField) (descending : Bool) (newRef : Nat → Ref) :
    Option (List Ctx) → Procs → Option (Option (List Ctx) × Procs)
  | none, s => some (none, s)
  | some ctxs, s => do
    let ctxs := ctxs.map fun c => { c with updated := false }
    let (ctxs, procIdx, s) ← s.fill lib newRef ctxs
    let s ← s.freeRest procIdx
    let table ← (s.table.ensureCapacity defaultCapacity (procIdx + 1)).write procIdx none
    let s ← { s with table : Procs }.sort lib field descending
    some (some ctxs, s)

end LibSpe2.SpuTools
