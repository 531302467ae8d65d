import LibSpe2.Conc.Phase
import LibSpe2.Sys.World
import Mathlib.Data.Finset.Card

/-!
# The table of streams (`spebase/default_c99_handler.c`)

An SPE program knows a stream of the host as an index into `spe_FILE_ptrs`. The handlers of `fopen`,
`tmpfile` and `fclose` change this table and its counter.

* `Cmd`, `exec` — one access to the table, or one call of the host's library.
* A store names what its thread has read from the cell before, which no code looks at.
* `opened`, `closed`, `given` and `closing` are history: the streams that the host has opened and those
  that were passed to its `fclose`, the handles returned, each with the stream opened for it, and the
  handles that running `fclose` handlers were given.
-/

namespace LibSpe2.FileTable

open Conc Function

/-! ## Data -/

/-- `SPE_FOPEN_MIN`. -/
def speFopenMin : Nat := 4

/-- `SPE_FOPEN_MAX`, with a `FOPEN_MAX` of 16. -/
def speFopenMax : Nat := 17

/-- A stream of the host. -/
inductive File where
  | stdin | stdout | stderr
  | stream (n : Nat)
  deriving DecidableEq

structure World where
  /-- The thread that has `spe_c99_file_mutex`. -/
  owner : Option Tid
  nrSpeFilePtrs : Int
  speFilePtrs : Nat → Option File
  opened : List File
  closed : List File
  given : List (Nat × Option File)
  closing : List Nat

/-! ## Accesses -/

inductive Cmd where
  | lock
  | unlock
  | loadNr
  | storeNr (read new : Int)
  | loadSlot (i : Nat)
  | storeSlot (i : Nat) (read new : Option File)
  /-- The second look at a slot, into which the thread has stored `stored`. -/
  | reloadSlot (i : Nat) (stored : Option File)
  /-- `fopen` or `tmpfile` of the host. -/
  | openStream
  /-- `fclose` of the host. -/
  | hostFclose (stream : Option File)
  /-- The handler of `fclose` starts, and returns. -/
  | startFclose (i : Nat)
  | endFclose (i : Nat) (rc : Int)
  /-- The handler of `fopen` or `tmpfile` returns `i`, with what the host has opened for it. -/
  | putHandle (i : Nat) (f : Option File)

@[reducible] def Ans : Cmd → Type
  | .loadNr => Int
  | .loadSlot _ | .reloadSlot _ _ | .openStream => Option File
  | .hostFclose _ => Int
  | _ => Unit

/-- What an access does. The host's `fclose` of `NULL` is undefined: no thread gets past it. -/
def exec (t : Tid) : (c : Cmd) → Ans c → World → Option World
  | .lock, _, s => if s.owner = none then some { s with owner := some t } else none
  | .unlock, _, s => if s.owner = some t then some { s with owner := none } else none
  | .loadNr, n, s => if n = s.nrSpeFilePtrs then some s else none
  | .storeNr _ n, _, s => some { s with nrSpeFilePtrs := n }
  | .loadSlot i, f, s => if f = s.speFilePtrs i then some s else none
  | .storeSlot i _ f, _, s => some { s with speFilePtrs := update s.speFilePtrs i f }
  | .reloadSlot i _, f, s => if f = s.speFilePtrs i then some s else none
  | .openStream, none, s => some s
  | .openStream, some f, s => if f ∈ s.opened then none else some { s with opened := f :: s.opened }
  | .hostFclose none, _, _ => none
  | .hostFclose (some f), _, s => some { s with closed := f :: s.closed }
  | .startFclose i, _, s => some { s with closing := i :: s.closing }
  | .endFclose i _, _, s => some { s with closing := s.closing.erase i }
  | .putHandle i f, _, s => some { s with given := if i = 0 then s.given else (i, f) :: s.given }

def machine : Machine Cmd Ans Tid World := ⟨exec⟩

abbrev Code := Prog Cmd Ans

abbrev perform (c : Cmd) : Code (Ans c) := Prog.perform c

/-! ## The handlers -/

/-- `get_FILE_nolock`. -/
def getFileNolock (nr : Nat) : Code (Option File) :=
  if nr = 0 then return none
  else if speFopenMax ≤ nr then return none
  else do
    let f ← perform (.loadSlot nr)
    return match nr with
    | 1 => some (f.getD .stdin)
    | 2 => some (f.getD .stdout)
    | 3 => some (f.getD .stderr)
    | _ => f

/-- `get_FILE`. -/
def getFile (nr : Nat) : Code (Option File) := do
  perform .lock
  let ret ← getFileNolock nr
  perform .unlock
  return ret

/-- The slots that the `for` loops go through. -/
def slots : List Nat := List.range' speFopenMin (speFopenMax - speFopenMin)

/-- The `for` loop of `default_c99_handler_tmpfile`, from a slot on. -/
def tmpfileFrom : List Nat → Code Unit
  | [] => perform (.putHandle 0 none)
  | i :: is => do
    let f ← perform (.loadSlot i)
    if f = none then
      let f ← perform .openStream
      perform (.storeSlot i none f)
      if (← perform (.reloadSlot i f)) ≠ none then
        let n ← perform .loadNr
        perform (.storeNr n (n + 1))
        perform (.putHandle i f)
      else perform (.putHandle 0 f)
    else tmpfileFrom is

/-- `default_c99_handler_tmpfile`. -/
def defaultC99HandlerTmpfile : Code Unit := do
  let n ← perform .loadNr
  if (speFopenMax : Int) ≤ n then perform (.putHandle 0 none)
  else tmpfileFrom slots

/-- The `for` loop of `default_c99_handler_fopen`, from a slot on: `rc`, and what was opened. -/
def fopenFrom : List Nat → Code (Nat × Option File)
  | [] => return (0, none)
  | i :: is => do
    let f ← perform (.loadSlot i)
    if f = none then
      match ← perform .openStream with
      | none => return (0, none)
      | some f =>
        perform (.storeSlot i none (some f))
        let n ← perform .loadNr
        perform (.storeNr n (n + 1))
        return (i, some f)
    else fopenFrom is

/-- `default_c99_handler_fopen`. -/
def defaultC99HandlerFopen : Code Unit := do
  perform .lock
  let n ← perform .loadNr
  let opened ← (if n < (speFopenMax : Int) then fopenFrom slots else return (0, none) :
    Code (Nat × Option File))
  perform .unlock
  perform (.putHandle opened.1 opened.2)

/-- `default_c99_handler_fclose`. -/
def defaultC99HandlerFclose (i : Nat) : Code Unit := do
  perform (.startFclose i)
  let stream ← getFile i
  perform .lock
  let rc ← perform (.hostFclose stream)
  if rc = 0 then
    perform (.storeSlot i stream none)
    let n ← perform .loadNr
    perform (.storeNr n (n - 1))
  perform .unlock
  perform (.endFclose i rc)

/-! ## Runs -/

/-- The handlers, as SPE threads run them. -/
inductive Call where
  | fopen
  | tmpfile
  | fclose (i : Nat)

def Call.code : Call → Code Unit
  | .fopen => defaultC99HandlerFopen
  | .tmpfile => defaultC99HandlerTmpfile
  | .fclose i => defaultC99HandlerFclose i

/-- The table as the library starts with it. -/
def initial : World where
  owner := none
  nrSpeFilePtrs := 3
  speFilePtrs _ := none
  opened := [.stdin, .stdout, .stderr]
  closed := []
  given := []
  closing := []

def system : System Cmd Ans Tid World where
  toMachine := machine
  Call := Call
  code _ c := c.code
  init s := s = initial

/-- The slots in use. -/
def World.occupied (s : World) : Nat :=
  ((Finset.range speFopenMax).filter fun i => (s.speFilePtrs i).isSome).card

end LibSpe2.FileTable
