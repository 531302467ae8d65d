import LibSpe2.SpuTools.Procs

/-!
# Contexts (`tools/spu-tools/src/ctx-info.c`)

`get_spu_contexts` keeps a table of all SPE contexts, from one scan of the file system to the next.

* `Files` — what is read of a context; every scan may read something else.
* `Contexts` — `ctxs`, `ctxs_n` and `ctxs_capacity`, and the user names that are known.
* `processCtxEntry` — a directory of a context.
* `getSpuContexts` — the scan. It has no result where it leaves the table, follows a null pointer, or sorts by a
  comparison that is none.
-/

namespace LibSpe2.SpuTools

/-! ## What is read -/

/-- `phys-id`: access may be refused; the file may not open, or begin without a number. -/
inductive PhysId where
  | refused
  | closed
  | read (spe : Option Int32)

/-- What is read of a context. A file is `none` where it does not open. -/
structure Files where
  tid : Option Int32
  /-- The entries of `/proc`: whether they have the thread, and what number their name begins with. -/
  procDir : Option (List (Bool × Option Int32))
  /-- `/proc/<pid>/stat`: its number and the word behind. -/
  procStat : Option (Option (Int32 × Option String))
  /-- `/proc/<pid>/status`: its words, and the number behind `Uid:`. -/
  procStatus : Option (List String × Int32)
  /-- `getpwuid`. -/
  passwd : Option String
  physId : PhysId
  /-- `stat`: a word and the numbers behind. -/
  stat : Option (Option (String × List UInt64))
  capabilities : Option (List String)

/-- An entry of `/spu`: a context, or a gang, whose entries are contexts if they have a `stat`. -/
inductive DirEntry where
  | ctx (files : Files)
  | gang (dir : Option (List (Option Files)))

/-! ## A context -/

/-- `PERCENT`; all numbers are of type `double` until the quotient is stored. -/
def percent (lib : Libc) (oldT newT totT : UInt64) : ℚ :=
  let ret := if totT > 0
    then lib.single (lib.double (lib.double (lib.double (newT - oldT).toNat * 100) / lib.double totT.toNat))
    else 0
  if ret ≤ 100 then ret else 100

/-- The user names that are known, the last one first. -/
abbrev Names := List (Int32 × String)

/-- `get_username`, and the names that are known then. -/
def getUsername (names : Names) (passwd : Option String) (uid : Int32) : String × Names :=
  match names.lookup uid with
  | some name => (name, names)
  | none =>
    let name := passwd.getD "UNKNOWN"
    (name, (uid, name) :: names)

/-- `while (fscanf(fp, "%s", buf) != EOF)`, until a word is the one: what `buf` holds, and whether there was one. -/
def readWords (p : String → Bool) (buf : String) : List String → String × Bool
  | [] => (buf, false)
  | word :: words => if p word then (word, true) else readWords p word words

/-- `!strncmp(buf, "Uid:", 4)`. -/
def isUid (buf : String) : Bool := "Uid:".toList.isPrefixOf buf.toList

/-- `find_thread_pid`. -/
def findThreadPid (procDir : Option (List (Bool × Option Int32))) : Int32 :=
  match (procDir.getD []).find? fun entry => entry.1 with
  | some (_, some pid) => pid
  | _ => -1

/-- `alloc_ctx`, with the thread and the process filled in. -/
def allocCtx (threadId ppuPid : Int32) : Ctx where
  ppuPid := ppuPid
  threadId := threadId
  user := none
  status := '?'.toUInt8
  flags := 0
  spe := 0
  binaryName := none
  time _ := 0
  percentSpu := 0
  counter _ := 0
  updated := false

def procPath (pid : Int32) (name : String) : String := "/proc/" ++ toString pid ++ "/" ++ name

namespace Ctx

/-- `/proc/<pid>/stat`; where there is no word, `buf` still has the path. The brackets around it are removed. -/
def readProcStat (c : Ctx) (read : Option (Int32 × Option String)) : Ctx :=
  let ppuPid := (read.map Prod.fst).getD c.ppuPid
  let buf := (read.bind Prod.snd).getD (procPath c.ppuPid "stat")
  { c with ppuPid, binaryName := some (.ofList (buf.toList.dropLast.drop 1)) }

/-- `/proc/<pid>/status`: what `buf` holds then, the context and the names. -/
def readProcStatus (c : Ctx) (names : Names) (e : Files) : String × Ctx :=
  let path := procPath c.ppuPid "status"
  match e.procStatus with
  | none => (path, c)
  | some (words, uid) =>
    match readWords isUid path words with
    | (buf, true) => (buf, { c with user := some (getUsername names e.passwd uid).1 })
    | (buf, false) => (buf, c)

def readPhysId (c : Ctx) : PhysId → Ctx
  | .refused => { c with spe := -1 }
  | .closed => c
  | .read spe => { c with spe := spe.getD c.spe }

/-- The numbers of `stat`, as many as there are. -/
def readNumbers (c : Ctx) (v : List UInt64) : Ctx :=
  { c with
    time
      | .user => v[0]?.getD (c.time .user)
      | .system => v[1]?.getD (c.time .system)
      | .iowait => v[2]?.getD (c.time .iowait)
      | .loaded => v[3]?.getD (c.time .loaded)
      | t => c.time t
    counter
      | .voluntaryCtxSwitches => v[4]?.getD (c.counter .voluntaryCtxSwitches)
      | .involuntaryCtxSwitches => v[5]?.getD (c.counter .involuntaryCtxSwitches)
      | .slbMisses => v[6]?.getD (c.counter .slbMisses)
      | .hashFaults => v[7]?.getD (c.counter .hashFaults)
      | .minorPageFaults => v[8]?.getD (c.counter .minorPageFaults)
      | .majorPageFaults => v[9]?.getD (c.counter .majorPageFaults)
      | .class2Interrupts => v[10]?.getD (c.counter .class2Interrupts)
      | .ppeLibrary => v[11]?.getD (c.counter .ppeLibrary) }

/-- `stat`; where there is no word, `buf` is what it was. -/
def readStat (lib : Libc) (lastPeriod : UInt64) (c : Ctx) (buf : String) : Option (Option (String × List UInt64)) → Ctx
  | none => { c with status := '?'.toUInt8 }
  | some read =>
    let lastTime := c.time .total
    let buf := (read.map Prod.fst).getD buf
    let c := c.readNumbers ((read.map Prod.snd).getD [])
    let total := c.time .user + c.time .system + c.time .iowait
    { c with
      status := (buf.toList.head?.map fun ch => ch.toUpper.toUInt8).getD 0
      time := Function.update c.time .total total
      percentSpu := percent lib lastTime total lastPeriod }

def readCapabilities (c : Ctx) : Option (List String) → Ctx
  | none => { c with flags := '?'.toUInt8 }
  | some words => { c with flags := if (readWords (· == "sched") "" words).2 then ' '.toUInt8 else 'I'.toUInt8 }

variable {lib : Libc} {lastPeriod : UInt64} {c : Ctx} {names : Names} {e : Files} {buf : String}

@[simp] theorem readProcStat_threadId {r : Option (Int32 × Option String)} :
    (c.readProcStat r).threadId = c.threadId := rfl

@[simp] theorem readProcStatus_threadId : (c.readProcStatus names e).2.threadId = c.threadId := by
  unfold readProcStatus
  rcases e.procStatus with _ | ⟨words, uid⟩
  · rfl
  · -- whether there is a word for the user
    dsimp only
    rcases readWords isUid (procPath c.ppuPid "status") words with ⟨buf, _ | _⟩ <;> rfl

@[simp] theorem readPhysId_threadId {physId : PhysId} : (c.readPhysId physId).threadId = c.threadId := by
  cases physId <;> rfl

@[simp] theorem readStat_threadId {stat : Option (Option (String × List UInt64))} :
    (c.readStat lib lastPeriod buf stat).threadId = c.threadId := by
  cases stat <;> rfl

@[simp] theorem readCapabilities_threadId {capabilities : Option (List String)} :
    (c.readCapabilities capabilities).threadId = c.threadId := by
  cases capabilities <;> rfl

/-- What is read of a context once the file of its process is open. -/
def refresh (lib : Libc) (lastPeriod : UInt64) (names : Names) (e : Files) (read : Option (Int32 × Option String))
    (c : Ctx) : Ctx :=
  let (buf, c) := (c.readProcStat read).readProcStatus names e
  let c := (c.readPhysId e.physId).readStat lib lastPeriod buf e.stat
  { c.readCapabilities e.capabilities with updated := true }

end Ctx

/-- The names that are known when a context has been read. -/
def Files.names (e : Files) (names : Names) : Names :=
  match e.procStatus with
  | none => names
  | some (words, uid) => if words.any isUid then (getUsername names e.passwd uid).2 else names

/-! ## The table -/

structure Contexts where
  table : Growable Ctx
  names : Names

/-- `ctxs_get_ctx`, as an index. -/
def ctxsGetCtx (table : Growable Ctx) (threadId : Int32) : Option (Option Nat) :=
  table.find (fun c => c.threadId == threadId) table.n 0

/-- The table and the index of the entry of a thread, which is added where there is none. -/
def ctxsEntry (table : Growable Ctx) (threadId ppuPid : Int32) : Option (Growable Ctx × Nat) := do
  match ← ctxsGetCtx table threadId with
  | some i => some (table, i)
  | none => do
    let table' ← table.push defaultCapacity (allocCtx threadId ppuPid)
    some (table', table.n)

/-- `process_ctx_entry`, which leaves where the thread or its process is gone. -/
def processCtxEntry (lib : Libc) (lastPeriod : UInt64) (s : Contexts) (e : Files) : Option Contexts :=
  match e.tid with
  | none => some s
  | some threadId => do
    let (table, i) ← ctxsEntry s.table threadId (findThreadPid e.procDir)
    match e.procStat with
    | none => some { s with table }
    | some read => do
      let table ← table.modify i (Ctx.refresh lib lastPeriod s.names e read)
      some ⟨table, e.names s.names⟩

/-- An entry of `/spu`. -/
def processDirEntry (lib : Libc) (lastPeriod : UInt64) (s : Contexts) : DirEntry → Option Contexts
  | .ctx files => processCtxEntry lib lastPeriod s files
  | .gang none => some s
  | .gang (some dir) => dir.foldlM (fun s entry =>
      match entry with
      | some files => processCtxEntry lib lastPeriod s files
      | none => some s) s

/-- `get_spu_contexts`: whether there is a table, and the table. The loop of `ctxs_delete` is `Growable.delete`, and its
assertion is about a pointer that has been followed just before. -/
def getSpuContexts (lib : Libc) (field : CtxField) (descending : Bool) (lastPeriod : UInt64) :
    Option (List DirEntry) → Contexts → Option (Bool × Contexts)
  | none, s => some (false, s)
  | some dir, s => do
    let table ← s.table.forEach fun c => { c with updated := false }
    let s ← dir.foldlM (processDirEntry lib lastPeriod) { s with table }
    let table ← s.table.sweep fun c => c.updated
    let table ← table.terminate defaultCapacity
    let table ← table.rearrange (lib.sort (ctxsCompare lib field descending))
    some (true, { s with table })

end LibSpe2.SpuTools
