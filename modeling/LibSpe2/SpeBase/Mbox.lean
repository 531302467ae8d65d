import LibSpe2.SpeBase.Create

/-!
# The mailboxes of a context (`spebase/mbox.c`)

A context with `SPE_MAP_PS` reaches its mailboxes through the mapped problem state, one register access
for each word; the others read and write spufs files, in bytes. The outbound mailbox is protected by
the lock of `FD_MBOX`, the inbound one by that of `FD_WBOX`.

`mbox_data` is a list of words where it is read, and the bytes of the array where it is written.
-/

namespace LibSpe2

/-- `SPE_MBOX_ALL_BLOCKING`. -/
def speMboxAllBlocking : Int := 1

/-- `SPE_MBOX_ANY_BLOCKING`. -/
def speMboxAnyBlocking : Int := 2

/-- `SPE_MBOX_ANY_NONBLOCKING`. -/
def speMboxAnyNonblocking : Int := 3

/-- The four bytes of a word, the most significant one first. -/
def wordBytes (w : Word) : List UInt8 :=
  [(w >>> 24).toUInt8, (w >>> 16).toUInt8, (w >>> 8).toUInt8, w.toUInt8]

/-- The bytes of an array of words. -/
def encode (ws : List Word) : List UInt8 := ws.flatMap wordBytes

/-- Store `bytes` into an array at an offset. -/
def overwrite (buf : List UInt8) (off : Nat) (bytes : List UInt8) : List UInt8 :=
  buf.take off ++ bytes ++ buf.drop (off + bytes.length)

/-- The `size_t` that an `int` is converted to. -/
def toSize (n : Int) : Nat := (n % 2 ^ 64).toNat

/-- `SPU_Mbox_Stat & 0xFF`: the entries of the outbound mailbox. -/
def statEntries (stat : Word) : Int := (stat &&& 0xFF).toNat

/-- `(SPU_Mbox_Stat >> 8) & 0xFF`: the free slots of the inbound mailbox. -/
def statSpace (stat : Word) : Int := ((stat >>> 8) &&& 0xFF).toNat

/-! ## The outbound mailbox -/

/-- `while (entries--)`: read `n` words behind those stored so far. -/
def fetchWords (spe : Spe) : Nat → List Word → Sys (List Word)
  | 0, got => return got
  | n + 1, got => do
    let w ← perform (.readOutMbox spe)
    fetchWords spe n (got ++ [w])

/-- `_base_spe_out_mbox_read_ps`: `total` and the words it stored. -/
def baseSpeOutMboxReadPs (spe : Spe) (count : Int) : Sys (Int × List Word) := do
  baseSpeContextLock spe .mbox
  let got ← .repeats (fun got => do
    let total : Int := got.length
    if total < count then
      let entries := statEntries (← perform (.readMboxStat spe))
      if entries = 0 then return .inr got
      -- don't read more than we need
      let entries := if entries > count - total then count - total else entries
      return .inl (← fetchWords spe entries.toNat got)
    else return .inr got) []
  note (.outBurst spe ⟨got, got.length, count⟩)
  baseSpeContextUnlock spe .mbox
  return (got.length, got)

/-- `_base_spe_out_mbox_read`: the return code and the array afterwards. -/
def baseSpeOutMboxRead (spe : Spe) (mboxData : Option (List UInt8)) (count : Int) :
    Sys (Int × List UInt8) :=
  match mboxData with
  | none => do return (← fail .EINVAL, [])
  | some buf =>
    if count < 1 then do return (← fail .EINVAL, buf)
    else do
      let fl ← perform (.flags spe)
      if fl &&& speMapPs ≠ 0 then
        let (rc, got) ← baseSpeOutMboxReadPs spe count
        return (rc, overwrite buf 0 (encode got))
      else
        let fd ← baseSpeOpenIfClosed spe .mbox false
        match ← perform (.read fd (toSize (toInt32 (count * 4)))) with
        | .ok bytes => return ((bytes.length : Int).tdiv 4, overwrite buf 0 bytes)
        | .error .EAGAIN =>
          -- no data ready to be read
          perform (.setErrno .zero)
          return (0, buf)
        | .error _ => return (-1, buf)

/-! ## The inbound mailbox -/

/-- `while (space--)`: write `n` words from `aux` on; `sent` has been written before. -/
def storeWords (spe : Spe) : Nat → List Word → List Word → Sys (List Word × List Word)
  | 0, aux, sent => return (aux, sent)
  | n + 1, aux, sent => do
    perform (.writeInMbox spe (aux.headD 0))
    storeWords spe n aux.tail (sent ++ [aux.headD 0])

/-- `_base_spe_in_mbox_write_ps`. -/
def baseSpeInMboxWritePs (spe : Spe) (mboxData : List Word) (count : Int) : Sys Int := do
  baseSpeContextLock spe .wbox
  let (_, sent) ← .repeats (fun (aux, sent) => do
    let total : Int := sent.length
    if total < count then
      let space := statSpace (← perform (.readMboxStat spe))
      if space = 0 then return .inr (aux, sent)
      -- don't write more than we have
      let space := if space > count - total then count - total else space
      return .inl (← storeWords spe space.toNat aux sent)
    else return .inr (aux, sent)) (mboxData, [])
  note (.inBurst spe ⟨sent, sent.length, count⟩)
  baseSpeContextUnlock spe .wbox
  return sent.length

/-- Wait for space: `poll` on the inbound mailbox for `POLLOUT`; `false` is `rc == -1`. -/
def pollWbox (spe : Spe) : Sys Bool := do
  let fd ← baseSpeOpenIfClosed spe .wbox false
  match ← perform (.poll fd) with
  | .ok _ => return true
  | .error _ => return false

/-- `SPE_MBOX_ALL_BLOCKING` through the problem state. -/
def inMboxWriteAllPs (spe : Spe) (mboxData : List Word) (count : Int) : Sys Int :=
  .repeats (fun total => do
    let n ← baseSpeInMboxWritePs spe (mboxData.drop total.toNat) (count - total)
    let total := total + n
    if total < count then
      -- we could not write everything, wait for space
      if ← pollWbox spe then return .inl total else return .inr (-1)
    else return .inr total) 0

/-- `SPE_MBOX_ANY_BLOCKING` through the problem state. -/
def inMboxWriteAnyPs (spe : Spe) (mboxData : List Word) (count : Int) : Sys Int :=
  .repeats (fun (_ : Unit) => do
    let total ← baseSpeInMboxWritePs spe mboxData count
    if total = 0 then
      -- we could not write anything, wait for space
      if ← pollWbox spe then return .inl () else return .inr (-1)
    else return .inr total) ()

/-- `SPE_MBOX_ALL_BLOCKING` through the file; `none` is `rc == -1`. -/
def inMboxWriteAllFile (spe : Spe) (mboxData : List Word) (count : Int) : Sys (Option Int) :=
  .repeats (fun total => do
    if total < toInt32 (4 * count) then
      let fd ← baseSpeOpenIfClosed spe .wbox false
      let rest := toSize (toInt32 (4 * count) - total)
      match ← perform (.write fd (((encode mboxData).drop total.toNat).take rest)) with
      | .ok n => return .inl (total + n)
      | .error _ => return .inr none
    else return .inr (some (total.tdiv 4))) 0

/-- One write of the whole array to a file; `none` is `rc == -1`. -/
def inMboxWriteFile (spe : Spe) (fdesc : FdName) (mboxData : List Word) (count : Int) :
    Sys (Except Errno Int) := do
  let fd ← baseSpeOpenIfClosed spe fdesc false
  match ← perform (.write fd ((encode mboxData).take (toSize (toInt32 (4 * count))))) with
  | .ok n => return .ok ((n : Int).tdiv 4)
  | .error e => return .error e

/-- `_base_spe_in_mbox_write`. -/
def baseSpeInMboxWrite (spe : Spe) (mboxData : Option (List Word)) (count behaviorFlag : Int) :
    Sys Int :=
  match mboxData with
  | none => fail .EINVAL
  | some mboxData =>
    if count < 1 then fail .EINVAL
    else if behaviorFlag = speMboxAllBlocking then do
      let fl ← perform (.flags spe)
      if fl &&& speMapPs ≠ 0 then inMboxWriteAllPs spe mboxData count
      else
        match ← inMboxWriteAllFile spe mboxData count with
        | some total => return total
        | none => fail Errno.EIO
    else if behaviorFlag = speMboxAnyBlocking then do
      let fl ← perform (.flags spe)
      if fl &&& speMapPs ≠ 0 then inMboxWriteAnyPs spe mboxData count
      else
        match ← inMboxWriteFile spe .wbox mboxData count with
        | .ok total => return total
        | .error _ => fail Errno.EIO
    else if behaviorFlag = speMboxAnyNonblocking then do
      let fl ← perform (.flags spe)
      -- write directly if we map the PS, else write via spufs
      if fl &&& speMapPs ≠ 0 then baseSpeInMboxWritePs spe mboxData count
      else
        match ← inMboxWriteFile spe .wboxNb mboxData count with
        | .ok total => return total
        | .error .EAGAIN =>
          perform (.setErrno .zero)
          return 0
        | .error _ => fail Errno.EIO
    else fail .EINVAL

/-! ## The outbound interrupt mailbox -/

/-- `SPE_MBOX_ALL_BLOCKING`: read until the array is full. `none` is `rc == -1`. -/
def outIntrMboxReadAll (spe : Spe) (buf : List UInt8) (count : Int) :
    Sys (Option Int × List UInt8) :=
  .repeats (fun (total, buf) => do
    if total < toInt32 (4 * count) then
      let fd ← baseSpeOpenIfClosed spe .ibox false
      match ← perform (.read fd (toSize (toInt32 (4 * count) - total))) with
      | .ok bytes => return .inl (total + bytes.length, overwrite buf total.toNat bytes)
      | .error _ => return .inr (none, buf)
    else return .inr (some total, buf)) ((0 : Int), buf)

/-- One read of the whole array. -/
def outIntrMboxReadOnce (spe : Spe) (fdesc : FdName) (buf : List UInt8) (count : Int) :
    Sys (Except Errno Int × List UInt8) := do
  let fd ← baseSpeOpenIfClosed spe fdesc false
  match ← perform (.read fd (toSize (toInt32 (4 * count)))) with
  | .ok bytes => return (.ok bytes.length, overwrite buf 0 bytes)
  | .error e => return (.error e, buf)

/-- `_base_spe_out_intr_mbox_read`: the return code and the array afterwards. -/
def baseSpeOutIntrMboxRead (spe : Spe) (mboxData : Option (List UInt8)) (count behaviorFlag : Int) :
    Sys (Int × List UInt8) :=
  match mboxData with
  | none => do return (← fail .EINVAL, [])
  | some buf =>
    if count < 1 then do return (← fail .EINVAL, buf)
    else if behaviorFlag = speMboxAllBlocking then do
      match ← outIntrMboxReadAll spe buf count with
      | (some total, buf) => return (total.tdiv 4, buf)
      | (none, buf) => return (← fail Errno.EIO, buf)
    else if behaviorFlag = speMboxAnyBlocking then do
      match ← outIntrMboxReadOnce spe .ibox buf count with
      | (.ok total, buf) => return (total.tdiv 4, buf)
      | (.error _, buf) => return (← fail Errno.EIO, buf)
    else if behaviorFlag = speMboxAnyNonblocking then do
      match ← outIntrMboxReadOnce spe .iboxNb buf count with
      | (.ok total, buf) => return (total.tdiv 4, buf)
      | (.error .EAGAIN, buf) =>
        perform (.setErrno .zero)
        return (0, buf)
      | (.error _, buf) => return (← fail Errno.EIO, buf)
    else do return (← fail .EINVAL, buf)

/-! ## The system -/

/-- What a thread may call; the last two are what the SPU does. -/
inductive MboxCall where
  | outMboxRead (spe : Spe) (mboxData : Option (List UInt8)) (count : Int)
  | inMboxWrite (spe : Spe) (mboxData : Option (List Word)) (count behaviorFlag : Int)
  | outIntrMboxRead (spe : Spe) (mboxData : Option (List UInt8)) (count behaviorFlag : Int)
  | spuPush (spe : Spe) (w : Word)
  | spuPop (spe : Spe)

/-- Nothing has been moved through a mailbox yet. -/
structure MboxInit (s : World) : Prop where
  owner : ∀ m, s.owner m = none
  outbound : ∀ spe, (s.mailboxes spe).outbound = []
  inbound : ∀ spe, (s.mailboxes spe).inbound = []
  hist : s.hist = .empty

/-- Any number of threads at the mailboxes of any contexts, and their SPUs. -/
def mboxSystem : Conc.System Cmd Ans Tid World where
  toMachine := machine
  Call := MboxCall
  code _
    | .outMboxRead spe data count => do let _ ← baseSpeOutMboxRead spe data count
    | .inMboxWrite spe data count behavior => do let _ ← baseSpeInMboxWrite spe data count behavior
    | .outIntrMboxRead spe data count behavior => do
      let _ ← baseSpeOutIntrMboxRead spe data count behavior
    | .spuPush spe w => perform (.spuPush spe w)
    | .spuPop spe => do let _ ← perform (.spuPop spe)
  init := MboxInit

end LibSpe2
