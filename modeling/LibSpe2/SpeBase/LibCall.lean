import LibSpe2.Constants
import LibSpe2.SpeBase.FileTable
import Mathlib.Data.List.Basic
import Mathlib.Order.Basic

/-!
# Library-call frames (`spebase/handler_utils.h` and the default callback handlers)

An SPE program asks for a library call by a stop-and-signal whose next word holds an opcode in its top
byte and the address of a stack frame in the others. The three default handlers find the word at the
npc that they are given, look the opcode up in a table and call its handler, which reads its arguments
from the quadwords of the frame and writes the result over the first of them.

* `Frame` — the quadwords that a handler declares (`DECL_n_ARGS`, `DECL_RET`).
* `C99Call.quadwords`, `Posix1Call.quadwords` — those that it reads or writes: a `va_list` is two quadwords
  long, and some arguments are read on one path only.
* `Handler.call` — a dispatcher: its result and the regions of local store that are accessed for the
  opcode word, the arguments and the result.

Main results:
* `libCall_inLocalStore` — when these regions lie inside local store.
* `libCall_escapes` — a frame at the end of local store is read beyond it.
-/

namespace LibSpe2.LibCall

/-! ## Local store -/

/-- `LS_ADDR_MASK`. -/
def lsAddrMask : UInt64 := 0x3ffff

/-- `size` bytes at the offset `base` from the base of local store. -/
structure Region where
  base : Nat
  size : Nat
  deriving DecidableEq

/-- The region lies inside local store. -/
def Region.InLs (r : Region) : Prop := r.base + r.size ≤ lsSize

/-- The big-endian word at an offset. -/
def loadWord (ls : Nat → UInt8) (off : Nat) : UInt32 :=
  (ls off).toUInt32 <<< 24 ||| (ls (off + 1)).toUInt32 <<< 16 ||| (ls (off + 2)).toUInt32 <<< 8 |||
    (ls (off + 3)).toUInt32

/-- A word as an `int`. -/
def intOf (w : UInt32) : Int := if w.toNat < 2 ^ 31 then w.toNat else w.toNat - 2 ^ 32

/-! ## Frames -/

/-- `DECL_n_ARGS` and, if there is a result, `DECL_RET`. -/
structure Frame where
  args : Nat
  ret : Bool
  deriving DecidableEq

/-- `LS_ARG_ADDR`: a quadword of the frame at `lsArgs`. -/
def lsArgAddr (lsArgs i : Nat) : Region := ⟨lsArgs + 16 * i, 16⟩

/-- `ls_args` in `DECL_0_ARGS`. -/
def lsArgsOf (opdata : UInt32) : Nat := (opdata &&& 0xffffff).toNat

/-- `arg->slot[0]` of an argument. -/
def argSlot (ls : Nat → UInt8) (opdata : UInt32) (i : Nat) : UInt32 :=
  loadWord ls (lsArgAddr (lsArgsOf opdata) i).base

/-- `GET_LS_PTR`. -/
def lsPtr (off : UInt32) : Nat := (off &&& 0x3ffff).toNat

/-- The quadwords declared: the arguments, and the first one for the result. -/
def Frame.quadwords (f : Frame) : List Nat := List.range f.args ++ if f.ret then [0] else []

/-- The number of quadwords from the start of the frame to the last one of these. -/
def span (quadwords : List Nat) : Nat := quadwords.foldr (fun i n => max (i + 1) n) 0

/-! ## The tables -/

/-- The opcodes of `default_c99_handler.c`, in the order of its `enum`. -/
inductive C99Call where
  | clearerr | fclose | feof | ferror | fflush | fgetc | fgetpos | fgets | fileno | fopen | fputc
  | fputs | fread | freopen | fseek | fsetpos | ftell | fwrite | getc | getchar | gets | perror | putc
  | putchar | puts | remove | rename | rewind | setbuf | setvbuf | system | tmpfile | tmpnam | ungetc
  | vfprintf | vfscanf | vprintf | vscanf | vsnprintf | vsprintf | vsscanf
  deriving DecidableEq

/-- The calls with opcodes from 1 on. -/
def C99Call.all : List C99Call :=
  [.clearerr, .fclose, .feof, .ferror, .fflush, .fgetc, .fgetpos, .fgets, .fileno, .fopen, .fputc,
    .fputs, .fread, .freopen, .fseek, .fsetpos, .ftell, .fwrite, .getc, .getchar, .gets, .perror,
    .putc, .putchar, .puts, .remove, .rename, .rewind, .setbuf, .setvbuf, .system, .tmpfile, .tmpnam,
    .ungetc, .vfprintf, .vfscanf, .vprintf, .vscanf, .vsnprintf, .vsprintf, .vsscanf]

/-- The frame that `default_c99_handler_…` declares. -/
def C99Call.frame : C99Call → Frame
  | .getchar | .tmpfile | .tmpnam => ⟨0, true⟩
  | .clearerr | .rewind => ⟨1, false⟩
  | .fclose | .feof | .ferror | .fflush | .fgetc | .fileno | .ftell | .getc | .gets | .putchar | .puts
  | .remove | .system => ⟨1, true⟩
  | .perror | .setbuf => ⟨2, false⟩
  | .fgetpos | .fopen | .fputc | .fputs | .fsetpos | .putc | .rename | .ungetc | .vprintf
  | .vscanf => ⟨2, true⟩
  | .fgets | .freopen | .fseek | .vfprintf | .vfscanf | .vsprintf | .vsscanf => ⟨3, true⟩
  | .fread | .fwrite | .setvbuf | .vsnprintf => ⟨4, true⟩

/-- The quadwords that `default_c99_handler_…` reads or writes. -/
def C99Call.quadwords (ls : Nat → UInt8) (opdata : UInt32) : C99Call → List Nat
  -- Path and mode are only read for a handle that can be in the table.
  | .freopen =>
    let i := intOf (argSlot ls opdata 2)
    if i ≤ 0 ∨ i ≥ FileTable.speFopenMax then [2, 0] else [2, 0, 1]
  -- `struct spe_va_list` is copied whole, which takes the quadword behind the last argument too.
  | .vprintf | .vscanf => [0, 1, 2]
  | .vfprintf | .vfscanf | .vsprintf | .vsscanf => [0, 1, 2, 3]
  | .vsnprintf => [0, 1, 2, 3, 4]
  | f => f.frame.quadwords

/-- The opcodes of `default_posix1_handler.c`, in the order of its `enum`. -/
inductive Posix1Call where
  | adjtimex | close | creat | fstat | ftok | getpagesize | gettimeofday | kill | lseek | lstat | mmap
  | mremap | msync | munmap | open | read | shmat | shmctl | shmdt | shmget | shmOpen | shmUnlink | stat
  | unlink | wait | waitpid | write | ftruncate | access | dup | time | nanosleep | chdir | fchdir
  | mkdir | mknod | rmdir | chmod | fchmod | chown | fchown | lchown | getcwd | link | symlink
  | readlink | sync | fsync | fdatasync | dup2 | lockf | truncate | mkstemp | mktemp | opendir
  | closedir | readdir | rewinddir | seekdir | telldir | schedYield | umask | utime | utimes | pread
  | pwrite | readv | writev
  deriving DecidableEq

def Posix1Call.all : List Posix1Call :=
  [.adjtimex, .close, .creat, .fstat, .ftok, .getpagesize, .gettimeofday, .kill, .lseek, .lstat,
    .mmap, .mremap, .msync, .munmap, .open, .read, .shmat, .shmctl, .shmdt, .shmget, .shmOpen,
    .shmUnlink, .stat, .unlink, .wait, .waitpid, .write, .ftruncate, .access, .dup, .time, .nanosleep,
    .chdir, .fchdir, .mkdir, .mknod, .rmdir, .chmod, .fchmod, .chown, .fchown, .lchown, .getcwd, .link,
    .symlink, .readlink, .sync, .fsync, .fdatasync, .dup2, .lockf, .truncate, .mkstemp, .mktemp,
    .opendir, .closedir, .readdir, .rewinddir, .seekdir, .telldir, .schedYield, .umask, .utime,
    .utimes, .pread, .pwrite, .readv, .writev]

/-- The frame that `default_posix1_handler_…` declares. Without `SPE_POSIX1_SHM_CALLS` the handlers of the `shm`
calls only return `ENOSYS`. -/
def Posix1Call.frame (shmCalls : Bool) : Posix1Call → Frame
  | .sync => ⟨0, false⟩
  | .getpagesize | .schedYield => ⟨0, true⟩
  | .adjtimex | .close | .unlink | .wait | .dup | .time | .chdir | .fchdir | .rmdir | .fsync
  | .fdatasync | .mkstemp | .mktemp | .opendir | .closedir | .rewinddir | .telldir | .umask => ⟨1, true⟩
  | .shmdt | .shmUnlink => ⟨if shmCalls then 1 else 0, true⟩
  | .creat | .fstat | .ftok | .gettimeofday | .kill | .lstat | .munmap | .stat | .ftruncate | .access
  | .nanosleep | .mkdir | .chmod | .fchmod | .getcwd | .link | .symlink | .dup2 | .truncate | .readdir
  | .seekdir | .utime | .utimes => ⟨2, true⟩
  | .lseek | .msync | .open | .read | .waitpid | .write | .mknod | .chown | .fchown | .lchown
  | .readlink | .lockf | .readv | .writev => ⟨3, true⟩
  | .shmat | .shmctl | .shmget | .shmOpen => ⟨if shmCalls then 3 else 0, true⟩
  | .mremap | .pread | .pwrite => ⟨4, true⟩
  | .mmap => ⟨6, true⟩

/-- The quadwords that `default_posix1_handler_…` reads or writes; `rc` is the result of the host's function. -/
def Posix1Call.quadwords (shmCalls : Bool) (rc : Int) : Posix1Call → List Nat
  -- The pointer to the structure is only read when there is something to store.
  | .stat | .fstat | .lstat => if rc = 0 then [0, 1] else [0]
  | f => (f.frame shmCalls).quadwords

/-- The opcodes of `default_libea_handler.h`. -/
inductive LibeaCall where
  | calloc | free | malloc | realloc | posixMemalign
  deriving DecidableEq

def LibeaCall.all : List LibeaCall := [.calloc, .free, .malloc, .realloc, .posixMemalign]

/-- The frame that `default_libea_handler_…` declares, all of which it uses. -/
def LibeaCall.frame : LibeaCall → Frame
  | .calloc | .realloc => ⟨2, true⟩
  | .free => ⟨1, false⟩
  | .malloc => ⟨1, true⟩
  | .posixMemalign => ⟨3, true⟩

/-! ## Dispatch -/

/-- `SPE_C99_OP`, `SPE_POSIX1_OP` and `SPE_LIBEA_OP`. -/
def opOf (opdata : UInt32) : Nat := ((opdata >>> 24) &&& 0xff).toNat

/-- What the three dispatchers do with the table `funcs` of the handlers of the opcodes from 1 on, each given
by the quadwords of its frame that it uses: the result, and the regions accessed. `base` says that local store
is mapped. -/
def dispatch (funcs : List (UInt32 → List Nat)) (base : Bool) (ls : Nat → UInt8) (offset : UInt64) :
    Int × List Region :=
  if base = false then (1, [])
  else
    let offset := ((offset &&& lsAddrMask) &&& ~~~1).toNat
    let opdata := loadWord ls offset
    let op := opOf opdata
    if op = 0 ∨ op ≥ funcs.length + 1 then (1, [⟨offset, 4⟩])
    else match funcs[op - 1]? with
      | none => (1, [⟨offset, 4⟩])
      | some f => (0, ⟨offset, 4⟩ :: (f opdata).map (lsArgAddr (lsArgsOf opdata)))

/-- The default handlers; `rc` is what a call of the host's `stat`, `fstat` or `lstat` returns. -/
inductive Handler where
  | c99
  | posix1 (shmCalls : Bool) (rc : Int)
  | libea

/-- `default_c99_funcs`, `default_posix1_funcs` and `default_libea_funcs`. -/
def Handler.funcs (ls : Nat → UInt8) : Handler → List (UInt32 → List Nat)
  | .c99 => C99Call.all.map fun f opdata => f.quadwords ls opdata
  | .posix1 shmCalls rc => Posix1Call.all.map fun f _ => f.quadwords shmCalls rc
  | .libea => LibeaCall.all.map fun f _ => f.frame.quadwords

/-- `_base_spe_default_c99_handler`. -/
def baseSpeDefaultC99Handler (base : Bool) (ls : Nat → UInt8) := dispatch (Handler.c99.funcs ls) base ls

/-- `_base_spe_default_posix1_handler`. -/
def baseSpeDefaultPosix1Handler (shmCalls : Bool) (rc : Int) (base : Bool) (ls : Nat → UInt8) :=
  dispatch ((Handler.posix1 shmCalls rc).funcs ls) base ls

/-- `_base_spe_default_libea_handler`. -/
def baseSpeDefaultLibeaHandler (base : Bool) (ls : Nat → UInt8) := dispatch (Handler.libea.funcs ls) base ls

def Handler.call : Handler → Bool → (Nat → UInt8) → UInt64 → Int × List Region
  | .c99 => baseSpeDefaultC99Handler
  | .posix1 shmCalls rc => baseSpeDefaultPosix1Handler shmCalls rc
  | .libea => baseSpeDefaultLibeaHandler

/-- The quadwords that the handler of an opcode word uses, if there is one. -/
def Handler.quadwords (h : Handler) (ls : Nat → UInt8) (opdata : UInt32) : Option (List Nat) :=
  if opOf opdata = 0 then none else ((h.funcs ls)[opOf opdata - 1]?).map (· opdata)

/-! ## Bounds -/

/-- Where the opcode word is read. -/
def opcodeOffset (offset : UInt64) : Nat := ((offset &&& lsAddrMask) &&& ~~~1).toNat

variable {ls : Nat → UInt8} {offset : UInt64}

/-- An opcode without a handler is refused, and only its word is read. -/
theorem dispatch_eq (funcs : List (UInt32 → List Nat)) : dispatch funcs true ls offset =
    let opdata := loadWord ls (opcodeOffset offset)
    match if opOf opdata = 0 then none else funcs[opOf opdata - 1]? with
    | none => (1, [⟨opcodeOffset offset, 4⟩])
    | some f => (0, ⟨opcodeOffset offset, 4⟩ :: (f opdata).map (lsArgAddr (lsArgsOf opdata))) := by
  unfold dispatch opcodeOffset
  rw [if_neg (by decide)]
  dsimp only
  generalize loadWord ls (offset &&& lsAddrMask &&& ~~~1).toNat = opdata
  by_cases hz : opOf opdata = 0
  · rw [if_pos (.inl hz), if_pos hz]
  rw [if_neg hz]
  split
  · next h =>
    have hnone : funcs[opOf opdata - 1]? = none := List.getElem?_eq_none (by omega)
    rw [hnone]
  · rfl

theorem Handler.call_eq (h : Handler) (base : Bool) :
    h.call base ls offset = dispatch (h.funcs ls) base ls offset := by
  cases h <;> rfl

/-- The regions of a call: the opcode word, and what the handler of the opcode uses if there is one. -/
theorem Handler.call_regions (h : Handler) {r : Region} : r ∈ (h.call true ls offset).2 ↔
    r = ⟨opcodeOffset offset, 4⟩ ∨
      ∃ qs, h.quadwords ls (loadWord ls (opcodeOffset offset)) = some qs ∧
        ∃ i ∈ qs, r = lsArgAddr (lsArgsOf (loadWord ls (opcodeOffset offset))) i := by
  rw [Handler.call_eq, dispatch_eq]
  unfold Handler.quadwords
  dsimp only
  generalize loadWord ls (opcodeOffset offset) = opdata
  by_cases hz : opOf opdata = 0
  · simp [hz]
  rw [if_neg hz, if_neg hz]
  cases (h.funcs ls)[opOf opdata - 1]? with
  | none => simp
  | some f => simp [eq_comm]

/-- The quadwords lie inside local store if the last of them does. -/
theorem quadwords_inLs {lsArgs : Nat} (qs : List Nat) :
    (∀ i ∈ qs, (lsArgAddr lsArgs i).InLs) ↔ span qs = 0 ∨ lsArgs + 16 * span qs ≤ lsSize := by
  induction qs with
  | nil => simp [span]
  | cons i qs ih =>
    have hspan : span (i :: qs) = max (i + 1) (span qs) := rfl
    have hin : (lsArgAddr lsArgs i).InLs ↔ lsArgs + 16 * i + 16 ≤ lsSize := Iff.rfl
    rw [List.forall_mem_cons, ih, hin, hspan]
    omega

/-- **Library-call frames**, for every default handler, every npc, every opcode word and every result of the
host: all accesses lie inside local store exactly if the opcode word does, and the last quadword that the
handler of the opcode uses. -/
theorem libCall_inLocalStore (h : Handler) (ls : Nat → UInt8) (offset : UInt64) :
    (∀ r ∈ (h.call true ls offset).2, r.InLs) ↔
      opcodeOffset offset + 4 ≤ lsSize ∧
        ∀ qs, h.quadwords ls (loadWord ls (opcodeOffset offset)) = some qs →
          span qs = 0 ∨ lsArgsOf (loadWord ls (opcodeOffset offset)) + 16 * span qs ≤ lsSize := by
  constructor
  · intro hin
    refine ⟨hin ⟨opcodeOffset offset, 4⟩ (h.call_regions.mpr (.inl rfl)), fun qs hqs => ?_⟩
    apply (quadwords_inLs qs).mp
    intro i hi
    exact hin _ (h.call_regions.mpr (.inr ⟨qs, hqs, i, hi, rfl⟩))
  · rintro ⟨hop, hframe⟩ r hr
    rcases h.call_regions.mp hr with rfl | ⟨qs, hqs, i, hi, rfl⟩
    · exact hop
    · exact (quadwords_inLs qs).mpr (hframe qs hqs) i hi

/-- Local store with an `fclose` whose frame is at `0x3fff8`. -/
def fcloseAtEnd : Nat → UInt8 := fun off => [0x02, 0x03, 0xff, 0xf8].getD off 0

/-- The handler reads the argument of the call from beyond local store. -/
theorem libCall_escapes :
    ¬ ∀ r ∈ (baseSpeDefaultC99Handler true fcloseAtEnd 0).2, r.InLs := by
  intro h
  have hr := h (lsArgAddr 0x3fff8 0) (by decide)
  revert hr
  unfold Region.InLs
  decide

end LibSpe2.LibCall
