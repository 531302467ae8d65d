import Mathlib.Data.UInt
import Mathlib.Data.Rat.Defs

/-!
# The records of spu-tools (`tools/spu-tools/src/spu-tools.h`)

What `spu-top` and `spu-ps` show: contexts, processes and SPUs.

* `Ctx`, `Proc`, `Spu` — the records.
* `CtxField`, `ProcField`, `SpuField` — the fields by which a table can be sorted, and `key`, what a field names.

A number of type `float` is its value, and a `char` is unsigned, as on the machine that has SPUs.
-/

namespace LibSpe2.SpuTools

/-- `enum time`. -/
inductive Time where
  | user | nice | system | iowait | loaded | total | idle
  deriving DecidableEq

/-- The members that count, which are of type `u64` in all three records. -/
inductive Counter where
  | voluntaryCtxSwitches | involuntaryCtxSwitches | slbMisses | hashFaults | minorPageFaults | majorPageFaults
  | class2Interrupts | ppeLibrary
  deriving DecidableEq

/-- `struct ctx`; a pointer to text is `none` where it is null. -/
structure Ctx where
  ppuPid : Int32
  threadId : Int32
  user : Option String
  status : UInt8
  /-- Isolated or normal. -/
  flags : UInt8
  spe : Int32
  binaryName : Option String
  time : Time → UInt64
  percentSpu : ℚ
  counter : Counter → UInt64
  updated : Bool

/-- `struct proc`. -/
structure Proc where
  ppuPid : Int32
  user : Option String
  binaryName : Option String
  time : Time → UInt64
  percentSpu : ℚ
  counter : Counter → UInt64
  nThreads : Int32

/-- `struct spu`, but for its times, by which no table is sorted. -/
structure Spu where
  number : Int32
  state : UInt8
  counter : Counter → UInt64
  percent : Time → ℚ
  ctxThreadId : Int32

/-! ## Fields -/

/-- `enum ctx_field_id`. -/
inductive CtxField where
  | ppuPid | threadId | user | status | flags | percentSpu | spe | totalTime | userTime | systemTime | loadedTime
  | counter (c : Counter)
  | binaryName
  deriving DecidableEq

/-- `enum proc_field_id`. -/
inductive ProcField where
  | ppuPid | nThreads | user | percentSpu | totalTime | userTime | systemTime | iowaitTime | loadedTime
  | counter (c : Counter)
  | binaryName
  deriving DecidableEq

/-- `enum spu_field_id`. -/
inductive SpuField where
  | number | state | percentSpu | percentUser | percentSystem | percentIowait
  | counter (c : Counter)
  | ctxThreadId
  deriving DecidableEq

/-- The value of a field, as its type in the record has it. -/
inductive Key where
  | int (v : Int32)
  | char (v : UInt8)
  | u64 (v : UInt64)
  | float (v : ℚ)
  | text (v : Option String)

/-- The exact number, of a field that has one. -/
def Key.value : Key → ℚ
  | .int v => v.toInt
  | .char v => v.toNat
  | .u64 v => v.toNat
  | .float v => v
  | .text _ => 0

def Ctx.key (p : Ctx) : CtxField → Key
  | .ppuPid => .int p.ppuPid
  | .threadId => .int p.threadId
  | .user => .text p.user
  | .status => .char p.status
  | .flags => .char p.flags
  | .percentSpu => .float p.percentSpu
  | .spe => .int p.spe
  | .totalTime => .u64 (p.time .total)
  | .userTime => .u64 (p.time .user)
  | .systemTime => .u64 (p.time .system)
  | .loadedTime => .u64 (p.time .loaded)
  | .counter c => .u64 (p.counter c)
  | .binaryName => .text p.binaryName

def Proc.key (p : Proc) : ProcField → Key
  | .ppuPid => .int p.ppuPid
  | .nThreads => .int p.nThreads
  | .user => .text p.user
  | .percentSpu => .float p.percentSpu
  | .totalTime => .u64 (p.time .total)
  | .userTime => .u64 (p.time .user)
  | .systemTime => .u64 (p.time .system)
  | .iowaitTime => .u64 (p.time .iowait)
  | .loadedTime => .u64 (p.time .loaded)
  | .counter c => .u64 (p.counter c)
  | .binaryName => .text p.binaryName

def Spu.key (p : Spu) : SpuField → Key
  | .number => .int p.number
  | .state => .char p.state
  | .percentSpu => .float (p.percent .total)
  | .percentUser => .float (p.percent .user)
  | .percentSystem => .float (p.percent .system)
  | .percentIowait => .float (p.percent .iowait)
  | .counter c => .u64 (p.counter c)
  | .ctxThreadId => .int p.ctxThreadId

/-- A field that is not text. -/
def CtxField.Numeric : CtxField → Prop
  | .user | .binaryName => False
  | _ => True

def ProcField.Numeric : ProcField → Prop
  | .user | .binaryName => False
  | _ => True

end LibSpe2.SpuTools
