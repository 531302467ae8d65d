import LibSpe2.Data.Packed
import LibSpe2.SpeBase.ScanfStores

/-!
# What `printf` prints (`spebase/default_c99_handler.c`)

The handlers of the `printf` calls fetch the arguments of the SPE program, put each on a `va_list` of the host, in
the type that the host's function takes, and call this function. A `long` and a pointer have 4 bytes at the SPE and
may have 8 at the host; a pointer is one into local store; and a `long` that `%ln` stores goes through a temporary.

* `Use` — what C99 takes an argument for.
* `servePrintf` — the handlers; `Push.moved` is what they put on the list, `Build.vaListPut` where.
* `hostPrintf` — the host's function, which reads its list as its ABI has it (`Build.vaArg`).
* `PrintsRight` — what is printed and stored is what C99 says for the arguments of the SPE program.

Main result: `prints_right`.
-/

namespace LibSpe2.Format

open LibCall (lsPtr argSlot lsArgsOf)
open Mapped (bytesAt number digits signed signedDigits Layout)

/-! ## Arguments -/

/-- What `printf` takes an argument for. -/
inductive Use where
  | number (signed : Bool) (arg : Arg)
  | real
  | address
  | string
  | count (length : Length)
  deriving DecidableEq

/-- The type of the argument. -/
def Use.arg : Use → Arg
  | number _ arg => arg
  | real => .double
  | address | string | count _ => .pointer

def Conv.use (conv : Conv) (length : Length) : Use :=
  if conv.isInt then .number (conv = .d || conv = .i) (conv.printfArg length)
  else if conv.isFloat then .real
  else if conv = .s then .string
  else if conv = .n then .count length
  else if conv = .p then .address
  else .number true (conv.printfArg length)

def Width.uses : Width → List Use
  | .number _ => []
  | .star => [.number true .int]

def precisionUses : Option Width → List Use
  | none => []
  | some w => w.uses

def PrintfDirective.uses (d : PrintfDirective) : List Use :=
  d.width.uses ++ precisionUses d.precision ++ [d.conv.use d.length]

/-- The arguments of a format. -/
def usesOf (f : List (Item PrintfDirective)) : List Use := f.flatMap (Item.each PrintfDirective.uses)

/-- The characters of a format. -/
def formatText (f : List (Item PrintfDirective)) : List UInt8 := f.flatMap (Item.render PrintfDirective.render)

/-- The size of what `%n` stores, where a `long` has `long` bytes. -/
def Length.countSize (long : Nat) : Length → Nat
  | .hh => 1
  | .h => 2
  | .l | .z | .t => long
  | .ll | .j => 8
  | .none | .L => 4

/-- What `printf` is given: a number, the bytes of a `double`, the address of a string, or of a counter. -/
inductive Value where
  | num (n : Int)
  | real (bytes : List UInt8)
  | string (addr : Nat)
  | count
  deriving DecidableEq

/-- What a call prints, and the number of characters when it comes to a `%n`; it may end before its last
argument. -/
structure Printed where
  rc : UInt32
  errno : UInt32
  text : List UInt8
  reached : Nat
  count : Nat → Nat

/-- What is stored for an argument: the length modifier, and the number. -/
def Use.counted (p : Printed) (j : Nat) : Use → Option (Length × Nat)
  | count length => if j < p.reached then some (length, p.count j) else none
  | _ => none

/-! ## The handlers -/

/-- What a handler finds at the host. -/
structure PrintfEnv where
  build : Build
  /-- The address of local store. -/
  base : Nat
  /-- The address of the `llval` of the temporary that an argument gets, if it gets one. -/
  temp : Nat → Nat
  /-- What the array `vlist` has on the stack. -/
  stack : Nat → UInt8
  /-- What the temporaries have on the stack. -/
  llval : Nat → List UInt8
  errno : UInt32

/-- What a function of the host does: its stores are through the pointers on its list. -/
structure HostPrintf where
  rc : UInt32
  errno : UInt32
  text : List UInt8
  stores : List (Nat × List UInt8)

/-- What the handler has done: characters go to a stream, by its index, or are stored. -/
structure PrintfOut where
  stream : Option UInt32
  text : List UInt8
  stores : List Store

/-- `GET_LS_PTR` of a word that was fetched. -/
def ptrOf (bytes : List UInt8) : Nat := lsPtr (.ofNat (number bytes))

/-- The value of `__VA_LIST_PUT`, for the argument number `j` that was fetched. -/
def Push.moved (env : PrintfEnv) (j : Nat) (bytes : List UInt8) : Push → List UInt8
  | int | longLong | double => bytes
  | long => signedDigits env.build.wordSize (signed bytes)
  | ulong => digits env.build.wordSize (number bytes)
  | ptr => digits env.build.wordSize (env.base + ptrOf bytes)
  | temp => digits env.build.wordSize (env.temp j)

/-- Where `__VA_LIST_PUT` writes, from the start of `vlist`. -/
def Build.vaListPut : Build → Layout
  | ppc64 => ⟨fun off size => off + 8 - size, fun off _ => off + 8⟩
  | ppc32 => ⟨fun off size => (off + size - 1) / size * size, fun off size => (off + size - 1) / size * size + size⟩

def moveAll (env : PrintfEnv) (xs : List Push) (fetched : List (List UInt8)) : List (List UInt8) :=
  (xs.zip fetched).zipIdx.map fun ((x, bytes), j) => x.moved env j bytes

/-- The stores that go to local store. -/
def PrintfEnv.lsStores (env : PrintfEnv) (stores : List (Nat × List UInt8)) : List Store :=
  stores.filterMap fun (a, bytes) =>
    if env.base ≤ a ∧ a < env.base + lsSize then some ⟨a - env.base, bytes⟩ else none

/-- A temporary after the call. -/
def PrintfEnv.llvalAfter (env : PrintfEnv) (stores : List (Nat × List UInt8)) (j : Nat) : List UInt8 :=
  ((stores.find? fun s => s.1 = env.temp j).map (·.2)).getD (env.llval j)

/-- The body that the handlers share, from `__nr_format_args` on; `store` is what the function stores of its
text. -/
def servePrintf (env : PrintfEnv) (ls : Nat → UInt8) (format : Nat) (v : SpeVaList) (ret : Nat)
    (stream : Option UInt32) (store : List UInt8 → List Store) (host : (Nat → UInt8) → HostPrintf) :
    Option PrintfOut := do
  let text := bytesAt ls (lsSize - format) format
  let nrVargs ← nrFormatArgs text
  let (rc, xs) ← parsePrintfFormat env.build nrVargs text
  if rc = 0 then
    let fetched := (fetches v xs).map fun r => bytesAt ls r.size r.base
    let h := host (env.build.vaListPut.put env.stack 0 (moveAll env xs fetched))
    let copies := copyVaTemp (xs.zip (fetched.map ptrOf)) (env.llvalAfter h.stores)
    return ⟨stream, h.text, store h.text ++ env.lsStores h.stores ++ copies ++ [putLsRc ret h.rc 0 0 h.errno]⟩
  else return ⟨stream, [], [putLsRc ret eof 0 0 env.errno]⟩

/-- `SPE_STDOUT`. -/
def speStdout : UInt32 := 2

/-- What `vsprintf` stores at `str`. -/
def vsprintfStore (str : Nat) (text : List UInt8) : List Store := [⟨str, text ++ [0]⟩]

/-- What `vsnprintf` stores at `str`. -/
def vsnprintfStore (str size : Nat) (text : List UInt8) : List Store :=
  if size = 0 then [] else [⟨str, text.take (size - 1) ++ [0]⟩]

/-- `default_c99_handler_vfprintf`. -/
def defaultC99HandlerVfprintf (env : PrintfEnv) (ls : Nat → UInt8) (opdata : UInt32) :
    ((Nat → UInt8) → HostPrintf) → Option PrintfOut :=
  servePrintf env ls (argPointer ls opdata 1) (argVaList ls opdata 2) (lsArgsOf opdata) (some (argSlot ls opdata 0))
    fun _ => []

/-- `default_c99_handler_vprintf`. -/
def defaultC99HandlerVprintf (env : PrintfEnv) (ls : Nat → UInt8) (opdata : UInt32) :
    ((Nat → UInt8) → HostPrintf) → Option PrintfOut :=
  servePrintf env ls (argPointer ls opdata 0) (argVaList ls opdata 1) (lsArgsOf opdata) (some speStdout) fun _ => []

/-- `default_c99_handler_vsnprintf`. -/
def defaultC99HandlerVsnprintf (env : PrintfEnv) (ls : Nat → UInt8) (opdata : UInt32) :
    ((Nat → UInt8) → HostPrintf) → Option PrintfOut :=
  servePrintf env ls (argPointer ls opdata 2) (argVaList ls opdata 3) (lsArgsOf opdata) none
    (vsnprintfStore (argPointer ls opdata 0) (argSlot ls opdata 1).toNat)

/-- `default_c99_handler_vsprintf`. -/
def defaultC99HandlerVsprintf (env : PrintfEnv) (ls : Nat → UInt8) (opdata : UInt32) :
    ((Nat → UInt8) → HostPrintf) → Option PrintfOut :=
  servePrintf env ls (argPointer ls opdata 1) (argVaList ls opdata 2) (lsArgsOf opdata) none
    (vsprintfStore (argPointer ls opdata 0))

/-- The four calls. -/
inductive PrintfCall where
  | vfprintf | vprintf | vsnprintf | vsprintf

namespace PrintfCall

variable (call : PrintfCall) (env : PrintfEnv) (ls : Nat → UInt8) (opdata : UInt32)

def serve : ((Nat → UInt8) → HostPrintf) → Option PrintfOut :=
  match call with
  | vfprintf => defaultC99HandlerVfprintf env ls opdata
  | vprintf => defaultC99HandlerVprintf env ls opdata
  | vsnprintf => defaultC99HandlerVsnprintf env ls opdata
  | vsprintf => defaultC99HandlerVsprintf env ls opdata

/-- The argument that is the format; the `va_list` is the next one. -/
def formatArg : PrintfCall → Nat
  | vprintf => 0
  | vfprintf | vsprintf => 1
  | vsnprintf => 2

/-- The bytes from the format on. -/
def text : Ptr := bytesAt ls (lsSize - argPointer ls opdata call.formatArg) (argPointer ls opdata call.formatArg)

def vaList : SpeVaList := argVaList ls opdata (call.formatArg + 1)

/-- The stream that C99 has the call print to. -/
def stream : Option UInt32 :=
  match call with
  | vfprintf => some (argSlot ls opdata 0)
  | vprintf => some speStdout
  | vsnprintf | vsprintf => none

/-- What C99 has the call store of its text. -/
def stored (text : List UInt8) : List Store :=
  match call with
  | vfprintf | vprintf => []
  | vsnprintf => vsnprintfStore (argPointer ls opdata 0) (argSlot ls opdata 1).toNat text
  | vsprintf => vsprintfStore (argPointer ls opdata 0) text

theorem serve_eq (host : (Nat → UInt8) → HostPrintf) : call.serve env ls opdata host =
    servePrintf env ls (argPointer ls opdata call.formatArg) (call.vaList ls opdata) (lsArgsOf opdata)
      (call.stream ls opdata) (call.stored ls opdata) host := by
  cases call <;> rfl

end PrintfCall

/-! ## The host's function -/

/-- Where `va_arg` reads: on PPC-64 each argument has a doubleword and is at its right end, on PPC-32 it has one
word, or two from an even one on. -/
def Build.vaArg : Build → Layout
  | ppc64 => ⟨fun off size => off + (8 - size), fun off _ => off + 8⟩
  | ppc32 =>
    let word (off size : Nat) := if size = 8 then (off + 7) / 8 * 8 else (off + 3) / 4 * 4
    ⟨word, fun off size => word off size + if size = 8 then 8 else 4⟩

def Use.hostSize (b : Build) (u : Use) : Nat := (u.arg.passing b 8).hostSize

/-- The value of an argument at the host. -/
def Use.ofHost (bytes : List UInt8) : Use → Value
  | number true _ => .num (signed bytes)
  | number false _ => .num (Mapped.number bytes)
  | real => .real bytes
  | address => .num (Mapped.number bytes)
  | string => .string (Mapped.number bytes)
  | count _ => .count

/-- The host's function for a format. `print` is what it prints for the values; it stores through the pointers
that it has for `%n`. -/
def hostPrintf (env : PrintfEnv) (print : List UInt8 → List Value → Printed) (f : List (Item PrintfDirective))
    (vlist : Nat → UInt8) : HostPrintf :=
  let args := env.build.vaArg.get vlist 0 ((usesOf f).map (Use.hostSize env.build))
  let p := print (formatText f) ((usesOf f).zipIdx.map fun (u, j) => u.ofHost (args.getD j []))
  { rc := p.rc
    errno := p.errno
    text := p.text
    stores := (usesOf f).zipIdx.filterMap fun (u, j) => (u.counted p j).map fun (length, n) =>
      (number (args.getD j []), digits (length.countSize env.build.wordSize) n) }

/-! ## The law -/

def Use.speSize (u : Use) : Nat := (u.arg.passing .ppc32 8).speSize

/-- The bytes of an argument of the SPE program, where its ABI has them. -/
def Use.speBytes (ls : Nat → UInt8) (v : SpeVaList) (u : Use) (j : Nat) : List UInt8 :=
  bytesAt ls u.speSize (abiSlot v j)

/-- The value of an argument at the SPE; a string is in local store, where the host has it at this address. -/
def Use.ofSpe (base : Nat) (bytes : List UInt8) : Use → Value
  | number true _ => .num (signed bytes)
  | number false _ => .num (Mapped.number bytes)
  | real => .real bytes
  | address => .num (Mapped.number bytes)
  | string => .string (base + ptrOf bytes)
  | count _ => .count

/-- What is printed for the arguments of the SPE program. -/
def spePrinted (env : PrintfEnv) (print : List UInt8 → List Value → Printed) (ls : Nat → UInt8) (v : SpeVaList)
    (f : List (Item PrintfDirective)) : Printed :=
  print (formatText f) ((usesOf f).zipIdx.map fun (u, j) => u.ofSpe env.base (u.speBytes ls v j))

/-- What `%n` stores at the SPE, whose `long` has 4 bytes. -/
def speCounts (ls : Nat → UInt8) (v : SpeVaList) (uses : List Use) (p : Printed) : List Store :=
  uses.zipIdx.filterMap fun (u, j) => (u.counted p j).map fun (length, n) =>
    ⟨ptrOf (u.speBytes ls v j), digits (length.countSize 4) n⟩

/-- **The law**: the call prints and stores what C99 says for the arguments that the SPE program has passed, and
stores nothing else but its result. -/
def PrintsRight (call : PrintfCall) (env : PrintfEnv) (print : List UInt8 → List Value → Printed)
    (ls : Nat → UInt8) (opdata : UInt32) (f : List (Item PrintfDirective)) : Prop :=
  let v := call.vaList ls opdata
  let p := spePrinted env print ls v f
  ∃ out, call.serve env ls opdata (hostPrintf env print f) = some out ∧
    out.stream = call.stream ls opdata ∧ out.text = p.text ∧
    OnlyConverted ls (putLsRc (lsArgsOf opdata) p.rc 0 0 p.errno)
      (call.stored ls opdata p.text ++ speCounts ls v (usesOf f) p) out.stores

/-- Local store is in the address space, and the temporaries of `n` arguments are somewhere else. -/
structure PrintfEnv.Valid (env : PrintfEnv) (n : Nat) : Prop where
  base : env.base + lsSize ≤ 256 ^ env.build.wordSize
  space : ∀ j < n, env.temp j < 256 ^ env.build.wordSize
  outside : ∀ j < n, ¬(env.base ≤ env.temp j ∧ env.temp j < env.base + lsSize)
  distinct : ∀ i < n, ∀ j < n, env.temp i = env.temp j → i = j

/-- The SPE program has passed a format of C99, without the modifier `L`, and its arguments, where they are found. -/
structure Passes (call : PrintfCall) (ls : Nat → UInt8) (opdata : UInt32) (f : List (Item PrintfDirective)) :
    Prop where
  known : ∀ d, .directive d ∈ f → d.length ≠ .L
  text : ∃ behind, call.text ls opdata = cString (formatText f) behind
  aligned : 16 ∣ (call.vaList ls opdata).nextArg.toNat ∧ 16 ∣ (call.vaList ls opdata).callerStack.toNat
  le : (call.vaList ls opdata).nextArg.toNat ≤ (call.vaList ls opdata).callerStack.toNat
  reach : (f.flatMap (Item.each PrintfDirective.args)).length ≤ (call.vaList ls opdata).reach

/-- The counter is a `long` of 8 bytes at the host. -/
def Build.isTemp (b : Build) (length : Length) : Prop := b = .ppc64 ∧ length.formatLong = 1

instance (b : Build) (length : Length) : Decidable (b.isTemp length) := inferInstanceAs (Decidable (_ ∧ _))

/-! ## Arguments and pushes -/

/-- What the parser moves for an argument. -/
def Use.push (b : Build) : Use → Push
  | number signed arg =>
    match arg with
    | .int | .wint => .int
    | .long | .size | .ptrdiff | .pointer => if b = .ppc64 then if signed then .long else .ulong else .int
    | .longLong | .intmax => .longLong
    | .double | .longDouble => .double
  | real => .double
  | address => .ulong
  | string => .ptr
  | count length => if b = .ppc64 ∧ length.formatLong = 1 then .temp else .ptr

section

variable {b : Build}

theorem conv_pushes (length : Length) (conv : Conv) :
    printfConversion b conv.char length.formatLong = [(conv.use length).push b] := by
  cases b <;> cases length <;> cases conv <;> rfl

theorem Width.pushes_eq (w : Width) : w.pushes = w.uses.map (Use.push b) := by cases w <;> rfl

theorem precisionPushes_eq (pr : Option Width) : precisionPushes pr = (precisionUses pr).map (Use.push b) := by
  cases pr with
  | none => rfl
  | some w => exact w.pushes_eq

theorem PrintfDirective.pushes_eq (d : PrintfDirective) (hL : d.length ≠ .L) :
    (d.pushes b).map id = d.uses.map (Use.push b) := by
  rw [List.map_id, pushes, uses, if_neg hL, conv_pushes, d.width.pushes_eq, precisionPushes_eq,
    List.map_append, List.map_append]
  rfl

theorem printfPushes_eq {f : List (Item PrintfDirective)} (hf : ∀ d, .directive d ∈ f → d.length ≠ .L) :
    f.flatMap (Item.each (PrintfDirective.pushes b)) = (usesOf f).map (Use.push b) := by
  have hmap := each_map_eq fun d hd => PrintfDirective.pushes_eq (b := b) d (hf d hd)
  rwa [List.map_id] at hmap

theorem conv_arg {length : Length} (conv : Conv) (hL : length ≠ .L) :
    (conv.use length).arg = conv.printfArg length := by
  cases length <;> cases conv <;> first
    | rfl
    | exact absurd rfl hL

theorem Width.args_eq (w : Width) : w.uses.map Use.arg = w.args := by cases w <;> rfl

/-- The arguments are those of the grammar. -/
theorem PrintfDirective.args_eq (d : PrintfDirective) (hL : d.length ≠ .L) : d.uses.map Use.arg = d.args.map id := by
  have hprecision : (precisionUses d.precision).map Use.arg = precisionArgs d.precision := by
    cases d.precision with
    | none => rfl
    | some w => exact w.args_eq
  simp [uses, args, conv_arg d.conv hL, d.width.args_eq, hprecision]

theorem printfArgs_eq {f : List (Item PrintfDirective)} (hf : ∀ d, .directive d ∈ f → d.length ≠ .L) :
    (usesOf f).map Use.arg = f.flatMap (Item.each PrintfDirective.args) := by
  have hmap := each_map_eq fun d hd => PrintfDirective.args_eq d (hf d hd)
  rwa [List.map_id] at hmap

/-! ## Values -/

variable {u : Use} {j : Nat} {bytes : List UInt8} {env : PrintfEnv}

theorem fetchSize_push : (u.push b).fetchSize = u.speSize := by
  cases u with
  | number signed arg => cases arg <;> cases b <;> cases signed <;> rfl
  | count length => cases b <;> cases length <;> rfl
  | _ => rfl

theorem putSize_push : (u.push b).putSize b = u.hostSize b := by
  cases u with
  | number signed arg => cases arg <;> cases b <;> cases signed <;> rfl
  | count length => cases b <;> cases length <;> rfl
  | _ => cases b <;> rfl

/-- `__VA_LIST_PUT` writes a value of its type. -/
theorem length_moved {x : Push} (h : bytes.length = x.fetchSize) :
    (x.moved env j bytes).length = x.putSize env.build := by
  cases x with
  | int | longLong | double => exact h
  | long => exact Mapped.length_signedDigits ..
  | ulong | ptr | temp => exact Mapped.length_digits ..

theorem wordSize_ge (b : Build) : 4 ≤ b.wordSize := by cases b <;> decide

theorem ptrOf_lt (bytes : List UInt8) : ptrOf bytes < lsSize := by
  show (_ &&& (0x3ffff : UInt32)).toNat < _
  rw [UInt32.toNat_and]
  exact Nat.lt_of_le_of_lt Nat.and_le_right (by decide)

/-- **One argument**: the host has the value that the SPE program has passed. -/
theorem value_moved (hbase : env.base + lsSize ≤ 256 ^ env.build.wordSize) (h : bytes.length = u.speSize) :
    u.ofHost ((u.push env.build).moved env j bytes) = u.ofSpe env.base bytes := by
  have hword := wordSize_ge env.build
  cases u with
  | real | count => rfl
  | address =>
    have hlen : bytes.length ≤ env.build.wordSize := h ▸ hword
    exact congrArg (fun n : Nat => Value.num n) (Mapped.number_widen hlen)
  | string =>
    have hlt := ptrOf_lt bytes
    exact congrArg Value.string (Mapped.number_digits (by omega))
  | number sign arg =>
    -- what is widened are signed numbers with their sign, and the others with zeros
    have hmoved : (Use.number sign arg).push env.build = .long ∧ sign = true ∧ bytes.length = 4 ∨
        (Use.number sign arg).push env.build = .ulong ∧ sign = false ∧ bytes.length = 4 ∨
        ((Use.number sign arg).push env.build).moved env j bytes = bytes := by
      rw [h]
      cases arg <;> cases env.build <;> cases sign <;> simp [Use.push, Push.moved, Use.speSize, Use.arg, Arg.passing]
    obtain ⟨hpush, rfl, hlen⟩ | ⟨hpush, rfl, hlen⟩ | hmoved := hmoved
    · rw [hpush]
      exact congrArg Value.num (Mapped.signed_widen (hlen ▸ hword))
    · rw [hpush]
      exact congrArg (fun n : Nat => Value.num n) (Mapped.number_widen (hlen ▸ hword))
    · rw [hmoved]
      cases sign <;> rfl

/-! ## Lists of arguments -/

section

variable {v : SpeVaList} {ls : Nat → UInt8} {uses : List Use}

/-- What the handler puts on the list for the arguments of the SPE program. -/
def hostArgs (env : PrintfEnv) (ls : Nat → UInt8) (v : SpeVaList) (uses : List Use) : List (List UInt8) :=
  uses.zipIdx.map fun (u, j) => (u.push env.build).moved env j (u.speBytes ls v j)

theorem hostArgs_getElem? : (hostArgs env ls v uses)[j]? =
    uses[j]?.map fun u => (u.push env.build).moved env j (u.speBytes ls v j) := by
  simp [hostArgs, List.getElem?_zipIdx, Function.comp_def]

theorem length_speBytes : (u.speBytes ls v j).length = u.speSize := Mapped.length_bytesAt

/-- Up to the reach of the list, arguments are where the ABI has them. -/
theorem next_abiSlot (haligned : 16 ∣ v.nextArg.toNat ∧ 16 ∣ v.callerStack.toNat)
    (hle : v.nextArg.toNat ≤ v.callerStack.toNat) (hj : j < v.reach) :
    (SpeVaList.advance^[j] v).next = abiSlot v j := by
  unfold SpeVaList.reach at hj
  split at hj
  · omega
  next hd =>
  split at hj
  next hnear =>
    have hfirst : v.first = v.distance := by
      unfold SpeVaList.first
      omega
    by_cases hbefore : j < v.distance
    · rw [next_before haligned hle (by omega), abiSlot_before haligned hle hbefore]
    · rw [next_between haligned hle hd (by omega) (by omega), abiSlot_behind haligned hle (by omega)]
  next hfar =>
    rw [next_before haligned hle hj, abiSlot_before haligned hle (by omega)]

theorem fetched_eq (ls : Nat → UInt8) (haligned : 16 ∣ v.nextArg.toNat ∧ 16 ∣ v.callerStack.toNat)
    (hle : v.nextArg.toNat ≤ v.callerStack.toNat) (hreach : uses.length ≤ v.reach) :
    (fetches v (uses.map (Use.push b))).map (fun r => bytesAt ls r.size r.base) =
      uses.zipIdx.map fun (u, j) => u.speBytes ls v j := by
  apply List.ext_getElem?
  intro j
  rw [List.getElem?_map, fetches_getElem, List.getElem?_map, List.getElem?_map, List.getElem?_zipIdx]
  cases hu : uses[j]? with
  | none => rfl
  | some u =>
    have hj := (List.getElem?_eq_some_iff.mp hu).1
    have hslot := next_abiSlot haligned hle (Nat.lt_of_lt_of_le hj hreach)
    simp [hslot, Use.speBytes, fetchSize_push]

theorem moveAll_eq : moveAll env (uses.map (Use.push env.build)) (uses.zipIdx.map fun (u, j) => u.speBytes ls v j) =
    hostArgs env ls v uses := by
  apply List.ext_getElem?
  intro j
  rw [hostArgs_getElem?, moveAll]
  cases hu : uses[j]? with
  | none => simpa using hu
  | some u => simp [List.getElem?_zipIdx, List.getElem?_zip_eq_some, hu]

/-- The types that are passed have a word or two. -/
theorem hostSize_cases (b : Build) (u : Use) : u.hostSize b = 4 ∨ u.hostSize b = 8 := by
  unfold Use.hostSize
  cases u.arg <;> cases b <;> simp [Arg.passing, Build.wordSize]

theorem vaListPut_fits {size : Nat} (h : size = 4 ∨ size = 8) : b.vaListPut.Fits size := by
  intro off
  cases b <;> obtain rfl | rfl := h <;> simp only [Build.vaListPut] <;> omega

/-- For these the macro writes where the ABI has the host read. -/
theorem vaArg_eq {size : Nat} (h : size = 4 ∨ size = 8) (off : Nat) :
    b.vaArg.place off size = b.vaListPut.place off size ∧ b.vaArg.next off size = b.vaListPut.next off size := by
  cases b <;> obtain rfl | rfl := h <;> simp [Build.vaArg, Build.vaListPut]

/-- **The list of the host**: what was put on it is read. -/
theorem get_hostArgs (env : PrintfEnv) (ls : Nat → UInt8) (v : SpeVaList) (uses : List Use) :
    env.build.vaArg.get (env.build.vaListPut.put env.stack 0 (hostArgs env ls v uses)) 0
      (uses.map (Use.hostSize env.build)) = hostArgs env ls v uses := by
  have hlen (u : Use) (j : Nat) :
      ((u.push env.build).moved env j (u.speBytes ls v j)).length = u.hostSize env.build := by
    rw [length_moved (length_speBytes.trans fetchSize_push.symm), putSize_push]
  have hsizes : uses.map (Use.hostSize env.build) = (hostArgs env ls v uses).map List.length := by
    apply List.ext_getElem?
    intro j
    rw [List.getElem?_map, List.getElem?_map, hostArgs_getElem?]
    cases uses[j]? <;> simp [hlen]
  have hfits : ∀ bytes ∈ hostArgs env ls v uses, env.build.vaListPut.Fits bytes.length := by
    intro bytes hmem
    obtain ⟨⟨u, j⟩, -, rfl⟩ := List.mem_map.mp hmem
    rw [hlen]
    exact vaListPut_fits (hostSize_cases _ u)
  rw [Layout.get_congr, hsizes, Layout.get_put hfits]
  intro n hn off
  obtain ⟨u, -, rfl⟩ := List.mem_map.mp hn
  exact vaArg_eq (hostSize_cases _ u) off

/-- The values on it are those of the SPE program. -/
theorem values_eq (hbase : env.base + lsSize ≤ 256 ^ env.build.wordSize) :
    (uses.zipIdx.map fun (u, j) => u.ofHost ((hostArgs env ls v uses).getD j [])) =
      uses.zipIdx.map fun (u, j) => u.ofSpe env.base (u.speBytes ls v j) := by
  apply List.map_congr_left
  intro ⟨u, j⟩ hmem
  have hu := List.mem_zipIdx_iff_getElem?.mp hmem
  have hget : (hostArgs env ls v uses).getD j [] = (u.push env.build).moved env j (u.speBytes ls v j) := by
    rw [List.getD_eq_getElem?_getD, hostArgs_getElem?, hu]
    rfl
  show u.ofHost ((hostArgs env ls v uses).getD j []) = u.ofSpe env.base (u.speBytes ls v j)
  rw [hget]
  exact value_moved hbase length_speBytes

/-! ## Counters -/

variable {p : Printed} {length : Length}

theorem mem_counts {α : Type} (uses : List Use) (F : Use → Nat → Length → Nat → α) {x : α} :
    (x ∈ uses.zipIdx.filterMap fun (u, j) => (u.counted p j).map fun (length, n) => F u j length n) ↔
      ∃ j length, uses[j]? = some (.count length) ∧ j < p.reached ∧ F (.count length) j length (p.count j) = x := by
  rw [List.mem_filterMap]
  constructor
  · intro ⟨⟨u, j⟩, hmem, hx⟩
    obtain ⟨⟨length, n⟩, hcounted, rfl⟩ := Option.map_eq_some_iff.mp hx
    cases u with
    | count length' =>
      obtain ⟨hreached, heq⟩ := Option.ite_none_right_eq_some.mp hcounted
      obtain ⟨rfl, rfl⟩ := Prod.mk.inj (Option.some.inj heq)
      exact ⟨j, length', List.mem_zipIdx_iff_getElem?.mp hmem, hreached, rfl⟩
    | _ => cases hcounted
  · intro ⟨j, length, hu, hreached, hx⟩
    refine ⟨(.count length, j), List.mem_zipIdx_iff_getElem?.mpr hu, ?_⟩
    simp [Use.counted, hreached, hx]

theorem push_temp : u.push b = .temp ↔ ∃ length, u = .count length ∧ b.isTemp length := by
  cases u with
  | number sign arg => cases arg <;> cases b <;> cases sign <;> simp [Use.push]
  | count length => simp [Use.push, Build.isTemp]
  | _ => simp [Use.push]

/-- The pointer that the host has for a counter. -/
def counterAddr (env : PrintfEnv) (ls : Nat → UInt8) (v : SpeVaList) (j : Nat) (length : Length) : Nat :=
  if env.build.isTemp length then env.temp j else env.base + ptrOf ((Use.count length).speBytes ls v j)

theorem number_counter (hvalid : env.Valid uses.length) (hu : uses[j]? = some (.count length)) :
    number ((hostArgs env ls v uses).getD j []) = counterAddr env ls v j length := by
  rw [List.getD_eq_getElem?_getD, hostArgs_getElem?, hu]
  by_cases htemp : env.build.isTemp length
  · have hpush : (Use.count length).push env.build = .temp := if_pos htemp
    simp only [Option.map_some, Option.getD_some, hpush, counterAddr, if_pos htemp]
    exact Mapped.number_digits (hvalid.space j (List.getElem?_eq_some_iff.mp hu).1)
  · have hpush : (Use.count length).push env.build = .ptr := if_neg htemp
    have hlt := ptrOf_lt ((Use.count length).speBytes ls v j)
    have hbase := hvalid.base
    simp only [Option.map_some, Option.getD_some, hpush, counterAddr, if_neg htemp]
    exact Mapped.number_digits (by omega)

/-- A counter that is no temporary is as large at the SPE. -/
theorem countSize_direct (h : ¬b.isTemp length) : length.countSize b.wordSize = length.countSize 4 := by
  cases b <;> cases length <;> first
    | rfl
    | exact absurd ⟨rfl, rfl⟩ h

theorem countSize_temp (h : b.isTemp length) : length.countSize b.wordSize = 8 ∧ length.countSize 4 = 4 := by
  obtain ⟨rfl, hlong⟩ := h
  cases length <;> first
    | exact ⟨rfl, rfl⟩
    | cases hlong

/-- What the host's function stores. -/
def hostCounts (env : PrintfEnv) (ls : Nat → UInt8) (v : SpeVaList) (uses : List Use) (p : Printed) :
    List (Nat × List UInt8) :=
  uses.zipIdx.filterMap fun (u, j) => (u.counted p j).map fun (length, n) =>
    (number ((hostArgs env ls v uses).getD j []), digits (length.countSize env.build.wordSize) n)

theorem mem_hostCounts (hvalid : env.Valid uses.length) {x : Nat × List UInt8} : x ∈ hostCounts env ls v uses p ↔
    ∃ j length, uses[j]? = some (.count length) ∧ j < p.reached ∧
      (counterAddr env ls v j length, digits (length.countSize env.build.wordSize) (p.count j)) = x := by
  refine (mem_counts uses fun _ j length n =>
    (number ((hostArgs env ls v uses).getD j []), digits (length.countSize env.build.wordSize) n)).trans ?_
  constructor
  · intro ⟨j, length, hu, hreached, hx⟩
    exact ⟨j, length, hu, hreached, by rw [← hx, number_counter hvalid hu]⟩
  · intro ⟨j, length, hu, hreached, hx⟩
    exact ⟨j, length, hu, hreached, by rw [← hx, number_counter hvalid hu]⟩

theorem counterAddr_inside (ls : Nat → UInt8) (v : SpeVaList) (hvalid : env.Valid uses.length)
    (hj : j < uses.length) : (env.base ≤ counterAddr env ls v j length ∧
      counterAddr env ls v j length < env.base + lsSize) ↔ ¬env.build.isTemp length := by
  by_cases htemp : env.build.isTemp length
  · simpa [counterAddr, if_pos htemp, htemp] using hvalid.outside j hj
  · have hlt := ptrOf_lt ((Use.count length).speBytes ls v j)
    rw [counterAddr, if_neg htemp]
    exact iff_of_true ⟨Nat.le_add_right .., by omega⟩ htemp

/-- The stores to local store are those for the counters that are no temporaries. -/
theorem mem_lsStores (hvalid : env.Valid uses.length) {s : Store} : s ∈ env.lsStores (hostCounts env ls v uses p) ↔
    ∃ j length, uses[j]? = some (.count length) ∧ j < p.reached ∧ ¬env.build.isTemp length ∧
      ⟨ptrOf ((Use.count length).speBytes ls v j), digits (length.countSize 4) (p.count j)⟩ = s := by
  rw [PrintfEnv.lsStores, List.mem_filterMap]
  constructor
  · intro ⟨x, hx, hs⟩
    obtain ⟨j, length, hu, hreached, rfl⟩ := (mem_hostCounts hvalid).mp hx
    obtain ⟨hinside, hs⟩ := Option.ite_none_right_eq_some.mp hs
    have hdirect := (counterAddr_inside ls v hvalid (List.getElem?_eq_some_iff.mp hu).1).mp hinside
    refine ⟨j, length, hu, hreached, hdirect, ?_⟩
    rw [← Option.some.inj hs, countSize_direct hdirect, counterAddr, if_neg hdirect, Nat.add_sub_cancel_left]
  · intro ⟨j, length, hu, hreached, hdirect, hs⟩
    refine ⟨_, (mem_hostCounts hvalid).mpr ⟨j, length, hu, hreached, rfl⟩, ?_⟩
    have hinside := (counterAddr_inside ls v hvalid (List.getElem?_eq_some_iff.mp hu).1).mpr hdirect
    rw [counterAddr, if_neg hdirect] at hinside ⊢
    simp only [if_pos hinside, ← hs, countSize_direct hdirect, Nat.add_sub_cancel_left]

/-- The temporary of a counter that the host has come to. -/
theorem llvalAfter_eq (hvalid : env.Valid uses.length) (hu : uses[j]? = some (.count length))
    (htemp : env.build.isTemp length) (hreached : j < p.reached) :
    env.llvalAfter (hostCounts env ls v uses p) j = digits 8 (p.count j) := by
  have hmem : (env.temp j, digits 8 (p.count j)) ∈ hostCounts env ls v uses p := by
    apply (mem_hostCounts hvalid).mpr
    exact ⟨j, length, hu, hreached, by rw [counterAddr, if_pos htemp, (countSize_temp htemp).1]⟩
  unfold PrintfEnv.llvalAfter
  cases hfind : (hostCounts env ls v uses p).find? fun s => s.1 = env.temp j with
  | none => exact absurd (List.find?_eq_none.mp hfind _ hmem) (by simp)
  | some x =>
    -- the address is that of no other counter
    have haddr : x.1 = env.temp j := by simpa using List.find?_some hfind
    obtain ⟨i, length', hu', hreached', rfl⟩ := (mem_hostCounts hvalid).mp (List.mem_of_find?_eq_some hfind)
    have hi := (List.getElem?_eq_some_iff.mp hu').1
    have hj := (List.getElem?_eq_some_iff.mp hu).1
    have htemp' : env.build.isTemp length' := by
      by_contra hdirect
      have hinside := (counterAddr_inside ls v hvalid hi).mpr hdirect
      exact hvalid.outside j hj (haddr ▸ hinside)
    have hij : i = j := hvalid.distinct i hi j hj (by simpa [counterAddr, if_pos htemp'] using haddr)
    simp [hij, (countSize_temp htemp').1]

/-- The temporaries are copied to the counters that have them. -/
theorem mem_copies (hvalid : env.Valid uses.length) (htemps : ∀ j length, uses[j]? = some (.count length) →
    env.build.isTemp length → j < p.reached) {s : Store} :
    s ∈ copyVaTemp ((uses.map (Use.push env.build)).zip
        ((uses.zipIdx.map fun (u, j) => u.speBytes ls v j).map ptrOf))
        (env.llvalAfter (hostCounts env ls v uses p)) ↔
      ∃ j length, uses[j]? = some (.count length) ∧ j < p.reached ∧ env.build.isTemp length ∧
        ⟨ptrOf ((Use.count length).speBytes ls v j), digits (length.countSize 4) (p.count j)⟩ = s := by
  have harg (i : Nat) (off : Nat) : ((uses.map (Use.push env.build)).zip
      ((uses.zipIdx.map fun (u, j) => u.speBytes ls v j).map ptrOf))[i]? = some (.temp, off) ↔
        ∃ length, uses[i]? = some (.count length) ∧ env.build.isTemp length ∧
          ptrOf ((Use.count length).speBytes ls v i) = off := by
    rw [List.getElem?_zip_eq_some, List.map_map, List.getElem?_map, List.getElem?_map, List.getElem?_zipIdx]
    cases uses[i]? with
    | none => simp
    | some u =>
      simp only [Option.map_some, Option.some.injEq, push_temp, Function.comp_apply, Nat.zero_add]
      constructor
      · intro ⟨⟨length, hu, htemp⟩, hoff⟩
        subst hu
        exact ⟨length, rfl, htemp, hoff⟩
      · intro ⟨length, hu, htemp, hoff⟩
        subst hu
        exact ⟨⟨length, rfl, htemp⟩, hoff⟩
  rw [mem_copyVaTemp]
  constructor
  · intro ⟨j, hj, hbytes⟩
    obtain ⟨length, hu, htemp, hoff⟩ := (harg j s.off).mp hj
    have hreached := htemps j length hu htemp
    refine ⟨j, length, hu, hreached, htemp, ?_⟩
    rw [llvalAfter_eq hvalid hu htemp hreached, Mapped.drop_digits 4 4] at hbytes
    rw [hoff, (countSize_temp htemp).2, ← hbytes]
  · intro ⟨j, length, hu, hreached, htemp, hs⟩
    subst hs
    refine ⟨j, (harg j _).mpr ⟨length, hu, htemp, rfl⟩, ?_⟩
    rw [llvalAfter_eq hvalid hu htemp hreached, Mapped.drop_digits 4 4, (countSize_temp htemp).2]

/-- Together they are what C99 has `%n` store. -/
theorem mem_speCounts (ls : Nat → UInt8) (v : SpeVaList) (hvalid : env.Valid uses.length)
    (htemps : ∀ j length, uses[j]? = some (.count length) → env.build.isTemp length → j < p.reached) {s : Store} :
    s ∈ env.lsStores (hostCounts env ls v uses p) ++ copyVaTemp ((uses.map (Use.push env.build)).zip
        ((uses.zipIdx.map fun (u, j) => u.speBytes ls v j).map ptrOf))
        (env.llvalAfter (hostCounts env ls v uses p)) ↔ s ∈ speCounts ls v uses p := by
  have hspe := mem_counts uses (p := p) (x := s) fun u j length n =>
    (⟨ptrOf (u.speBytes ls v j), digits (length.countSize 4) n⟩ : Store)
  rw [List.mem_append, mem_lsStores hvalid, mem_copies hvalid htemps]
  refine Iff.trans ?_ hspe.symm
  constructor
  · rintro (⟨j, length, hu, hreached, -, hs⟩ | ⟨j, length, hu, hreached, -, hs⟩)
    · exact ⟨j, length, hu, hreached, hs⟩
    · exact ⟨j, length, hu, hreached, hs⟩
  · intro ⟨j, length, hu, hreached, hs⟩
    by_cases htemp : env.build.isTemp length
    · exact .inr ⟨j, length, hu, hreached, htemp, hs⟩
    · exact .inl ⟨j, length, hu, hreached, htemp, hs⟩

/-! ## Calls -/

variable {call : PrintfCall} {opdata : UInt32} {f : List (Item PrintfDirective)}

/-- What a handler does for a format that the parser knows. -/
theorem serve_run (env : PrintfEnv) (h : Passes call ls opdata f) (host : (Nat → UInt8) → HostPrintf) :
    let v := call.vaList ls opdata
    let r := host (env.build.vaListPut.put env.stack 0 (hostArgs env ls v (usesOf f)))
    call.serve env ls opdata host = some ⟨call.stream ls opdata, r.text, call.stored ls opdata r.text ++
      env.lsStores r.stores ++ copyVaTemp (((usesOf f).map (Use.push env.build)).zip
        (((usesOf f).zipIdx.map fun (u, j) => u.speBytes ls v j).map ptrOf)) (env.llvalAfter r.stores) ++
      [putLsRc (lsArgsOf opdata) r.rc 0 0 r.errno]⟩ := by
  intro v r
  obtain ⟨behind, htext⟩ := h.text
  obtain ⟨nr, hnr, hparse⟩ := parse_items (printfDirective_follows (b := env.build)) f behind
  have hreach : (usesOf f).length ≤ v.reach := by
    have hlen := congrArg List.length (printfArgs_eq h.known)
    rw [List.length_map] at hlen
    exact hlen ▸ h.reach
  have hfetched := fetched_eq (b := env.build) ls h.aligned h.le hreach
  have hmove : moveAll env ((usesOf f).map (Use.push env.build))
      ((fetches v ((usesOf f).map (Use.push env.build))).map fun r => bytesAt ls r.size r.base) =
        hostArgs env ls v (usesOf f) := by
    rw [hfetched]
    exact moveAll_eq
  rw [printfPushes_eq h.known] at hparse
  rw [call.serve_eq]
  show (nrFormatArgs (call.text ls opdata)).bind _ = _
  rw [htext, show nrFormatArgs (cString (formatText f) behind) = some nr from hnr]
  show (parseFormat (printfDirective env.build) nr (call.text ls opdata)).bind _ = _
  rw [htext, show parseFormat _ nr (cString (formatText f) behind) = _ from hparse]
  show some _ = some _
  rw [hmove, hfetched]

/-- The host prints what is right for the arguments of the SPE program. -/
theorem hostPrintf_eq (hvalid : env.Valid (usesOf f).length) (print : List UInt8 → List Value → Printed) :
    hostPrintf env print f (env.build.vaListPut.put env.stack 0 (hostArgs env ls v (usesOf f))) =
      let p := spePrinted env print ls v f
      ⟨p.rc, p.errno, p.text, hostCounts env ls v (usesOf f) p⟩ := by
  simp only [hostPrintf, get_hostArgs, values_eq hvalid.base]
  rfl

/-- **`printf` through the library.** Whatever the host prints for values: for a format of C99 without `L` and
arguments that are found, each of the four calls prints and stores what C99 says for the values that the SPE program
has passed, if the host comes to every counter that goes through a temporary. -/
theorem prints_right (call : PrintfCall) (env : PrintfEnv) (print : List UInt8 → List Value → Printed)
    (ls : Nat → UInt8) (opdata : UInt32) (f : List (Item PrintfDirective)) (h : Passes call ls opdata f)
    (hvalid : env.Valid (usesOf f).length)
    (htemps : ∀ j length, (usesOf f)[j]? = some (.count length) → env.build.isTemp length →
      j < (spePrinted env print ls (call.vaList ls opdata) f).reached) :
    PrintsRight call env print ls opdata f := by
  unfold PrintsRight
  intro v p
  have hrun := serve_run env h (hostPrintf env print f)
  simp only [hostPrintf_eq hvalid print] at hrun
  refine ⟨_, hrun, rfl, rfl, .of_mem_iff fun s => ?_⟩
  have hcounts := mem_speCounts (s := s) ls v hvalid htemps
  rw [List.append_assoc (call.stored _ _ _), List.mem_append, List.mem_append, List.mem_singleton, or_comm]
  exact or_congr_right ((or_congr_right hcounts).trans List.mem_append.symm)

end

end

/-- A call of `vprintf` with the format `%ld%ln`, the number -5 and a counter at 0x300. -/
def vprintfAtEnd : Nat → UInt8 :=
  storeAll (fun _ => 0) [⟨0, digits 4 0x3fff8⟩, ⟨16, digits 4 0x100⟩, ⟨32, digits 4 0x200⟩,
    ⟨0x100, digits 4 0xfffffffb⟩, ⟨0x110, digits 4 0x300⟩, ⟨0x3fff8, bytes "%ld%ln"⟩]

theorem no_flags : ∀ c ∈ ([] : List UInt8), c = ch '-' ∨ c = ch '+' ∨ c = ch ' ' ∨ c = ch '#' ∨ c = ch '0' := nofun

def longAndCount : List (Item PrintfDirective) :=
  [.directive ⟨[], .number ⟨[], digits_nil⟩, none, .l, .d, no_flags, rfl⟩,
    .directive ⟨[], .number ⟨[], digits_nil⟩, none, .l, .n, no_flags, rfl⟩]

def ppc64Env : PrintfEnv :=
  ⟨.ppc64, 0x10000000, fun j => 0x20000000 + 16 * j, fun _ => 0xff, fun _ => List.replicate 8 0xff, 0⟩

/-- A host that prints the one number -5. -/
def printMinusFive (_ : List UInt8) (values : List Value) : Printed :=
  ⟨2, 0, if values.head? = some (.num (-5)) then bytes "-5" else [], values.length, fun _ => 2⟩

theorem prints_right_long : (spePrinted ppc64Env printMinusFive vprintfAtEnd (PrintfCall.vprintf.vaList vprintfAtEnd 0)
      longAndCount).text = bytes "-5" ∧
    PrintsRight .vprintf ppc64Env printMinusFive vprintfAtEnd 0 longAndCount := by
  refine ⟨by decide, prints_right .vprintf ppc64Env printMinusFive vprintfAtEnd 0 longAndCount ?_ ?_ ?_⟩
  · refine ⟨?_, ⟨[0], by decide⟩, by decide, by decide, by decide⟩
    intro d hd
    simp only [longAndCount, List.mem_cons, Item.directive.injEq, List.not_mem_nil, or_false] at hd
    obtain rfl | rfl := hd <;> decide
  · exact ⟨by decide, by decide, by decide, by decide⟩
  · intro j length hu _
    have hj := (List.getElem?_eq_some_iff.mp hu).1
    exact hj

end LibSpe2.Format
