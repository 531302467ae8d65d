import Mathlib.Data.List.Basic
import Mathlib.Data.List.Count

/-!
# The format parsers of the C99 handler (`spebase/default_c99_handler.c`)

A `printf` or `scanf` of an SPE program is served by the host's `v*printf` or `v*scanf`. Its arguments
are in the SPE's memory, so the handler goes through the format and moves each argument that a
directive consumes from the SPE's `va_list` to one of its own.

* A pointer into local store is the list of the bytes from there on. Examining a byte past the end of
  the list is `none`, so a parser that returns on a list has looked at bytes of the list only.
* `Push` — one argument: what is fetched (`GET_LS_VARG`) and what is put on the list for the host
  (`__VA_LIST_PUT`).
* `parsePrintfFormat`, `parseScanfFormat` — the parsers, which share their loop (`parseFormat`).
-/

namespace LibSpe2.Format

/-! ## Bytes -/

/-- A pointer: the bytes from it on. -/
abbrev Ptr := List UInt8

/-- A character of the format. -/
def ch (c : Char) : UInt8 := c.toNat.toUInt8

def isdigit (c : UInt8) : Bool := ch '0' ≤ c && c ≤ ch '9'

/-- `*p`. -/
def deref (p : Ptr) : Option UInt8 := p.head?

/-- `strchr(p, c)`, for `c` not `NUL`: `some none` is `NULL`. -/
def strchr (c : UInt8) : Ptr → Option (Option Ptr)
  | [] => none
  | b :: p => if b = c then some (some (b :: p)) else if b = 0 then some none else strchr c p

/-- `while (P(*p)) p++`. -/
def skipWhile (P : UInt8 → Bool) : Ptr → Option Ptr
  | [] => none
  | b :: p => if P b then skipWhile P p else some (b :: p)

/-! ## Arguments -/

/-- The two builds of the library. -/
inductive Build where
  | ppc32 | ppc64
  deriving DecidableEq

/-- An argument that is moved, by the type it is put on the list with. `temp` is a pointer to the
`llval` of a temporary. -/
inductive Push where
  | int | long | ulong | longLong | double | ptr | temp
  deriving DecidableEq

/-- The size of a `long` or a pointer. -/
def Build.wordSize : Build → Nat
  | .ppc32 => 4
  | .ppc64 => 8

/-- The size of the variable that `GET_LS_VARG` fills. -/
def Push.fetchSize : Push → Nat
  | .longLong | .double => 8
  | _ => 4

/-- The size of the type given to `__VA_LIST_PUT`. -/
def Push.putSize (b : Build) : Push → Nat
  | .int => 4
  | .long | .ulong | .ptr | .temp => b.wordSize
  | .longLong | .double => 8

/-- How `__VA_LIST_PUT` moves `vlist`, in bytes from its start. -/
def Push.advance (b : Build) (vlist : Nat) (x : Push) : Nat :=
  match b with
  | .ppc64 => vlist + 8
  | .ppc32 => (vlist + x.putSize b - 1) / x.putSize b * x.putSize b + x.putSize b

/-! ## The macros -/

/-- `SKIP_FIELD_WIDTH`. -/
def skipFieldWidth (output : Bool) (p : Ptr) : Option (Ptr × List Push) := do
  let c ← deref p
  if isdigit c then
    let p ← skipWhile isdigit p
    return (p, [])
  else if c = ch '*' then return (p.tail, if output then [.int] else [])
  else return (p, [])

/-- `SKIP_PRECISION`. -/
def skipPrecision (p : Ptr) : Option (Ptr × List Push) := do
  let c ← deref p
  if c = ch '.' then
    let p := p.tail
    let c ← deref p
    if isdigit c then
      let p ← skipWhile isdigit p
      return (p, [])
    else if c = ch '*' then return (p.tail, [.int])
    else return (p, [])
  else return (p, [])

def isPrintfFlag (c : UInt8) : Bool :=
  c = ch '#' || c = ch '0' || c = ch '-' || c = ch '+' || c = ch ' '

/-- `SKIP_PRINTF_FLAG_CHARS`. -/
def skipPrintfFlagChars (p : Ptr) : Option Ptr := skipWhile isPrintfFlag p

/-- `SKIP_SCANF_FLAG_CHARS`, with `sp`. -/
def skipScanfFlagChars (sp : Bool) : Ptr → Option (Ptr × Bool)
  | [] => none
  | c :: p => if c = ch '*' then skipScanfFlagChars true p else some (c :: p, sp)

/-- `SKIP_LENGTH_MODIFIERS`, with `h` and `l`. -/
def skipLengthModifiers (h l : Nat) : Ptr → Option (Ptr × Nat × Nat)
  | [] => none
  | c :: p =>
    if c = ch 'h' then skipLengthModifiers (h + 1) l p
    else if c = ch 'l' then skipLengthModifiers h (l + 1) p
    else if c = ch 'j' then skipLengthModifiers h 2 p
    else if c = ch 'z' ∨ c = ch 't' then skipLengthModifiers h 1 p
    else some (c :: p, h, l)

/-- `SKIP_CHAR_SET`: `some none` is its error. -/
def skipCharSet (p : Ptr) : Option (Option Ptr) := do
  let p := p.tail
  let p := if (← deref p) = ch '^' then p.tail else p
  let p := if (← deref p) = ch ']' then p.tail else p
  strchr (ch ']') p

/-! ## Directives -/

/-- The conversions of integers. -/
def isIntConv (c : UInt8) : Bool :=
  c = ch 'd' || c = ch 'i' || c = ch 'o' || c = ch 'u' || c = ch 'x' || c = ch 'X'

/-- The conversions of floating-point numbers. -/
def isFloatConv (c : UInt8) : Bool :=
  c = ch 'a' || c = ch 'A' || c = ch 'e' || c = ch 'E' || c = ch 'f' || c = ch 'F' || c = ch 'g' ||
    c = ch 'G'

/-- The `switch` of `__parse_printf_format`. -/
def printfConversion (b : Build) (c : UInt8) (formatLong : Nat) : List Push :=
  if isIntConv c then
    if formatLong = 2 then [.longLong]
    else if b = .ppc64 ∧ formatLong ≠ 0 then
      if c = ch 'd' ∨ c = ch 'i' then [.long] else [.ulong]
    else [.int]
  else if c = ch 'c' then [.int]
  else if isFloatConv c then [.double]
  else if c = ch 'p' then [.ulong]
  else if c = ch 's' then [.ptr]
  else if c = ch 'n' then if b = .ppc64 ∧ formatLong = 1 then [.temp] else [.ptr]
  else []

/-- One directive of `__parse_printf_format`, from behind its `%` to its conversion. -/
def printfDirective (b : Build) (p : Ptr) : Option (Option (Ptr × List Push)) := do
  let p ← skipPrintfFlagChars p
  let (p, fw) ← skipFieldWidth true p
  let (p, pr) ← skipPrecision p
  let (p, _, formatLong) ← skipLengthModifiers 0 0 p
  let c ← deref p
  return some (p, fw ++ pr ++ printfConversion b c formatLong)

/-- The `switch` of `__parse_scanf_format`, but for scan sets. -/
def scanfConversion (b : Build) (c : UInt8) (formatLong : Nat) (suppress : Bool) : List Push :=
  if isIntConv c ∨ c = ch 'n' then
    if suppress then [] else if b = .ppc64 ∧ formatLong = 1 then [.temp] else [.ptr]
  else if isFloatConv c ∨ c = ch 'c' ∨ c = ch 's' then if suppress then [] else [.ptr]
  else if c = ch 'p' then if suppress then [] else if b = .ppc64 then [.temp] else [.ptr]
  else []

/-- One directive of `__parse_scanf_format`; `some none` is the error of a scan set. -/
def scanfDirective (b : Build) (p : Ptr) : Option (Option (Ptr × List Push)) := do
  let (p, suppress) ← skipScanfFlagChars false p
  let (p, _) ← skipFieldWidth false p
  let (p, _, formatLong) ← skipLengthModifiers 0 0 p
  let c ← deref p
  if c = ch '[' then
    match ← skipCharSet p with
    | none => return none
    | some p => return some (p, if suppress then [] else [.ptr])
  else return some (p, scanfConversion b c formatLong suppress)

/-! ## Formats -/

/-- `__nr_format_args`. -/
def nrFormatArgs (format : Ptr) : Option Nat := do return (← go format) * 3
where
  /-- The scan: `strchr` for the next `%`, and one step on. -/
  go : Ptr → Option Nat
    | [] => none
    | c :: p => if c = 0 then some 0 else if c = ch '%' then (go p).map (· + 1) else go p

/-- The loop of the parsers: the result, and what has been pushed. -/
def parseFormat (directive : Ptr → Option (Option (Ptr × List Push))) :
    Nat → Ptr → Option (Int × List Push)
  | 0, _ => some (0, [])
  | nrVargs + 1, p => do
    if (← deref p) = 0 then return (0, [])
    match ← strchr (ch '%') p with
    | none => return (0, [])
    | some p =>
      match ← directive p.tail with
      | none => return (1, [])
      | some (p, out) =>
        let (rc, rest) ← parseFormat directive nrVargs p.tail
        return (rc, out ++ rest)

/-- `__parse_printf_format`. -/
def parsePrintfFormat (b : Build) := parseFormat (printfDirective b)

/-- `__parse_scanf_format`. -/
def parseScanfFormat (b : Build) := parseFormat (scanfDirective b)

/-- A `NUL`-terminated string, and what is behind it. -/
def cString (s : List UInt8) (behind : List UInt8) : Ptr := s ++ 0 :: behind

end LibSpe2.Format
