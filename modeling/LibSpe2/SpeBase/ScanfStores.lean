import LibSpe2.SpeBase.VaList
import LibSpe2.SpeBase.FormatGrammar
import LibSpe2.Data.Mapped
import Mathlib.Algebra.Group.Int.Defs
import Mathlib.Algebra.Group.Nat.Defs

/-!
# What `scanf` stores (`spebase/default_c99_handler.c`)

The host's `vfscanf` and `vsscanf` are given pointers into local store, but for a variable whose type has 8
bytes at the host and 4 at the SPE: for this one they are given a temporary, and `__copy_va_temp` copies all
the temporaries after the call.

* `Store`, `storeAll` — what is written to local store, as a sequence of stores.
* `HostScanf`, `HostScanf.Allowed` — what the host's call does, and what C99 says about it.
* `scanfStores` — the handlers.
* `OnlyConverted` — nothing is stored but the result and what was converted.

Main result:
* `only_converted_iff` — this is so exactly if every temporary was converted: the others are copied too, and
  they were never written.
-/

namespace LibSpe2.Format

open LibCall (lsPtr loadWord lsArgAddr lsArgsOf argSlot)

/-! ## Stores -/

/-- Bytes that are written to local store, from an offset on. -/
structure Store where
  off : Nat
  bytes : List UInt8
  deriving DecidableEq

/-- The store writes this byte. -/
def Store.Covers (s : Store) (a : Nat) : Prop := s.off ≤ a ∧ a < s.off + s.bytes.length

/-- Local store after a sequence of stores. -/
def storeAll (ls : Nat → UInt8) (stores : List Store) : Nat → UInt8 :=
  stores.foldl (fun ls s => Mapped.put ls s.off s.bytes) ls

section

variable {s : Store} {stores : List Store} {ls : Nat → UInt8} {a : Nat}

theorem put_uncovered (h : ¬s.Covers a) : Mapped.put ls s.off s.bytes a = ls a := by
  unfold Mapped.put
  split
  · next hle =>
    rw [List.getElem?_eq_none]
    · rfl
    · unfold Store.Covers at h
      omega
  · rfl

theorem put_covered (h : s.Covers a) : Mapped.put ls s.off s.bytes a = s.bytes.getD (a - s.off) 0 := by
  unfold Store.Covers at h
  have hlt : a - s.off < s.bytes.length := by omega
  rw [Mapped.put, if_pos h.1, List.getD_eq_getElem?_getD, List.getElem?_eq_getElem hlt]
  rfl

/-- Bytes that nothing is stored to are kept. -/
theorem storeAll_uncovered (h : ∀ s ∈ stores, ¬s.Covers a) : storeAll ls stores a = ls a := by
  induction stores generalizing ls with
  | nil => rfl
  | cons s stores ih =>
    show storeAll (Mapped.put ls s.off s.bytes) stores a = ls a
    rw [ih fun s' hs' => h s' (List.mem_cons_of_mem _ hs')]
    exact put_uncovered (h s List.mem_cons_self)

/-- A byte that no other store writes has what is stored there. -/
theorem storeAll_covered (hs : s ∈ stores) (hcovers : s.Covers a)
    (honly : ∀ s' ∈ stores, s'.Covers a → s' = s) : storeAll ls stores a = s.bytes.getD (a - s.off) 0 := by
  induction stores using List.reverseRecOn with
  | nil => cases hs
  | append_singleton stores t ih =>
    have happend : storeAll ls (stores ++ [t]) a = Mapped.put (storeAll ls stores) t.off t.bytes a := by
      rw [storeAll, List.foldl_append]
      rfl
    rw [happend]
    by_cases ht : t.Covers a
    · obtain rfl := honly t (List.mem_append_right _ List.mem_cons_self) ht
      exact put_covered ht
    · have hmem : s ∈ stores := by
        rcases List.mem_append.mp hs with hmem | hmem
        · exact hmem
        · obtain rfl := List.mem_singleton.mp hmem
          exact absurd hcovers ht
      rw [put_uncovered ht]
      exact ih hmem fun s' hs' => honly s' (List.mem_append_left _ hs')

end

/-! ## The handlers -/

/-- What the host's call does: its result and `errno`, what it stores through the pointers into local store,
and the `llval` of the temporaries after it, by the number of the argument. -/
structure HostScanf where
  rc : UInt32
  errno : UInt32
  stores : List Store
  llval : Nat → List UInt8

/-- `GET_LS_PTR(ls_offset)` for `n` arguments. -/
def lsPointers (ls : Nat → UInt8) (v : SpeVaList) (n : Nat) : List Nat :=
  (fetches v (List.replicate n .ptr)).map fun r => lsPtr (loadWord ls r.base)

/-- `__copy_va_temp`: the low 32 bits of every `llval`. -/
def copyVaTemp (args : List (Push × Nat)) (llval : Nat → List UInt8) : List Store :=
  args.zipIdx.filterMap fun ((x, ptr), j) => if x = .temp then some ⟨ptr, (llval j).drop 4⟩ else none

/-- `PUT_LS_RC` (`handler_utils.h`): the slots of the quadword `ret`. -/
def putLsRc (ret : Nat) (slot₀ slot₁ slot₂ slot₃ : UInt32) : Store :=
  ⟨ret, Mapped.digits 4 slot₀.toNat ++ Mapped.digits 4 slot₁.toNat ++ Mapped.digits 4 slot₂.toNat ++
    Mapped.digits 4 slot₃.toNat⟩

/-- `EOF`. -/
def eof : UInt32 := 0xffffffff

/-- The body that the handlers share, from `__nr_format_args` on. -/
def scanfStores (ls : Nat → UInt8) (format : Nat) (v : SpeVaList) (ret : Nat) (host : HostScanf) :
    Option (List Store) := do
  let text := Mapped.bytesAt ls (lsSize - format) format
  let nrVargs ← nrFormatArgs text
  let (rc, xs) ← parseScanfFormat .ppc64 nrVargs text
  if rc = 0 then
    let args := xs.zip (lsPointers ls v xs.length)
    return host.stores ++ copyVaTemp args host.llval ++ [putLsRc ret host.rc 0 0 host.errno]
  else return [putLsRc ret eof 0 0 host.errno]

/-- `GET_LS_PTR(arg->slot[0])`. -/
def argPointer (ls : Nat → UInt8) (opdata : UInt32) (i : Nat) : Nat := lsPtr (argSlot ls opdata i)

/-- `memcpy(&spe_vlist, arg, sizeof(struct spe_va_list))`. -/
def argVaList (ls : Nat → UInt8) (opdata : UInt32) (i : Nat) : SpeVaList :=
  let base := (lsArgAddr (lsArgsOf opdata) i).base
  ⟨loadWord ls base, loadWord ls (base + 16)⟩

/-- `default_c99_handler_vfscanf`. -/
def defaultC99HandlerVfscanf (ls : Nat → UInt8) (opdata : UInt32) : HostScanf → Option (List Store) :=
  scanfStores ls (argPointer ls opdata 1) (argVaList ls opdata 2) (lsArgsOf opdata)

/-- `default_c99_handler_vscanf`. -/
def defaultC99HandlerVscanf (ls : Nat → UInt8) (opdata : UInt32) : HostScanf → Option (List Store) :=
  scanfStores ls (argPointer ls opdata 0) (argVaList ls opdata 1) (lsArgsOf opdata)

/-- `default_c99_handler_vsscanf`. -/
def defaultC99HandlerVsscanf (ls : Nat → UInt8) (opdata : UInt32) : HostScanf → Option (List Store) :=
  scanfStores ls (argPointer ls opdata 1) (argVaList ls opdata 2) (lsArgsOf opdata)

/-- The three calls. -/
inductive ScanfCall where
  | vfscanf | vscanf | vsscanf

namespace ScanfCall

variable (call : ScanfCall) (ls : Nat → UInt8) (opdata : UInt32)

def stores : HostScanf → Option (List Store) :=
  match call with
  | vfscanf => defaultC99HandlerVfscanf ls opdata
  | vscanf => defaultC99HandlerVscanf ls opdata
  | vsscanf => defaultC99HandlerVsscanf ls opdata

/-- The argument that is the format; the `va_list` is the next one. -/
def formatArg : ScanfCall → Nat
  | vscanf => 0
  | vfscanf | vsscanf => 1

/-- The bytes from the format on. -/
def text : Ptr :=
  let format := argPointer ls opdata call.formatArg
  Mapped.bytesAt ls (lsSize - format) format

/-- Where the variables of `n` arguments are. -/
def pointers (n : Nat) : List Nat := lsPointers ls (argVaList ls opdata (call.formatArg + 1)) n

theorem stores_eq (host : HostScanf) : call.stores ls opdata host =
    scanfStores ls (argPointer ls opdata call.formatArg) (argVaList ls opdata (call.formatArg + 1))
      (lsArgsOf opdata) host := by
  cases call <;> rfl

end ScanfCall

/-! ## The host's call -/

/-- The stores for the arguments that are pointers into local store. -/
def directStores (args : List (Push × Nat)) (values : List (List UInt8)) : List Store :=
  (args.zip values).filterMap fun ((x, ptr), value) => if x = .temp then none else some ⟨ptr, value⟩

/-- What C99 says about the call for a format that takes `n` arguments, if the first of them were given
`values`. The other temporaries are left as they were; with too few arguments, the behaviour is undefined. -/
def HostScanf.Allowed (host : HostScanf) (n : Nat) (args : List (Push × Nat)) (values : List (List UInt8))
    (uninitialised : Nat → List UInt8) : Prop :=
  n ≤ args.length →
    host.stores = directStores args values ∧ ∀ j, host.llval j = values.getD j (uninitialised j)

/-! ## The law -/

/-- The type of the variable has 8 bytes at the host and 4 at the SPE. -/
def ScanConv.isLong : ScanConv → Bool
  | .single conv length _ => conv = .p || ((conv.isInt || conv = .n) && length.formatLong = 1)
  | .set _ _ => false

/-- For each argument of the directive, whether it is such a variable. -/
def ScanfDirective.longs (d : ScanfDirective) : List Bool := if d.suppress then [] else [d.conv.isLong]

/-- What is stored for converted arguments. -/
def conversions (targets : List (Bool × Nat)) (values : List (List UInt8)) : List Store :=
  (targets.zip values).map fun ((long, ptr), value) => ⟨ptr, if long then value.drop 4 else value⟩

/-- Nothing is stored but the result and what was converted. -/
structure OnlyConverted (ls : Nat → UInt8) (result : Store) (converted stores : List Store) : Prop where
  mem_iff : ∀ s, s ∈ stores ↔ s = result ∨ s ∈ converted
  /-- All other bytes are kept. -/
  kept : ∀ a, ¬result.Covers a → (∀ s ∈ converted, ¬s.Covers a) → storeAll ls stores a = ls a
  /-- A variable has what was converted for it, if it is not also something else. -/
  received : ∀ s ∈ converted, ∀ a, s.Covers a → ¬result.Covers a →
    (∀ s' ∈ converted, s'.Covers a → s' = s) → storeAll ls stores a = s.bytes.getD (a - s.off) 0

theorem OnlyConverted.of_mem_iff {ls : Nat → UInt8} {result : Store} {converted stores : List Store}
    (h : ∀ s, s ∈ stores ↔ s = result ∨ s ∈ converted) : OnlyConverted ls result converted stores where
  mem_iff := h
  kept a hresult hconverted := by
    apply storeAll_uncovered
    intro s hs
    rcases (h s).mp hs with rfl | hs
    · exact hresult
    · exact hconverted s hs
  received s hs a hcovers hresult honly := by
    apply storeAll_covered ((h s).mpr (.inr hs)) hcovers
    intro s' hs' hcovers'
    rcases (h s').mp hs' with rfl | hs'
    · exact absurd hcovers' hresult
    · exact honly s' hs' hcovers'

/-! ## Membership -/

section

variable {args : List (Push × Nat)} {values : List (List UInt8)} {llval : Nat → List UInt8} {s : Store}

theorem mem_directStores : s ∈ directStores args values ↔ ∃ (j : Nat) (x : Push) (value : List UInt8),
    args[j]? = some (x, s.off) ∧ values[j]? = some value ∧ x ≠ Push.temp ∧ s.bytes = value := by
  unfold directStores
  rw [List.mem_filterMap]
  constructor
  · intro ⟨⟨⟨x, ptr⟩, value⟩, hmem, hs⟩
    obtain ⟨j, hj⟩ := List.mem_iff_getElem?.mp hmem
    obtain ⟨hargs, hvalues⟩ := List.getElem?_zip_eq_some.mp hj
    obtain ⟨hx, hs⟩ := Option.ite_none_left_eq_some.mp hs
    obtain rfl := Option.some.inj hs
    exact ⟨j, x, value, hargs, hvalues, hx, rfl⟩
  · intro ⟨j, x, value, hargs, hvalues, hx, hs⟩
    subst hs
    refine ⟨((x, s.off), s.bytes), ?_, if_neg hx⟩
    exact List.mem_iff_getElem?.mpr ⟨j, List.getElem?_zip_eq_some.mpr ⟨hargs, hvalues⟩⟩

theorem mem_copyVaTemp : s ∈ copyVaTemp args llval ↔ ∃ j, args[j]? = some (.temp, s.off) ∧
    s.bytes = (llval j).drop 4 := by
  unfold copyVaTemp
  rw [List.mem_filterMap]
  constructor
  · intro ⟨⟨⟨x, ptr⟩, j⟩, hmem, hs⟩
    have hargs := List.mem_zipIdx_iff_getElem?.mp hmem
    obtain ⟨rfl, hs⟩ := Option.ite_none_right_eq_some.mp hs
    obtain rfl := Option.some.inj hs
    exact ⟨j, hargs, rfl⟩
  · intro ⟨j, hargs, hs⟩
    refine ⟨((.temp, s.off), j), List.mem_zipIdx_iff_getElem?.mpr hargs, ?_⟩
    show some (⟨s.off, (llval j).drop 4⟩ : Store) = some s
    rw [← hs]

theorem mem_conversions {targets : List (Bool × Nat)} : s ∈ conversions targets values ↔
    ∃ (j : Nat) (long : Bool) (value : List UInt8), targets[j]? = some (long, s.off) ∧ values[j]? = some value ∧
      s.bytes = if long then value.drop 4 else value := by
  unfold conversions
  rw [List.mem_map]
  constructor
  · intro ⟨⟨⟨long, ptr⟩, value⟩, hmem, hs⟩
    subst hs
    obtain ⟨j, hj⟩ := List.mem_iff_getElem?.mp hmem
    obtain ⟨htargets, hvalues⟩ := List.getElem?_zip_eq_some.mp hj
    exact ⟨j, long, value, htargets, hvalues, rfl⟩
  · intro ⟨j, long, value, htargets, hvalues, hs⟩
    refine ⟨((long, s.off), value), ?_, ?_⟩
    · exact List.mem_iff_getElem?.mpr ⟨j, List.getElem?_zip_eq_some.mpr ⟨htargets, hvalues⟩⟩
    · show (⟨s.off, if long then value.drop 4 else value⟩ : Store) = s
      rw [← hs]

end

/-! ## Formats -/

/-- A directive without `L`: its variables of 8 bytes get temporaries. -/
theorem ScanfDirective.longs_pushes (d : ScanfDirective)
    (hd : d.suppress = true ∨ d.conv.isLongDouble = false) :
    (d.pushes .ppc64).map (fun x => decide (x = .temp)) = d.longs.map id := by
  unfold longs
  cases hs : d.suppress with
  | true =>
    rw [d.pushes_suppress hs]
    rfl
  | false =>
    have hL := hd.resolve_left (by simp [hs])
    cases hconv : d.conv with
    | single conv length allowed =>
      have hL : length ≠ .L := by simpa [hconv, ScanConv.isLongDouble] using hL
      rw [pushes, hconv, hs]
      simp only [hL, if_false]
      cases length <;> cases conv <;> rfl
    | set wide s =>
      rw [pushes, hconv, hs]
      rfl

/-- The directives that the parsers know. -/
def Known (f : List (Item ScanfDirective)) : Prop :=
  ∀ d, .directive d ∈ f → d.suppress = true ∨ d.conv.isLongDouble = false

/-- The arguments of a format. -/
def argsOf (f : List (Item ScanfDirective)) : List Arg := f.flatMap (Item.each ScanfDirective.args)

/-- Whether the variable of each argument has 8 bytes at the host and 4 at the SPE. -/
def longsOf (f : List (Item ScanfDirective)) : List Bool := f.flatMap (Item.each ScanfDirective.longs)

/-- What the parser moves. -/
def pushesOf (f : List (Item ScanfDirective)) : List Push := f.flatMap (Item.each (ScanfDirective.pushes .ppc64))

section

variable {f : List (Item ScanfDirective)}

theorem longsOf_pushes (hf : Known f) : (pushesOf f).map (fun x => decide (x = .temp)) = longsOf f := by
  rw [pushesOf, each_map_eq fun d hd => d.longs_pushes (hf d hd), List.map_id]
  rfl

theorem ScanfDirective.args_length (b : Build) (d : ScanfDirective) :
    (d.pushes b).length ≤ d.args.length := by
  by_cases hd : d.suppress = true ∨ d.conv.isLongDouble = false
  · exact Nat.le_of_eq (by simpa using congrArg List.length (d.passing (b := b) 0 hd))
  · exact Nat.le_of_lt (d.pushes_less hd)

theorem pushesOf_length (hf : Known f) : (pushesOf f).length = (argsOf f).length := by
  have hmap : (pushesOf f).map (Push.passing .ppc64) = (argsOf f).map (Arg.passing .ppc64 0) :=
    each_map_eq fun d hd => d.passing 0 (hf d hd)
  simpa using congrArg List.length hmap

/-- With an `L`, the host has too few arguments. -/
theorem pushesOf_length_lt (hf : ¬Known f) : (pushesOf f).length < (argsOf f).length := by
  simp only [Known, not_forall] at hf
  obtain ⟨d, hmem, hd⟩ := hf
  exact each_length_lt (ScanfDirective.args_length .ppc64) hmem (d.pushes_less hd)

end

/-! ## The law and the handlers -/

/-- What the law asks of a call: whatever the values, for the first `m` arguments, and whatever the
temporaries held before. -/
def ScansFaithfully (call : ScanfCall) (ls : Nat → UInt8) (opdata : UInt32) (f : List (Item ScanfDirective))
    (m : Nat) : Prop :=
  ∀ (values : List (List UInt8)) (uninitialised : Nat → List UInt8) (host : HostScanf),
    values.length = m → (∀ j, (uninitialised j).length = 8) →
    (∀ (j : Nat) (value : List UInt8), values[j]? = some value → (longsOf f)[j]? = some true → value.length = 8) →
    host.Allowed (argsOf f).length ((pushesOf f).zip (call.pointers ls opdata (pushesOf f).length)) values
      uninitialised →
    ∃ stores, call.stores ls opdata host = some stores ∧
      OnlyConverted ls (putLsRc (lsArgsOf opdata) host.rc 0 0 host.errno)
        (conversions ((longsOf f).zip (call.pointers ls opdata (argsOf f).length)) values) stores

section

variable {call : ScanfCall} {ls : Nat → UInt8} {opdata : UInt32} {f : List (Item ScanfDirective)}
  {behind : List UInt8} {m : Nat}

/-- What a handler stores. -/
theorem stores_run (htext : call.text ls opdata = cString (f.flatMap (Item.render ScanfDirective.render)) behind)
    (host : HostScanf) : call.stores ls opdata host = some (host.stores ++
      copyVaTemp ((pushesOf f).zip (call.pointers ls opdata (pushesOf f).length)) host.llval ++
      [putLsRc (lsArgsOf opdata) host.rc 0 0 host.errno]) := by
  obtain ⟨nr, hnr, hparse⟩ := parse_items (scanfDirective_follows (b := .ppc64)) f behind
  rw [← htext] at hnr hparse
  rw [call.stores_eq]
  show (nrFormatArgs (call.text ls opdata)).bind _ = _
  rw [hnr]
  show (parseFormat (scanfDirective .ppc64) nr (call.text ls opdata)).bind _ = _
  rw [hparse]
  rfl

theorem lsPointers_length (ls : Nat → UInt8) (v : SpeVaList) (n : Nat) : (lsPointers ls v n).length = n := by
  have hlen : ∀ (xs : List Push) (v : SpeVaList), (fetches v xs).length = xs.length := fun xs => by
    induction xs with
    | nil => exact fun _ => rfl
    | cons x xs ih => exact fun v => congrArg (· + 1) (ih v.advance)
  rw [lsPointers, List.length_map, hlen, List.length_replicate]

theorem putLsRc_length (ret : Nat) (slot₀ slot₁ slot₂ slot₃ : UInt32) :
    (putLsRc ret slot₀ slot₁ slot₂ slot₃).bytes.length = 16 := by
  simp [putLsRc, Mapped.digits]

/-- A format that the parser knows is served well if each of its temporaries is converted. -/
theorem scansFaithfully
    (htext : call.text ls opdata = cString (f.flatMap (Item.render ScanfDirective.render)) behind)
    (hf : Known f) (hlong : ∀ j, m ≤ j → (longsOf f)[j]? ≠ some true) : ScansFaithfully call ls opdata f m := by
  intro values uninitialised host hm _ _ hallowed
  refine ⟨_, stores_run htext host, .of_mem_iff fun s => ?_⟩
  have hlen := pushesOf_length hf
  generalize hargs : (pushesOf f).zip (call.pointers ls opdata (pushesOf f).length) = args at hallowed ⊢
  have htargets : (longsOf f).zip (call.pointers ls opdata (argsOf f).length) =
      args.map fun (x, ptr) => (decide (x = .temp), ptr) := by
    rw [← longsOf_pushes hf, ← hargs, ← hlen, List.zip_map_left]
    rfl
  have hcount : (argsOf f).length ≤ args.length := by
    rw [← hargs, List.length_zip, ScanfCall.pointers, lsPointers_length, Nat.min_self]
    exact Nat.le_of_eq hlen.symm
  obtain ⟨hstores, hllval⟩ := hallowed hcount
  have htarget (j : Nat) (long : Bool) (ptr : Nat) :
      ((longsOf f).zip (call.pointers ls opdata (argsOf f).length))[j]? = some (long, ptr) ↔
        ∃ x, args[j]? = some (x, ptr) ∧ decide (x = .temp) = long := by
    rw [htargets, List.getElem?_map, Option.map_eq_some_iff]
    constructor
    · intro ⟨⟨x, ptr'⟩, hx, heq⟩
      obtain ⟨hlong, rfl⟩ := Prod.mk.inj heq
      exact ⟨x, hx, hlong⟩
    · intro ⟨x, hx, hlong⟩
      exact ⟨(x, ptr), hx, by rw [← hlong]⟩
  rw [List.mem_append, List.mem_append, List.mem_singleton, hstores, mem_directStores, mem_copyVaTemp,
    mem_conversions, or_comm]
  apply or_congr_right
  constructor
  · rintro (⟨j, x, value, hx, hvalue, hdirect, hs⟩ | ⟨j, hx, hs⟩)
    · refine ⟨j, false, value, (htarget j _ _).mpr ⟨x, hx, ?_⟩, hvalue, hs⟩
      exact decide_eq_false hdirect
    · -- a temporary that was not converted would be copied as well
      have htrue := (htarget j true _).mpr ⟨.temp, hx, rfl⟩
      have hj : j < values.length := by
        rw [hm]
        apply Nat.lt_of_not_le
        intro hle
        exact hlong j hle (List.getElem?_zip_eq_some.mp htrue).1
      refine ⟨j, true, values[j], htrue, List.getElem?_eq_getElem hj, ?_⟩
      rw [hs, hllval, List.getD_eq_getElem?_getD, List.getElem?_eq_getElem hj]
      rfl
  · intro ⟨j, long, value, hj, hvalue, hs⟩
    obtain ⟨x, hx, hlong⟩ := (htarget j long _).mp hj
    cases long with
    | false => exact .inl ⟨j, x, value, hx, hvalue, of_decide_eq_false hlong, hs⟩
    | true =>
      obtain rfl := of_decide_eq_true hlong
      refine .inr ⟨j, hx, ?_⟩
      rw [hs, hllval, List.getD_eq_getElem?_getD, hvalue]
      rfl

/-- If every value is zero, so is everything that is stored for one. -/
theorem conversions_zero {targets : List (Bool × Nat)} {s : Store}
    (hs : s ∈ conversions targets (List.replicate m (List.replicate 8 0))) : ∀ x ∈ s.bytes, x = 0 := by
  obtain ⟨j, long, value, -, hvalue, hbytes⟩ := mem_conversions.mp hs
  obtain rfl := List.eq_of_mem_replicate (List.mem_of_getElem? hvalue)
  intro x hx
  rw [hbytes] at hx
  cases long with
  | false => exact List.eq_of_mem_replicate hx
  | true => exact List.eq_of_mem_replicate (List.mem_of_mem_drop hx)

/-- A store that the law does not allow when every value is zero. -/
theorem not_onlyConverted {ret : Nat} {rc errno : UInt32} {targets : List (Bool × Nat)} {s : Store}
    {stores : List Store} (hs : s ∈ stores) (hone : 1 ∈ s.bytes) (hlen : s.bytes.length < 16) :
    ¬OnlyConverted ls (putLsRc ret rc 0 0 errno)
      (conversions targets (List.replicate m (List.replicate 8 0))) stores := by
  intro hlaw
  rcases (hlaw.mem_iff s).mp hs with rfl | hconverted
  · rw [putLsRc_length] at hlen
    exact absurd hlen (Nat.lt_irrefl 16)
  · exact absurd (conversions_zero hconverted 1 hone) (by decide)

/-- What an `L` leads to is undefined. -/
theorem known_of_scansFaithfully
    (htext : call.text ls opdata = cString (f.flatMap (Item.render ScanfDirective.render)) behind)
    (h : ScansFaithfully call ls opdata f m) : Known f := by
  by_contra hf
  obtain ⟨stores, hrun, hlaw⟩ := h (List.replicate m (List.replicate 8 0)) (fun _ => List.replicate 8 0)
    ⟨0, 0, [⟨0, [1]⟩], fun _ => []⟩ List.length_replicate (fun _ => List.length_replicate)
    (fun j value hvalue _ => by rw [List.eq_of_mem_replicate (List.mem_of_getElem? hvalue)]; rfl)
    (fun hcount => by
      rw [List.length_zip, ScanfCall.pointers, lsPointers_length, Nat.min_self] at hcount
      exact absurd hcount (Nat.not_le_of_lt (pushesOf_length_lt hf)))
  rw [stores_run htext] at hrun
  obtain rfl := Option.some.inj hrun
  exact not_onlyConverted List.mem_cons_self List.mem_cons_self (by decide) hlaw

/-- A temporary that was not converted is copied. -/
theorem uninitialised_copied
    (htext : call.text ls opdata = cString (f.flatMap (Item.render ScanfDirective.render)) behind) (hf : Known f)
    {j : Nat} (hj : m ≤ j) (hlong : (longsOf f)[j]? = some true) : ¬ScansFaithfully call ls opdata f m := by
  intro h
  obtain ⟨stores, hrun, hlaw⟩ := h (List.replicate m (List.replicate 8 0)) (fun _ => List.replicate 8 1)
    ⟨0, 0, _, fun j => (List.replicate m (List.replicate 8 0)).getD j (List.replicate 8 1)⟩
    List.length_replicate (fun _ => List.length_replicate)
    (fun j value hvalue _ => by rw [List.eq_of_mem_replicate (List.mem_of_getElem? hvalue)]; rfl)
    fun _ => ⟨rfl, fun _ => rfl⟩
  rw [stores_run htext] at hrun
  obtain rfl := Option.some.inj hrun
  obtain ⟨x, hx, htemp⟩ : ∃ x, (pushesOf f)[j]? = some x ∧ decide (x = .temp) = true := by
    rw [← longsOf_pushes hf, List.getElem?_map] at hlong
    exact Option.map_eq_some_iff.mp hlong
  obtain rfl := of_decide_eq_true htemp
  have hlt : j < (call.pointers ls opdata (pushesOf f).length).length := by
    rw [ScanfCall.pointers, lsPointers_length]
    exact (List.getElem?_eq_some_iff.mp hx).1
  have hcopied : (⟨(call.pointers ls opdata (pushesOf f).length)[j], List.replicate 4 1⟩ : Store) ∈
      copyVaTemp ((pushesOf f).zip (call.pointers ls opdata (pushesOf f).length))
        fun j => (List.replicate m (List.replicate 8 0)).getD j (List.replicate 8 1) := by
    refine mem_copyVaTemp.mpr ⟨j, ?_, ?_⟩
    · exact List.getElem?_zip_eq_some.mpr ⟨hx, List.getElem?_eq_getElem hlt⟩
    · have hnone : (List.replicate m (List.replicate 8 (0 : UInt8)))[j]? = none :=
        List.getElem?_eq_none (by rw [List.length_replicate]; exact hj)
      rw [List.getD_eq_getElem?_getD, hnone]
      rfl
  have hmem := List.mem_append_left [putLsRc (lsArgsOf opdata) 0 0 0 0]
    (List.mem_append_right (directStores ((pushesOf f).zip (call.pointers ls opdata (pushesOf f).length))
      (List.replicate m (List.replicate 8 0))) hcopied)
  exact not_onlyConverted hmem List.mem_cons_self (show 4 < 16 by decide) hlaw

/-- **What `scanf` stores**: only what was converted, whatever the values are and whatever was on the stack,
exactly if the parser knows the format and every variable that goes through a temporary is among the first `m`,
which were converted. -/
theorem only_converted_iff
    (htext : call.text ls opdata = cString (f.flatMap (Item.render ScanfDirective.render)) behind) (m : Nat) :
    ScansFaithfully call ls opdata f m ↔
      Known f ∧ ∀ j, m ≤ j → (longsOf f)[j]? ≠ some true := by
  constructor
  · intro h
    have hf := known_of_scansFaithfully htext h
    exact ⟨hf, fun j hj hlong => uninitialised_copied htext hf hj hlong h⟩
  · intro ⟨hf, hlong⟩
    exact scansFaithfully htext hf hlong

end

/-- A call of `vscanf` whose frame is at 0 and whose format, with its `NUL`, is at the end of local store; the
variables are at 0x300 and 0x400. -/
def vscanfAtEnd (format : List UInt8) : Nat → UInt8 :=
  let off := lsSize - (format.length + 1)
  storeAll (fun _ => 0) [⟨0, Mapped.digits 4 off⟩, ⟨16, Mapped.digits 4 0x100⟩, ⟨32, Mapped.digits 4 0x200⟩,
    ⟨0x100, Mapped.digits 4 0x300⟩, ⟨0x110, Mapped.digits 4 0x400⟩, ⟨off, format⟩]

theorem digits_nil : ∀ c ∈ ([] : List UInt8), isdigit c := nofun

/-- `%d` and `%ld`. -/
def scanDecimal (length : Length) (h : Conv.d.allows length) : Item ScanfDirective :=
  .directive ⟨false, ⟨[], digits_nil⟩, .single .d length h⟩

theorem known_decimal (length : Length) (h : Conv.d.allows length) (hL : length ≠ .L) :
    Known [scanDecimal length h] := by
  intro d hd
  obtain rfl := Item.directive.inj (List.mem_singleton.mp hd)
  exact .inr (decide_eq_false hL)

theorem decimal_long : Conv.d.allows .l := rfl

/-- `%ld%d`. -/
def longThenInt : List (Item ScanfDirective) := [scanDecimal .l decimal_long, scanDecimal .none rfl]

theorem known_longThenInt : Known longThenInt := by
  intro d hd
  rcases List.mem_pair.mp hd with h | h <;> obtain rfl := Item.directive.inj h <;> exact .inr rfl

/-- `%ld%d` is served well if the first number is found and the second is not: the low 32 bits of the first are
stored, and no other variable. -/
theorem only_converted_first : ScansFaithfully .vscanf (vscanfAtEnd (bytes "%ld%d")) 0 longThenInt 1 ∧
    ScanfCall.vscanf.stores (vscanfAtEnd (bytes "%ld%d")) 0
        ⟨1, 0, [], fun j => if j = 0 then [0, 0, 0, 1, 0, 0, 0, 2] else List.replicate 8 9⟩ =
      some [⟨0x300, [0, 0, 0, 2]⟩, putLsRc 0 1 0 0 0] := by
  have htext : ScanfCall.vscanf.text (vscanfAtEnd (bytes "%ld%d")) 0 =
      cString (longThenInt.flatMap (Item.render ScanfDirective.render)) [] := by decide
  constructor
  · apply (only_converted_iff htext 1).mpr
    refine ⟨known_longThenInt, fun j hj => ?_⟩
    match j, hj with
    | 1, _ => decide
    | j + 2, _ =>
      show none ≠ some true
      exact nofun
  · rw [stores_run htext]
    decide

/-- For `%ld` something is stored even if nothing is converted. -/
theorem more_than_converted : ¬∀ (call : ScanfCall) (ls : Nat → UInt8) (opdata : UInt32)
    (f : List (Item ScanfDirective)) (behind : List UInt8) (m : Nat),
    call.text ls opdata = cString (f.flatMap (Item.render ScanfDirective.render)) behind →
      m ≤ (argsOf f).length → ScansFaithfully call ls opdata f m := by
  intro h
  have htext : ScanfCall.vscanf.text (vscanfAtEnd (bytes "%ld")) 0 =
      cString ([scanDecimal .l rfl].flatMap (Item.render ScanfDirective.render)) [] := by decide
  have hfaithful := h _ _ _ _ _ 0 htext (Nat.zero_le _)
  exact uninitialised_copied htext (known_decimal .l rfl (by decide)) (Nat.le_refl 0) rfl hfaithful

end LibSpe2.Format
