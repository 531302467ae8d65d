import LibSpe2.SpeBase.BufferArgs
import LibSpe2.SpeBase.ScanfStores
import Mathlib.Data.List.GetD

/-!
# Out parameters (`spebase/default_posix1_handler.c`)

The handlers of `time`, `wait` and `waitpid` hand the host a pointer into local store; those of `gettimeofday`
and `nanosleep` give it variables of their own and copy these.

* `Call` — the five calls, with the host that answers them.
* `Call.objects` — what the SPE program is to receive: an object for each pointer that is not null, if the
  host has written a value for it.
* `OutParamsOnly` — nothing else is changed in local store but the return quadword.

Main result:
* `outParams_iff` — when this is so, for each call.
-/

namespace LibSpe2.OutParam

open LibCall (lsPtr loadWord argSlot lsArgsOf intOf)
open Format (Build Store storeAll putLsRc)
open Mapped (digits)

/-! ## The host -/

/-- A `long` of the host, and a `time_t`. -/
abbrev Long (b : Build) := BitVec (8 * b.wordSize)

/-- The bytes of a variable of this type. -/
def longBytes {b : Build} (n : Long b) : List UInt8 := digits b.wordSize n.toNat

/-- The bytes of an `int` that a `long` is assigned to. -/
def intBytes {b : Build} (n : Long b) : List UInt8 := digits 4 n.toNat

structure Timeval (b : Build) where
  tvSec : Long b
  tvUsec : Long b

structure Timezone where
  tzMinuteswest : UInt32
  tzDsttime : UInt32

structure Timespec (b : Build) where
  tvSec : Long b
  tvNsec : Long b

/-- What `time` returns, and what it writes through its pointer, if it does. -/
structure HostTime (b : Build) where
  rc : UInt32
  errno : UInt32
  t : Option (Long b)

/-- What `wait` and `waitpid` return, and the status that they write, if they do. -/
structure HostWait where
  pid : UInt32
  errno : UInt32
  status : Option UInt32

/-- What `gettimeofday` returns, and what it writes if this is 0. -/
structure HostGettimeofday (b : Build) where
  rc : UInt32
  errno : UInt32
  t : Timeval b
  zone : Timezone

/-- What `nanosleep` returns, and the remaining time that it writes, if it does. -/
structure HostNanosleep (b : Build) where
  rc : UInt32
  errno : UInt32
  rem : Option (Timespec b)

/-- `*p`, if the host has written it. -/
def HostTime.stores {b : Build} (host : HostTime b) (p : Nat) : List Store :=
  (host.t.map fun t => ⟨p, longBytes t⟩).toList

def HostWait.stores (host : HostWait) (p : Nat) : List Store :=
  (host.status.map fun status => ⟨p, digits 4 status.toNat⟩).toList

/-! ## The handlers -/

variable {b : Build} (ls : Nat → UInt8) (opdata : UInt32)

def defaultPosix1HandlerTime (time : Nat → HostTime b) : List Store :=
  let t := lsPtr (argSlot ls opdata 0)
  let host := time t
  host.stores t ++ [putLsRc (lsArgsOf opdata) host.rc 0 0 host.errno]

def defaultPosix1HandlerWait (wait : Nat → HostWait) : List Store :=
  let status := lsPtr (argSlot ls opdata 0)
  let host := wait status
  host.stores status ++ [putLsRc (lsArgsOf opdata) host.pid 0 0 host.errno]

def defaultPosix1HandlerWaitpid (waitpid : UInt32 → Nat → UInt32 → HostWait) : List Store :=
  let pid := argSlot ls opdata 0
  let status := lsPtr (argSlot ls opdata 1)
  let options := argSlot ls opdata 2
  let host := waitpid pid status options
  host.stores status ++ [putLsRc (lsArgsOf opdata) host.pid 0 0 host.errno]

/-- `tv->tv_sec = t.tv_sec; tv->tv_usec = t.tv_usec`. -/
def Timeval.stores (t : Timeval b) (tv : Nat) : List Store :=
  [⟨tv, intBytes t.tvSec ++ intBytes t.tvUsec⟩]

def defaultPosix1HandlerGettimeofday (host : HostGettimeofday b) : List Store :=
  let tv := lsPtr (argSlot ls opdata 0)
  let tz := lsPtr (argSlot ls opdata 1)
  let copies :=
    if host.rc = 0 then
      let tvCopy := if argSlot ls opdata 0 ≠ 0 then host.t.stores tv else []
      -- the second argument is read again, after the first object was stored
      let tzCopy :=
        if argSlot (storeAll ls tvCopy) opdata 1 ≠ 0 then [⟨tz, digits 4 host.zone.tzMinuteswest.toNat⟩] else []
      tvCopy ++ tzCopy
    else []
  copies ++ [putLsRc (lsArgsOf opdata) host.rc 0 0 host.errno]

/-- An `int` of local store, as a `long`. -/
def longOf (word : UInt32) : Long b := .ofInt _ (intOf word)

/-- `sperem->tv_sec = remp->tv_sec; sperem->tv_nsec = remp->tv_nsec`. -/
def Timespec.bytes (rem : Timespec b) : List UInt8 := intBytes rem.tvSec ++ intBytes rem.tvNsec

/-- The host is given the time to sleep, and whether there is a pointer for the remaining time; `rem` is what
this variable has on the stack. -/
def defaultPosix1HandlerNanosleep (nanosleep : Timespec b → Bool → HostNanosleep b) (rem : Timespec b) :
    List Store :=
  let spereq := lsPtr (argSlot ls opdata 0)
  let req : Timespec b := ⟨longOf (loadWord ls spereq), longOf (loadWord ls (spereq + 4))⟩
  let remp := argSlot ls opdata 1 ≠ 0
  let host := nanosleep req remp
  let copies := if remp then [⟨lsPtr (argSlot ls opdata 1), (host.rem.getD rem).bytes⟩] else []
  copies ++ [putLsRc (lsArgsOf opdata) host.rc 0 0 host.errno]

/-- A call with the host's answers. -/
inductive Call (b : Build) where
  | time (time : Nat → HostTime b)
  | wait (wait : Nat → HostWait)
  | waitpid (waitpid : UInt32 → Nat → UInt32 → HostWait)
  | gettimeofday (host : HostGettimeofday b)
  | nanosleep (nanosleep : Timespec b → Bool → HostNanosleep b) (rem : Timespec b)

/-- What is stored to local store, in its order. -/
def Call.stores : Call b → List Store
  | .time host => defaultPosix1HandlerTime ls opdata host
  | .wait host => defaultPosix1HandlerWait ls opdata host
  | .waitpid host => defaultPosix1HandlerWaitpid ls opdata host
  | .gettimeofday host => defaultPosix1HandlerGettimeofday ls opdata host
  | .nanosleep host rem => defaultPosix1HandlerNanosleep ls opdata host rem

/-! ## The law -/

/-- The object that a pointer names, with what the host has written for it. -/
def object (word : UInt32) (value : Option (List UInt8)) : Option Store :=
  if word = 0 then none else value.map fun bytes => ⟨lsPtr word, bytes⟩

/-- The bytes of a `struct spe_compat_timeval`. -/
def Timeval.bytes (t : Timeval b) : List UInt8 := intBytes t.tvSec ++ intBytes t.tvUsec

/-- The bytes of a `struct spe_compat_timezone`. -/
def Timezone.bytes (zone : Timezone) : List UInt8 :=
  digits 4 zone.tzMinuteswest.toNat ++ digits 4 zone.tzDsttime.toNat

/-- What is to be in the object of each pointer. -/
def Call.objects : Call b → List Store
  | .time host =>
    let word := argSlot ls opdata 0
    (object word ((host (lsPtr word)).t.map intBytes)).toList
  | .wait host =>
    let word := argSlot ls opdata 0
    (object word ((host (lsPtr word)).status.map (digits 4 ·.toNat))).toList
  | .waitpid host =>
    let word := argSlot ls opdata 1
    let answer := host (argSlot ls opdata 0) (lsPtr word) (argSlot ls opdata 2)
    (object word (answer.status.map (digits 4 ·.toNat))).toList
  | .gettimeofday host =>
    let tv := object (argSlot ls opdata 0) (if host.rc = 0 then some host.t.bytes else none)
    let tz := object (argSlot ls opdata 1) (if host.rc = 0 then some host.zone.bytes else none)
    tv.toList ++ tz.toList
  | .nanosleep host _ =>
    let spereq := lsPtr (argSlot ls opdata 0)
    let req : Timespec b := ⟨longOf (loadWord ls spereq), longOf (loadWord ls (spereq + 4))⟩
    let word := argSlot ls opdata 1
    (object word ((host req (word ≠ 0)).rem.map Timespec.bytes)).toList

/-- The return quadword. -/
def InRet (a : Nat) : Prop := lsArgsOf opdata ≤ a ∧ a < lsArgsOf opdata + 16

/-- The byte that is stored at `a`. -/
def byteAt (s : Store) (a : Nat) : UInt8 := s.bytes.getD (a - s.off) 0

/-- What may be at `a`: what is to be in an object there, and what was there if there is none. -/
def Expected (objects : List Store) (a : Nat) (v : UInt8) : Prop :=
  (∃ s ∈ objects, s.Covers a ∧ v = byteAt s a) ∨ (∀ s ∈ objects, ¬s.Covers a) ∧ v = ls a

/-- **Out parameters only**: outside of the return quadword, local store has the objects and is else as it
was. -/
def OutParamsOnly (objects stores : List Store) : Prop :=
  ∀ a < lsSize, ¬InRet opdata a → Expected ls objects a (storeAll ls stores a)

/-! ## The condition -/

/-- The bytes of `s` are there already, but for those of the return quadword and of `others`. -/
def Idle (others : List Store) (s : Store) : Prop :=
  ∀ a < lsSize, ¬InRet opdata a → (∀ s' ∈ others, ¬s'.Covers a) → s.Covers a → byteAt s a = ls a

/-- A null pointer, for which the host writes at the base of local store. -/
def IdleAtNull (word : UInt32) (stores : Nat → List Store) : Prop :=
  word = 0 → ∀ s ∈ stores 0, Idle ls opdata [] s

/-- For `gettimeofday`, the bytes that are not stored, or stored for a null pointer. -/
def IdleZone (host : HostGettimeofday b) : Prop :=
  let tv := if argSlot ls opdata 0 ≠ 0 then host.t.stores (lsPtr (argSlot ls opdata 0)) else []
  let word := argSlot ls opdata 1
  let again := argSlot (storeAll ls tv) opdata 1
  (word ≠ 0 → again ≠ 0 → Idle ls opdata tv ⟨lsPtr word + 4, digits 4 host.zone.tzDsttime.toNat⟩) ∧
    (word ≠ 0 → again = 0 → Idle ls opdata tv ⟨lsPtr word, host.zone.bytes⟩) ∧
      (word = 0 → again ≠ 0 → Idle (storeAll ls tv) opdata [] ⟨0, digits 4 host.zone.tzMinuteswest.toNat⟩)

/-- **The condition**, for each call: what goes wrong changes nothing. -/
def Call.Spared : Call b → Prop
  | .time host =>
    let word := argSlot ls opdata 0
    IdleAtNull ls opdata word (host (lsPtr word)).stores ∧
      -- the host's `time_t` is wider than the object
      (b = .ppc64 → word ≠ 0 → ∀ t ∈ (host (lsPtr word)).t,
        Idle (storeAll ls [⟨lsPtr word, intBytes t⟩]) opdata [] ⟨lsPtr word, longBytes t⟩)
  | .wait host =>
    let word := argSlot ls opdata 0
    IdleAtNull ls opdata word (host (lsPtr word)).stores
  | .waitpid host =>
    let word := argSlot ls opdata 1
    IdleAtNull ls opdata word (host (argSlot ls opdata 0) (lsPtr word) (argSlot ls opdata 2)).stores
  | .gettimeofday host => host.rc = 0 → IdleZone ls opdata host
  | .nanosleep host rem =>
    let spereq := lsPtr (argSlot ls opdata 0)
    let req : Timespec b := ⟨longOf (loadWord ls spereq), longOf (loadWord ls (spereq + 4))⟩
    let word := argSlot ls opdata 1
    -- the host has not written the remaining time, which is on the stack
    word ≠ 0 → (host req true).rem = none → Idle ls opdata [] ⟨lsPtr word, rem.bytes⟩

/-! ## Stores -/

section

variable {ls : Nat → UInt8} {opdata : UInt32} {objects stores : List Store} {s : Store} {a : Nat}

theorem storeAll_concat_covered (h : s.Covers a) : storeAll ls (stores ++ [s]) a = byteAt s a := by
  rw [storeAll, List.foldl_append]
  exact Format.put_covered h

theorem storeAll_concat_uncovered (h : ¬s.Covers a) : storeAll ls (stores ++ [s]) a = storeAll ls stores a := by
  rw [storeAll, List.foldl_append]
  exact Format.put_uncovered h

theorem storeAll_covered (h : s.Covers a) : storeAll ls [s] a = byteAt s a := Format.put_covered h

theorem storeAll_uncovered (h : ¬s.Covers a) : storeAll ls [s] a = ls a := Format.put_uncovered h

theorem covers_mk {p : Nat} {x : List UInt8} : (⟨p, x⟩ : Store).Covers a ↔ p ≤ a ∧ a < p + x.length := Iff.rfl

/-- A store of two parts. -/
theorem byteAt_append {p : Nat} {x y : List UInt8} :
    byteAt ⟨p, x ++ y⟩ a = if a - p < x.length then byteAt ⟨p, x⟩ a else byteAt ⟨p + x.length, y⟩ a := by
  unfold byteAt
  split
  · next hlt => exact List.getD_append x y 0 (a - p) hlt
  · next hge =>
    rw [List.getD_append_right x y 0 (a - p) (Nat.le_of_not_lt hge), Nat.sub_sub]

theorem covers_putLsRc {slot₀ slot₁ slot₂ slot₃ : UInt32} :
    (putLsRc (lsArgsOf opdata) slot₀ slot₁ slot₂ slot₃).Covers a ↔ InRet opdata a := by
  simp [putLsRc, Store.Covers, InRet]

/-- The result is stored last, and the law is about the other bytes. -/
theorem outParamsOnly_concat {rc errno : UInt32} :
    OutParamsOnly ls opdata objects (stores ++ [putLsRc (lsArgsOf opdata) rc 0 0 errno]) ↔
      OutParamsOnly ls opdata objects stores := by
  unfold OutParamsOnly
  apply forall_congr'
  intro a
  apply forall_congr'
  intro _
  apply forall_congr'
  intro hret
  rw [storeAll_concat_uncovered (covers_putLsRc.not.mpr hret)]

/-- A store of no bytes. -/
theorem outParamsOnly_empty {p : Nat} :
    OutParamsOnly ls opdata objects (stores ++ [⟨p, []⟩]) ↔ OutParamsOnly ls opdata objects stores := by
  have hempty (a : Nat) : ¬(⟨p, []⟩ : Store).Covers a := by
    rw [covers_mk, List.length_nil]
    omega
  unfold OutParamsOnly
  simp only [storeAll_concat_uncovered (hempty _)]

/-! ## At most one object -/

variable {o : Option Store}

/-- With at most one object, one byte is expected. -/
theorem expected_iff {v : UInt8} : Expected ls o.toList a v ↔ v = storeAll ls o.toList a := by
  cases o with
  | none =>
    show Expected ls [] a v ↔ v = ls a
    simp [Expected]
  | some s =>
    show Expected ls [s] a v ↔ v = storeAll ls [s] a
    unfold Expected
    by_cases hs : s.Covers a
    · simp [storeAll_covered hs, hs]
    · simp [storeAll_uncovered hs, hs]

/-- The object is stored. -/
theorem only_object : OutParamsOnly ls opdata o.toList o.toList :=
  fun _ _ _ => expected_iff.mpr rfl

/-- Nothing is stored. -/
theorem only_nil : OutParamsOnly ls opdata [] [] := by
  have honly : OutParamsOnly ls opdata (none : Option Store).toList _ := only_object
  exact honly

/-- Something else is stored after the object. -/
theorem only_concat : OutParamsOnly ls opdata o.toList (o.toList ++ [s]) ↔
    Idle (storeAll ls o.toList) opdata [] s := by
  unfold OutParamsOnly Idle
  apply forall_congr'
  intro a
  apply forall_congr'
  intro _
  apply forall_congr'
  intro _
  rw [expected_iff]
  by_cases hs : s.Covers a
  · simp [storeAll_concat_covered hs, hs]
  · simp [storeAll_concat_uncovered hs, hs]

/-- Something is stored where there is no object. -/
theorem only_none : OutParamsOnly ls opdata [] [s] ↔ Idle ls opdata [] s := by
  have hconcat : OutParamsOnly ls opdata (none : Option Store).toList ((none : Option Store).toList ++ [s]) ↔
      _ := only_concat
  exact hconcat

/-- More is stored than the object. -/
theorem only_wider {s' : Store} (hwider : ∀ a, s'.Covers a → s.Covers a) :
    OutParamsOnly ls opdata [s'] [s] ↔ Idle (storeAll ls [s']) opdata [] s := by
  have hconcat : OutParamsOnly ls opdata (some s').toList ((some s').toList ++ [s]) ↔ _ := only_concat
  apply Iff.trans _ hconcat
  unfold OutParamsOnly
  apply forall_congr'
  intro a
  apply forall_congr'
  intro _
  apply forall_congr'
  intro _
  show Expected ls [s'] a (storeAll ls [s] a) ↔ Expected ls [s'] a (storeAll ls ([s'] ++ [s]) a)
  by_cases hs : s.Covers a
  · rw [storeAll_concat_covered hs, storeAll_covered hs]
  · rw [storeAll_concat_uncovered hs, storeAll_uncovered hs, storeAll_uncovered fun h => hs (hwider a h)]

/-! ## Two objects -/

/-- Of the second object, only the first bytes are stored. -/
theorem only_prefix {p : Nat} {x y : List UInt8} :
    OutParamsOnly ls opdata (o.toList ++ [⟨p, x ++ y⟩]) (o.toList ++ [⟨p, x⟩]) ↔
      Idle ls opdata o.toList ⟨p + x.length, y⟩ := by
  unfold OutParamsOnly Idle
  apply forall_congr'
  intro a
  apply forall_congr'
  intro _
  apply forall_congr'
  intro _
  by_cases hm : (⟨p, x⟩ : Store).Covers a
  · -- one of the bytes that are stored
    rw [storeAll_concat_covered hm]
    have hlt : a - p < x.length := by
      rw [covers_mk] at hm
      omega
    refine iff_of_true (.inl ⟨⟨p, x ++ y⟩, List.mem_append_right _ List.mem_cons_self, ?_, ?_⟩) ?_
    · rw [covers_mk] at hm ⊢
      rw [List.length_append]
      omega
    · rw [byteAt_append, if_pos hlt]
    · intro _ hd
      rw [covers_mk] at hm hd
      omega
  rw [storeAll_concat_uncovered hm]
  by_cases ht : ∃ s' ∈ o.toList, s'.Covers a
  · -- a byte of the first object
    obtain ⟨s', hs', hcovers⟩ := ht
    refine iff_of_true ?_ fun hno _ => absurd hcovers (hno s' hs')
    have hfirst : Expected ls o.toList a (storeAll ls o.toList a) := expected_iff.mpr rfl
    rcases hfirst with ⟨t, ht, hexp⟩ | ⟨hno, -⟩
    · exact .inl ⟨t, List.mem_append_left _ ht, hexp⟩
    · exact absurd hcovers (hno s' hs')
  have hno : ∀ s' ∈ o.toList, ¬s'.Covers a := fun s' hs' hcovers => ht ⟨s', hs', hcovers⟩
  rw [Format.storeAll_uncovered hno]
  by_cases hd : (⟨p + x.length, y⟩ : Store).Covers a
  · -- a byte that is missing
    have hge : ¬a - p < x.length := by
      rw [covers_mk] at hd
      omega
    have hcovers : (⟨p, x ++ y⟩ : Store).Covers a := by
      rw [covers_mk] at hd ⊢
      rw [List.length_append]
      omega
    have hbyte : byteAt ⟨p, x ++ y⟩ a = byteAt ⟨p + x.length, y⟩ a := by rw [byteAt_append, if_neg hge]
    constructor
    · intro hexp _ _
      rcases hexp with ⟨s', hs', hc, hv⟩ | ⟨hnone, -⟩
      · rcases List.mem_append.mp hs' with hs' | hs'
        · exact absurd hc (hno s' hs')
        · obtain rfl := List.mem_singleton.mp hs'
          rw [hv, hbyte]
      · exact absurd hcovers (hnone _ (List.mem_append_right _ List.mem_cons_self))
    · intro h
      exact .inl ⟨_, List.mem_append_right _ List.mem_cons_self, hcovers, (hbyte.trans (h hno hd)).symm⟩
  · refine iff_of_true (.inr ⟨fun s' hs' hc => ?_, rfl⟩) fun _ h => absurd h hd
    rcases List.mem_append.mp hs' with hs' | hs'
    · exact hno s' hs' hc
    · obtain rfl := List.mem_singleton.mp hs'
      rw [covers_mk] at hm hd hc
      rw [List.length_append] at hc
      omega

/-! ## The calls -/

theorem object_zero {value : Option (List UInt8)} : object 0 value = none := rfl

theorem object_none {word : UInt32} : object word none = none := by simp [object]

theorem object_some {word : UInt32} {bytes : List UInt8} (h : word ≠ 0) :
    object word (some bytes) = some ⟨lsPtr word, bytes⟩ := by simp [object, h]

/-- A pointer that is handed to the host, null or not. -/
theorem pointer_iff {word : UInt32} {value : Option (List UInt8)} :
    OutParamsOnly ls opdata (object word value).toList (value.map fun bytes => ⟨lsPtr word, bytes⟩).toList ↔
      IdleAtNull ls opdata word fun p => (value.map fun bytes => ⟨p, bytes⟩).toList := by
  unfold IdleAtNull
  cases value with
  | none =>
    rw [object_none]
    exact iff_of_true only_nil fun _ _ hs => absurd hs List.not_mem_nil
  | some bytes =>
    by_cases hword : word = 0
    · subst hword
      have hiff : OutParamsOnly ls opdata [] [⟨lsPtr 0, bytes⟩] ↔ _ := only_none
      rw [object_zero]
      apply Iff.trans hiff
      simp [show lsPtr 0 = 0 from rfl]
    · have honly : OutParamsOnly ls opdata (some (⟨lsPtr word, bytes⟩ : Store)).toList
          (some (⟨lsPtr word, bytes⟩ : Store)).toList := only_object
      rw [object_some hword]
      exact iff_of_true honly fun h => absurd h hword

end

section

variable {ls : Nat → UInt8} {opdata : UInt32}

/-- The status that the host writes through its pointer. -/
theorem status_iff (host : HostWait) (word : UInt32) :
    OutParamsOnly ls opdata (object word (host.status.map (digits 4 ·.toNat))).toList
        (host.stores (lsPtr word)) ↔ IdleAtNull ls opdata word host.stores := by
  have hstores : host.stores = fun p =>
      ((host.status.map (digits 4 ·.toNat)).map fun bytes => ⟨p, bytes⟩).toList := by
    funext p
    rw [Option.map_map]
    rfl
  rw [hstores]
  exact pointer_iff

theorem time_iff (host : Nat → HostTime b) :
    OutParamsOnly ls opdata ((Call.time host).objects ls opdata) ((Call.time host).stores ls opdata) ↔
      (Call.time host).Spared ls opdata := by
  apply outParamsOnly_concat.trans
  simp only [Call.objects, Call.Spared]
  generalize argSlot ls opdata 0 = word
  generalize host (lsPtr word) = answer
  have hstores : answer.stores = fun p => ((answer.t.map longBytes).map fun bytes => ⟨p, bytes⟩).toList := by
    funext p
    rw [Option.map_map]
    rfl
  cases ht : answer.t with
  | none =>
    have hiff : OutParamsOnly ls opdata (object word none).toList _ ↔ _ := pointer_iff
    simpa [hstores, ht] using hiff
  | some t =>
    by_cases hwide : b = .ppc64 ∧ word ≠ 0
    · obtain ⟨hb, hword⟩ := hwide
      have hobject : (object word (some (intBytes t))).toList = [⟨lsPtr word, intBytes t⟩] := by
        rw [object_some hword]
        rfl
      have hmade : answer.stores (lsPtr word) = [⟨lsPtr word, longBytes t⟩] := by
        rw [hstores, ht]
        rfl
      have hnull : IdleAtNull ls opdata word answer.stores := fun h => absurd h hword
      rw [Option.map_some, hobject, hmade, only_wider]
      · simp [hb, hword, hnull]
      · intro a ha
        rw [covers_mk, intBytes, Mapped.length_digits] at ha
        rw [covers_mk, longBytes, Mapped.length_digits, hb, Build.wordSize]
        omega
    · have hsame : (object word (some (intBytes t))).toList =
          (object word (answer.t.map longBytes)).toList := by
        by_cases hword : word = 0
        · rw [hword, object_zero, object_zero]
        · have hb : b = .ppc32 := by
            cases b with
            | ppc32 => rfl
            | ppc64 => exact absurd ⟨rfl, hword⟩ hwide
          subst hb
          rw [ht]
          rfl
      have hpad : b = .ppc64 → word ≠ 0 → ∀ t' ∈ some t,
          Idle (storeAll ls [⟨lsPtr word, intBytes t'⟩]) opdata [] ⟨lsPtr word, longBytes t'⟩ :=
        fun hb hword => absurd ⟨hb, hword⟩ hwide
      rw [Option.map_some, hsame, hstores, pointer_iff]
      exact (and_iff_left hpad).symm

theorem wait_iff (host : Nat → HostWait) :
    OutParamsOnly ls opdata ((Call.wait host : Call b).objects ls opdata)
        ((Call.wait host : Call b).stores ls opdata) ↔ (Call.wait host : Call b).Spared ls opdata :=
  outParamsOnly_concat.trans (status_iff _ _)

theorem waitpid_iff (host : UInt32 → Nat → UInt32 → HostWait) :
    OutParamsOnly ls opdata ((Call.waitpid host : Call b).objects ls opdata)
        ((Call.waitpid host : Call b).stores ls opdata) ↔ (Call.waitpid host : Call b).Spared ls opdata :=
  outParamsOnly_concat.trans (status_iff _ _)

theorem nanosleep_iff (host : Timespec b → Bool → HostNanosleep b) (rem : Timespec b) :
    OutParamsOnly ls opdata ((Call.nanosleep host rem).objects ls opdata)
        ((Call.nanosleep host rem).stores ls opdata) ↔ (Call.nanosleep host rem).Spared ls opdata := by
  apply outParamsOnly_concat.trans
  simp only [Call.objects, Call.Spared]
  generalize (⟨longOf (loadWord ls (lsPtr (argSlot ls opdata 0))),
    longOf (loadWord ls (lsPtr (argSlot ls opdata 0) + 4))⟩ : Timespec b) = req
  generalize argSlot ls opdata 1 = word
  by_cases hword : word = 0
  · subst hword
    exact iff_of_true only_nil fun h => absurd rfl h
  · have hremp : decide (word ≠ 0) = true := decide_eq_true hword
    rw [hremp, if_pos hword]
    cases hrem : (host req true).rem with
    | none =>
      have hiff : OutParamsOnly ls opdata [] [⟨lsPtr word, rem.bytes⟩] ↔ _ := only_none
      simpa [object_none, hword] using hiff
    | some r =>
      have honly : OutParamsOnly ls opdata (some (⟨lsPtr word, r.bytes⟩ : Store)).toList
          (some (⟨lsPtr word, r.bytes⟩ : Store)).toList := only_object
      rw [Option.map_some, object_some hword]
      exact iff_of_true honly fun _ h => absurd h (by simp)

theorem gettimeofday_iff (host : HostGettimeofday b) :
    OutParamsOnly ls opdata ((Call.gettimeofday host).objects ls opdata)
        ((Call.gettimeofday host).stores ls opdata) ↔ (Call.gettimeofday host).Spared ls opdata := by
  apply outParamsOnly_concat.trans
  simp only [Call.objects, Call.Spared]
  by_cases hrc : host.rc = 0
  · simp only [hrc, if_true, true_implies]
    unfold IdleZone
    dsimp only
    -- the first object is stored as it should be
    have htv : (if argSlot ls opdata 0 ≠ 0 then host.t.stores (lsPtr (argSlot ls opdata 0)) else []) =
        (object (argSlot ls opdata 0) (some host.t.bytes)).toList := by
      by_cases h : argSlot ls opdata 0 = 0
      · rw [h, object_zero]
        rfl
      · rw [object_some h, if_pos h]
        rfl
    rw [htv]
    generalize object (argSlot ls opdata 0) (some host.t.bytes) = o
    generalize argSlot (storeAll ls o.toList) opdata 1 = again
    generalize argSlot ls opdata 1 = word
    by_cases hword : word = 0
    · subst hword
      by_cases hagain : again = 0
      · have honly : OutParamsOnly ls opdata o.toList o.toList := only_object
        simpa [object_zero, hagain] using honly
      · have hiff : OutParamsOnly ls opdata o.toList
            (o.toList ++ [⟨0, digits 4 host.zone.tzMinuteswest.toNat⟩]) ↔ _ := only_concat
        simpa [object_zero, hagain, show lsPtr 0 = 0 from rfl] using hiff
    · by_cases hagain : again = 0
      · -- nothing of the second object is stored
        have hiff : OutParamsOnly ls opdata (o.toList ++ [⟨lsPtr word, [] ++ host.zone.bytes⟩])
            (o.toList ++ [⟨lsPtr word, []⟩]) ↔ _ := only_prefix
        rw [outParamsOnly_empty] at hiff
        simpa [object_some hword, hword, hagain] using hiff
      · have hiff : OutParamsOnly ls opdata (o.toList ++ [⟨lsPtr word, host.zone.bytes⟩])
            (o.toList ++ [⟨lsPtr word, digits 4 host.zone.tzMinuteswest.toNat⟩]) ↔ _ := only_prefix
        simpa [object_some hword, hword, hagain] using hiff
  · simp only [hrc, if_false, object_none]
    exact iff_of_true only_nil fun h => h.elim

/-- **Out parameters**: what each call changes, for every content of local store and every answer of the
host. -/
theorem outParams_iff (b : Build) (call : Call b) (ls : Nat → UInt8) (opdata : UInt32) :
    OutParamsOnly ls opdata (call.objects ls opdata) (call.stores ls opdata) ↔ call.Spared ls opdata := by
  cases call with
  | time host => exact time_iff host
  | wait host => exact wait_iff host
  | waitpid host => exact waitpid_iff host
  | gettimeofday host => exact gettimeofday_iff host
  | nanosleep host rem => exact nanosleep_iff host rem

/-- A `wait` with a null pointer stores the status at the base of local store. -/
theorem wait_stores_at_null : ¬∀ (b : Build) (call : Call b) (ls : Nat → UInt8) (opdata : UInt32),
    OutParamsOnly ls opdata (call.objects ls opdata) (call.stores ls opdata) := by
  intro h
  have hspared := (outParams_iff .ppc64 (.wait fun _ => ⟨7, 0, some 0x100⟩) (fun _ => 0) 0x1000).mp (h _ _ _ _)
  have hidle := hspared rfl ⟨0, [0, 0, 1, 0]⟩ (List.mem_singleton.mpr rfl)
  have hret : ¬InRet 0x1000 2 := fun hin => absurd hin.1 (by decide)
  have hcovers : (⟨0, [0, 0, 1, 0]⟩ : Store).Covers 2 := ⟨by decide, by decide⟩
  have hbyte := hidle 2 (by decide) hret (fun _ hs => absurd hs List.not_mem_nil) hcovers
  exact absurd hbyte (by decide)

end

end LibSpe2.OutParam
