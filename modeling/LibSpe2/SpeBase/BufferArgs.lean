import LibSpe2.SpeBase.Format
import LibSpe2.SpeBase.LibCall
import Mathlib.Algebra.Group.Int.Defs
import Mathlib.Algebra.Group.Nat.Defs
import Mathlib.Algebra.GroupWithZero.Nat

/-!
# Buffers that a library call names (`spebase/default_c99_handler.c`, `spebase/default_posix1_handler.c`)

The pointer to a buffer is masked, so that it points into local store; its length is a word of its own.

* `HostCall` — what the handlers of `gets`, `read`, `write`, `readv` and `writev` ask the host to do.
* `checkConvSpuvec` — the conversion of an array of buffers, with the parts of the array that it reads.
* `BufferCall.InLocalStore` — nothing outside of local store is read or handed to the host.

Main results:
* `inLocalStore_iff` — the arguments for which this is so.
* `buffers_escape` — `gets` takes the size of its buffer from the pointer before it is masked.
-/

namespace LibSpe2.LibCall

open Format (Build)

/-! ## The host -/

/-- A call of the host with its buffers. -/
inductive HostCall where
  | fgets (s : Nat) (size : Int)
  | read (buf : Region)
  | write (buf : Region)
  | readv (vec : List Region) (count : Int)
  | writev (vec : List Region) (count : Int)

/-- The buffers that the host may use. It refuses an `fgets` for no character, and a negative number of
buffers. -/
def HostCall.regions : HostCall → List Region
  | .fgets s size => if size ≤ 0 then [] else [⟨s, size.toNat⟩]
  | .read buf | .write buf => [buf]
  | .readv vec count | .writev vec count => if count < 0 then [] else vec

theorem regions_fgets (s : Nat) (size : Int) :
    (HostCall.fgets s size).regions = if size ≤ 0 then [] else [⟨s, size.toNat⟩] := rfl

/-- What a handler reads from arrays that it is given, and what it asks the host to do, if it does. -/
structure Access where
  reads : List Region
  host : Option HostCall

/-! ## The handlers -/

variable (b : Build) (ls : Nat → UInt8) (opdata : UInt32)

/-- `default_c99_handler_gets`. -/
def defaultC99HandlerGets : Access :=
  let slot := argSlot ls opdata 0
  ⟨[], some (.fgets (lsPtr slot) (intOf (0x40000 - slot)))⟩

/-- `default_posix1_handler_read`. -/
def defaultPosix1HandlerRead : Access :=
  ⟨[], some (.read ⟨lsPtr (argSlot ls opdata 1), (argSlot ls opdata 2).toNat⟩)⟩

/-- `default_posix1_handler_write`. -/
def defaultPosix1HandlerWrite : Access :=
  ⟨[], some (.write ⟨lsPtr (argSlot ls opdata 1), (argSlot ls opdata 2).toNat⟩)⟩

/-- An entry of an array of `struct ls_iovec`. -/
def entryAt (lsvec i : Nat) : Region := ⟨lsvec + 8 * i, 8⟩

/-- The buffer that an entry names. -/
def vecAt (lsvec i : Nat) : Region :=
  ⟨lsPtr (loadWord ls (lsvec + 8 * i)), (loadWord ls (lsvec + 8 * i + 4)).toNat⟩

/-- The values of a `size_t`. -/
def sizeTSpace : Nat := 2 ^ (8 * b.wordSize)

/-- `SPU_SSIZE_MAX`. -/
def spuSsizeMax : Nat := 0x7fffffff

/-- `IOV_MAX`. -/
def iovMax : Int := 1024

/-- The loop of `check_conv_spuvec`, with `n` entries left from entry `i` on. -/
def convFrom (lsvec : Nat) : (n i sum : Nat) → List Region × Option (List Region)
  | 0, _, _ => ([], some [])
  | n + 1, i, sum =>
    let vec := vecAt ls lsvec i
    let sum := (sum + vec.size) % sizeTSpace b
    if spuSsizeMax < sum then ([entryAt lsvec i], none)
    else
      let (reads, rest) := convFrom lsvec n (i + 1) sum
      (entryAt lsvec i :: reads, rest.map (vec :: ·))

/-- `check_conv_spuvec`: what it reads, and the buffers if it accepts them. -/
def checkConvSpuvec (lsvec : Nat) (count : Int) : List Region × Option (List Region) :=
  if count > iovMax then ([], none) else convFrom b ls lsvec count.toNat 0 0

/-- `default_posix1_handler_readv`. -/
def defaultPosix1HandlerReadv : Access :=
  let count := intOf (argSlot ls opdata 2)
  let (reads, vec) := checkConvSpuvec b ls (lsPtr (argSlot ls opdata 1)) count
  ⟨reads, vec.map fun vec => .readv vec count⟩

/-- `default_posix1_handler_writev`. -/
def defaultPosix1HandlerWritev : Access :=
  let count := intOf (argSlot ls opdata 2)
  let (reads, vec) := checkConvSpuvec b ls (lsPtr (argSlot ls opdata 1)) count
  ⟨reads, vec.map fun vec => .writev vec count⟩

/-- The calls. -/
inductive BufferCall where
  | gets | read | write | readv | writev

def BufferCall.access : BufferCall → Access
  | gets => defaultC99HandlerGets ls opdata
  | read => defaultPosix1HandlerRead ls opdata
  | write => defaultPosix1HandlerWrite ls opdata
  | readv => defaultPosix1HandlerReadv b ls opdata
  | writev => defaultPosix1HandlerWritev b ls opdata

/-- Everything that is read or handed to the host lies inside local store. -/
def Access.InLocalStore (a : Access) : Prop :=
  (∀ r ∈ a.reads, r.InLs) ∧ ∀ call, a.host = some call → ∀ r ∈ call.regions, r.InLs

/-! ## The condition -/

/-- `sum` after the first `n` entries. -/
def sumOf (lsvec n : Nat) : Nat := ((List.range n).map fun i => (vecAt ls lsvec i).size).sum % sizeTSpace b

/-- The first `n` entries are accepted. -/
def Accepted (lsvec n : Nat) : Prop := ∀ i < n, sumOf b ls lsvec (i + 1) ≤ spuSsizeMax

/-- The entries that are looked at lie inside local store, and if all are accepted the buffers do. -/
def VecInLs (lsvec : Nat) (count : Int) : Prop :=
  count ≤ iovMax → (∀ i < count.toNat, Accepted b ls lsvec i → (entryAt lsvec i).InLs) ∧
    (Accepted b ls lsvec count.toNat → ∀ i < count.toNat, (vecAt ls lsvec i).InLs)

/-- The condition on the arguments. -/
def BufferCall.Bounded : BufferCall → Prop
  | gets => (argSlot ls opdata 0).toNat ≤ 0x80040000
  | read | write => (argSlot ls opdata 1).toNat % lsSize + (argSlot ls opdata 2).toNat ≤ lsSize
  | readv | writev => VecInLs b ls (lsPtr (argSlot ls opdata 1)) (intOf (argSlot ls opdata 2))

/-! ## Pointers and sizes -/

theorem lsPtr_eq (off : UInt32) : lsPtr off = off.toNat % lsSize := by
  rw [lsPtr, UInt32.toNat_and]
  exact Nat.and_two_pow_sub_one_eq_mod off.toNat 18

/-- The size that `gets` passes: from the pointer to the end of local store, unless that wraps. -/
theorem gets_size (slot : UInt32) : intOf (0x40000 - slot) =
    if slot.toNat ≤ 0x80040000 then 0x40000 - (slot.toNat : Int) else 0x40000 - (slot.toNat : Int) + 2 ^ 32 := by
  have hslot := slot.toNat_lt
  have hsize : (0x40000 - slot : UInt32).toNat = (2 ^ 32 - slot.toNat + 0x40000) % 2 ^ 32 :=
    UInt32.toNat_sub 0x40000 slot
  unfold intOf
  rw [hsize]
  split <;> split <;> omega

/-- It fits exactly if the pointer is inside local store, or the size is not positive. -/
theorem gets_fits (slot : UInt32) :
    (∀ r ∈ (HostCall.fgets (lsPtr slot) (intOf (0x40000 - slot))).regions, r.InLs) ↔
      slot.toNat ≤ 0x80040000 := by
  have hslot := slot.toNat_lt
  rw [regions_fgets, gets_size, lsPtr_eq]
  by_cases hle : slot.toNat ≤ 0x80040000
  · rw [if_pos hle]
    refine iff_of_true (fun r hr => ?_) hle
    split at hr
    · cases hr
    · obtain rfl := List.mem_singleton.mp hr
      unfold Region.InLs lsSize
      simp only
      omega
  · rw [if_neg hle]
    refine iff_of_false (fun h => ?_) hle
    have hpos : ¬0x40000 - (slot.toNat : Int) + 2 ^ 32 ≤ 0 := by omega
    rw [if_neg hpos, List.forall_mem_singleton] at h
    unfold Region.InLs lsSize at h
    simp only at h
    omega

variable {b ls opdata}

/-! ## The array of buffers -/

theorem sumOf_succ (lsvec n : Nat) :
    sumOf b ls lsvec (n + 1) = (sumOf b ls lsvec n + (vecAt ls lsvec n).size) % sizeTSpace b := by
  unfold sumOf
  rw [List.range_succ, List.map_append, List.sum_append, Nat.mod_add_mod]
  simp

theorem accepted_succ {lsvec n : Nat} :
    Accepted b ls lsvec (n + 1) ↔ Accepted b ls lsvec n ∧ sumOf b ls lsvec (n + 1) ≤ spuSsizeMax := by
  unfold Accepted
  exact Nat.forall_lt_succ_right

/-- The loop reads the entries up to the first that is not accepted. -/
theorem mem_convFrom {lsvec n i : Nat} (hi : Accepted b ls lsvec i) {r : Region} :
    r ∈ (convFrom b ls lsvec n i (sumOf b ls lsvec i)).1 ↔
      ∃ j, i ≤ j ∧ j < i + n ∧ Accepted b ls lsvec j ∧ r = entryAt lsvec j := by
  induction n generalizing i with
  | zero =>
    refine iff_of_false (fun h => nomatch h) fun h => ?_
    obtain ⟨j, hij, hj, -⟩ := h
    omega
  | succ n ih =>
    rw [convFrom, ← sumOf_succ]
    by_cases hmax : spuSsizeMax < sumOf b ls lsvec (i + 1)
    · simp only [if_pos hmax, List.mem_singleton]
      constructor
      · intro hr
        exact ⟨i, Nat.le_refl i, by omega, hi, hr⟩
      · intro ⟨j, hij, _, hj, hr⟩
        have hle : j ≤ i := by
          by_contra hlt
          exact absurd (hj i (Nat.lt_of_not_le hlt)) (Nat.not_le_of_lt hmax)
        rw [hr, Nat.le_antisymm hle hij]
    · simp only [if_neg hmax, List.mem_cons]
      rw [ih (accepted_succ.mpr ⟨hi, Nat.le_of_not_lt hmax⟩)]
      constructor
      · rintro (hr | ⟨j, hij, hj, hacc, hr⟩)
        · exact ⟨i, Nat.le_refl i, by omega, hi, hr⟩
        · exact ⟨j, by omega, by omega, hacc, hr⟩
      · intro ⟨j, hij, hj, hacc, hr⟩
        rcases Nat.eq_or_lt_of_le hij with rfl | hlt
        · exact .inl hr
        · exact .inr ⟨j, hlt, by omega, hacc, hr⟩

/-- The loop accepts all the entries or none. -/
theorem convFrom_snd {lsvec n i : Nat} (hi : Accepted b ls lsvec i) {vec : List Region} :
    (convFrom b ls lsvec n i (sumOf b ls lsvec i)).2 = some vec ↔
      Accepted b ls lsvec (i + n) ∧ vec = (List.range' i n).map (vecAt ls lsvec) := by
  induction n generalizing i vec with
  | zero =>
    show some [] = some vec ↔ _
    rw [Option.some_inj, eq_comm]
    exact (and_iff_right hi).symm
  | succ n ih =>
    rw [convFrom, ← sumOf_succ]
    by_cases hmax : spuSsizeMax < sumOf b ls lsvec (i + 1)
    · simp only [if_pos hmax]
      refine iff_of_false (fun h => nomatch h) fun h => ?_
      exact absurd (h.1 i (by omega)) (Nat.not_le_of_lt hmax)
    · simp only [if_neg hmax, Option.map_eq_some_iff]
      have hrest (vec : List Region) := @ih (i + 1) (accepted_succ.mpr ⟨hi, Nat.le_of_not_lt hmax⟩) vec
      rw [show i + (n + 1) = i + 1 + n by omega, List.range'_succ]
      constructor
      · intro ⟨rest, hconv, hvec⟩
        obtain ⟨hacc, rfl⟩ := (hrest rest).mp hconv
        exact ⟨hacc, hvec.symm⟩
      · intro ⟨hacc, hvec⟩
        exact ⟨_, (hrest _).mpr ⟨hacc, rfl⟩, hvec.symm⟩

/-- What is read and handed to the host for an array lies inside local store exactly if the array does, as far
as it is read, and the buffers do, if they are accepted. -/
theorem vec_inLs {lsvec : Nat} {count : Int} {host : List Region → HostCall}
    (hhost : ∀ vec, (host vec).regions = if count < 0 then [] else vec) :
    (Access.mk (checkConvSpuvec b ls lsvec count).1
      ((checkConvSpuvec b ls lsvec count).2.map host)).InLocalStore ↔ VecInLs b ls lsvec count := by
  unfold Access.InLocalStore VecInLs checkConvSpuvec
  by_cases hmax : count > iovMax
  · rw [if_pos hmax]
    refine iff_of_true ⟨fun r hr => (nomatch hr), fun call hcall => (nomatch hcall)⟩ fun hle => ?_
    exact absurd hle (Int.not_le.mpr hmax)
  · rw [if_neg hmax, imp_iff_right (Int.not_lt.mp hmax)]
    have hzero : Accepted b ls lsvec 0 := fun i hi => absurd hi (Nat.not_lt_zero i)
    have hread (r : Region) : r ∈ (convFrom b ls lsvec count.toNat 0 0).1 ↔
        ∃ j, 0 ≤ j ∧ j < 0 + count.toNat ∧ Accepted b ls lsvec j ∧ r = entryAt lsvec j := mem_convFrom hzero
    have hconv (vec : List Region) : (convFrom b ls lsvec count.toNat 0 0).2 = some vec ↔
        Accepted b ls lsvec (0 + count.toNat) ∧ vec = (List.range' 0 count.toNat).map (vecAt ls lsvec) :=
      convFrom_snd hzero
    rw [Nat.zero_add] at hread hconv
    apply and_congr
    · constructor
      · intro h i hi hacc
        exact h _ ((hread _).mpr ⟨i, Nat.zero_le i, hi, hacc, rfl⟩)
      · intro h r hr
        obtain ⟨i, -, hi, hacc, rfl⟩ := (hread r).mp hr
        exact h i hi hacc
    · constructor
      · intro h hacc i hi
        have hvec := (hconv _).mpr ⟨hacc, rfl⟩
        have hcount : ¬count < 0 := by omega
        apply h _ (Option.map_eq_some_iff.mpr ⟨_, hvec, rfl⟩)
        rw [hhost, if_neg hcount]
        exact List.mem_map.mpr ⟨i, List.mem_range'_1.mpr ⟨Nat.zero_le i, by omega⟩, rfl⟩
      · intro h call hcall r hr
        obtain ⟨vec, hvec, rfl⟩ := Option.map_eq_some_iff.mp hcall
        obtain ⟨hacc, rfl⟩ := (hconv vec).mp hvec
        rw [hhost] at hr
        split at hr
        · cases hr
        · obtain ⟨i, hi, rfl⟩ := List.mem_map.mp hr
          have hlt := (List.mem_range'_1.mp hi).2
          exact h hacc i (by omega)

/-- One buffer, without an array. -/
theorem single_inLs {call : HostCall} {r : Region} (h : call.regions = [r]) :
    (Access.mk [] (some call)).InLocalStore ↔ r.InLs := by
  constructor
  · intro hin
    exact hin.2 call rfl r (by rw [h]; exact List.mem_cons_self)
  · intro hr
    refine ⟨fun r' hr' => (by cases hr'), fun call' hcall' r' hr' => ?_⟩
    obtain rfl := Option.some.inj hcall'
    rw [h] at hr'
    obtain rfl := List.mem_singleton.mp hr'
    exact hr

/-- **Buffers**, for every word that an SPE program passes and everything that is in its local store: exactly
for these arguments, nothing outside of local store is read or handed to the host. -/
theorem inLocalStore_iff (call : BufferCall) (b : Build) (ls : Nat → UInt8) (opdata : UInt32) :
    (call.access b ls opdata).InLocalStore ↔ call.Bounded b ls opdata := by
  cases call with
  | gets =>
    show _ ↔ (argSlot ls opdata 0).toNat ≤ 0x80040000
    rw [← gets_fits]
    constructor
    · intro h
      exact h.2 _ rfl
    · intro h
      refine ⟨fun r hr => (by cases hr), fun call hcall => ?_⟩
      obtain rfl := Option.some.inj hcall
      exact h
  | read =>
    refine (single_inLs rfl).trans ?_
    unfold Region.InLs
    rw [lsPtr_eq]
    rfl
  | write =>
    refine (single_inLs rfl).trans ?_
    unfold Region.InLs
    rw [lsPtr_eq]
    rfl
  | readv => exact vec_inLs fun vec => rfl
  | writev => exact vec_inLs fun vec => rfl

/-- A call of `gets` for a buffer at `0x3fff0`, which is also `0xfffffff0`. -/
def getsWrapped : Nat → UInt8 := fun off => [0xff, 0xff, 0xff, 0xf0].getD off 0

/-- For the second of them, the host is given more than all of local store. -/
theorem buffers_escape : ¬∀ (call : BufferCall) (b : Build) (ls : Nat → UInt8) (opdata : UInt32),
    (call.access b ls opdata).InLocalStore := by
  intro h
  have hregion := (h .gets .ppc64 getsWrapped 0).2 _ rfl
    (⟨lsPtr 0xfffffff0, (intOf (0x40000 - 0xfffffff0)).toNat⟩ : Region) (by decide)
  revert hregion
  unfold Region.InLs
  decide

end LibSpe2.LibCall
