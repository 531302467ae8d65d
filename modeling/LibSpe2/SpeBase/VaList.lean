import LibSpe2.SpeBase.Format
import LibSpe2.SpeBase.LibCall
import Mathlib.Logic.Function.Iterate

/-!
# Where arguments are fetched (`spebase/default_c99_handler.c`)

An SPE's `va_list` goes through the area in which the registers are saved and, at `caller_stack`, jumps over
the 32 bytes of the link area to the arguments on the caller's stack. `GET_LS_VARG` looks for this place after
each argument it has read, and by the bits of the addresses that are in local store.

* `SpeVaList`, `fetches` — the list, and the places in local store that a sequence of arguments is read from.
* `abiSlot` — the places where the ABI puts them.
* `SpeVaList.reach` — the number of arguments for which the two are the same.

Main result:
* `fetches_right_iff` — this number is exact.
-/

namespace LibSpe2.Format

open LibCall (Region)

/-! ## The list -/

/-- `struct spe_va_list`. -/
structure SpeVaList where
  nextArg : UInt32
  callerStack : UInt32

namespace SpeVaList

variable (v : SpeVaList)

/-- `_off & LS_ADDR_MASK`. -/
def lsOffset (off : UInt32) : UInt32 := off &&& 0x3ffff

/-- What `GET_LS_VARG` leaves in the list. -/
def advance : SpeVaList :=
  let nextArg := v.nextArg + 16
  { v with nextArg := if lsOffset nextArg = lsOffset v.callerStack then nextArg + 32 else nextArg }

/-- Quadwords from `next_arg` to `caller_stack`. -/
def distance : Nat := (v.callerStack.toNat - v.nextArg.toNat) / 16

/-- The arguments that are found. -/
def reach : Nat :=
  if v.distance = 0 then 0
  else if v.distance ≤ 16384 then v.distance + 16382
  else (v.distance - 1) % 16384 + 1

end SpeVaList

/-- The places that a sequence of `GET_LS_VARG` reads. -/
def fetches : SpeVaList → List Push → List Region
  | _, [] => []
  | v, x :: xs => ⟨(SpeVaList.lsOffset v.nextArg).toNat, x.fetchSize⟩ :: fetches v.advance xs

/-- Where the ABI puts the remaining argument number `k`: in consecutive quadwords, but for the link area at
`caller_stack`. -/
def abiSlot (v : SpeVaList) (k : Nat) : Nat :=
  let slot := v.nextArg.toNat + 16 * k
  (if slot < v.callerStack.toNat then slot else slot + 32) % lsSize

/-- Every argument is read where the ABI puts it. -/
def FetchedRight (v : SpeVaList) (xs : List Push) : Prop :=
  ∀ k x, xs[k]? = some x → (fetches v xs)[k]? = some (⟨abiSlot v k, x.fetchSize⟩ : Region)

/-! ## Offsets in local store -/

namespace SpeVaList

variable {v : SpeVaList} {k : Nat}

theorem lsOffset_toNat (off : UInt32) : (lsOffset off).toNat = off.toNat % lsSize := by
  rw [lsOffset, UInt32.toNat_and]
  exact Nat.and_two_pow_sub_one_eq_mod off.toNat 18

theorem lsOffset_eq {a b : UInt32} : lsOffset a = lsOffset b ↔ a.toNat % lsSize = b.toNat % lsSize := by
  rw [← UInt32.toNat_inj, lsOffset_toNat, lsOffset_toNat]

theorem add_mod_lsSize (a b : UInt32) : (a + b).toNat % lsSize = (a.toNat + b.toNat) % lsSize := by
  rw [UInt32.toNat_add]
  exact Nat.mod_mod_of_dvd _ (by decide)

@[simp] theorem advance_callerStack : v.advance.callerStack = v.callerStack := rfl

@[simp] theorem iterate_callerStack : (advance^[k] v).callerStack = v.callerStack := by
  induction k generalizing v with
  | zero => rfl
  | succ k ih => rw [Function.iterate_succ_apply, ih, advance_callerStack]

/-- `next_arg` in local store. -/
def next (v : SpeVaList) : Nat := v.nextArg.toNat % lsSize

theorem next_advance : v.advance.next = if (v.next + 16) % lsSize = v.callerStack.toNat % lsSize then
    (v.next + 48) % lsSize else (v.next + 16) % lsSize := by
  have hstep : (v.nextArg + 16).toNat % lsSize = (v.next + 16) % lsSize := by
    rw [add_mod_lsSize, next, Nat.mod_add_mod]
    rfl
  have hskip : (v.nextArg + 16 + 32).toNat % lsSize = (v.next + 48) % lsSize := by
    rw [add_mod_lsSize, ← Nat.mod_add_mod, hstep, Nat.mod_add_mod]
    rfl
  show (if _ then _ else _ : UInt32).toNat % lsSize = _
  simp only [lsOffset_eq, hstep]
  split
  · exact hskip
  · exact hstep

/-- Up to the place that matches `caller_stack`, arguments are read from consecutive quadwords. -/
theorem next_iterate {e : Nat}
    (hlast : ∀ j, 0 < j → j < e → (v.next + 16 * j) % lsSize ≠ v.callerStack.toNat % lsSize)
    (hk : k < e) : (advance^[k] v).next = (v.next + 16 * k) % lsSize := by
  induction k with
  | zero => exact (Nat.mod_mod _ _).symm
  | succ k ih =>
    have hne := hlast (k + 1) (Nat.succ_pos k) hk
    rw [Nat.mul_succ, ← Nat.add_assoc] at hne ⊢
    rw [Function.iterate_succ_apply', next_advance, iterate_callerStack, ih (Nat.lt_of_succ_lt hk), Nat.mod_add_mod,
      if_neg hne]

/-- At that place the link area is skipped. -/
theorem next_iterate_skip {e : Nat} (he : 0 < e)
    (hlast : ∀ j, 0 < j → j < e → (v.next + 16 * j) % lsSize ≠ v.callerStack.toNat % lsSize)
    (hmatch : (v.next + 16 * e) % lsSize = v.callerStack.toNat % lsSize) :
    (advance^[e] v).next = (v.next + 16 * e + 32) % lsSize := by
  obtain ⟨k, rfl⟩ : ∃ k, e = k + 1 := ⟨e - 1, (Nat.succ_pred_eq_of_pos he).symm⟩
  rw [Nat.mul_succ, ← Nat.add_assoc] at hmatch ⊢
  rw [Function.iterate_succ_apply', next_advance, iterate_callerStack, next_iterate hlast (Nat.lt_succ_self k),
    Nat.mod_add_mod, Nat.mod_add_mod, if_pos hmatch]

end SpeVaList

/-! ## The sequence -/

open SpeVaList

variable {v : SpeVaList} {xs : List Push} {k : Nat}

theorem fetches_getElem (v : SpeVaList) (xs : List Push) (k : Nat) :
    (fetches v xs)[k]? = xs[k]?.map fun x => (⟨(advance^[k] v).next, x.fetchSize⟩ : Region) := by
  induction xs generalizing v k with
  | nil => rfl
  | cons x xs ih =>
    cases k with
    | zero =>
      show some (⟨(lsOffset v.nextArg).toNat, x.fetchSize⟩ : Region) = _
      rw [lsOffset_toNat]
      rfl
    | succ k => exact ih v.advance k

theorem fetchedRight_iff : FetchedRight v xs ↔ ∀ k < xs.length, (advance^[k] v).next = abiSlot v k := by
  unfold FetchedRight
  constructor
  · intro h k hk
    have hx := h k _ (List.getElem?_eq_getElem hk)
    rw [fetches_getElem, List.getElem?_eq_getElem hk] at hx
    exact congrArg Region.base (Option.some.inj hx)
  · intro h k x hx
    rw [fetches_getElem, hx, ← h k (List.getElem?_eq_some_iff.mp hx).1]
    rfl

/-- The place to which the masked comparison reacts first, seen from a list that is not at `caller_stack`. -/
def SpeVaList.first (v : SpeVaList) : Nat := (v.distance - 1) % 16384 + 1

theorem SpeVaList.first_pos (v : SpeVaList) : 0 < v.first := Nat.succ_pos _

section

variable (haligned : 16 ∣ v.nextArg.toNat ∧ 16 ∣ v.callerStack.toNat)
  (hle : v.nextArg.toNat ≤ v.callerStack.toNat)

include haligned hle

theorem callerStack_eq : v.callerStack.toNat = v.nextArg.toNat + 16 * v.distance := by
  unfold distance
  omega

theorem first_last (j : Nat) (hpos : 0 < j) (hj : j < v.first) :
    (v.next + 16 * j) % lsSize ≠ v.callerStack.toNat % lsSize := by
  have hstack := callerStack_eq haligned hle
  unfold first at hj
  unfold next lsSize
  omega

theorem first_match (hd : v.distance ≠ 0) :
    (v.next + 16 * v.first) % lsSize = v.callerStack.toNat % lsSize := by
  have hstack := callerStack_eq haligned hle
  unfold first next lsSize
  omega

/-- The arguments before the first jump. -/
theorem next_before (hk : k < v.first) :
    (advance^[k] v).next = (v.nextArg.toNat + 16 * k) % lsSize := by
  rw [next_iterate (first_last haligned hle) hk, next, Nat.mod_add_mod]

/-- The first argument behind it. -/
theorem next_at (hd : v.distance ≠ 0) :
    (advance^[v.first] v).next = (v.nextArg.toNat + 16 * v.first + 32) % lsSize := by
  rw [next_iterate_skip v.first_pos (first_last haligned hle) (first_match haligned hle hd), next,
    Nat.add_assoc, Nat.mod_add_mod, Nat.add_assoc]

theorem second_last (hd : v.distance ≠ 0) (j : Nat) (hpos : 0 < j) (hj : j < 16382) :
    ((advance^[v.first] v).next + 16 * j) % lsSize ≠ (advance^[v.first] v).callerStack.toNat % lsSize := by
  have hmatch := first_match haligned hle hd
  rw [iterate_callerStack, next_at haligned hle hd, ← hmatch]
  unfold next lsSize
  omega

/-- The arguments between the jumps. -/
theorem next_between (hd : v.distance ≠ 0) (hfirst : v.first ≤ k) (hk : k < v.first + 16382) :
    (advance^[k] v).next = (v.nextArg.toNat + 16 * k + 32) % lsSize := by
  obtain ⟨j, rfl⟩ := Nat.exists_eq_add_of_le' hfirst
  rw [Function.iterate_add_apply, next_iterate (second_last haligned hle hd) (by omega), next_at haligned hle hd,
    Nat.mod_add_mod]
  congr 1
  omega

/-- Once around, the list comes to `caller_stack` for the second time, and jumps again. -/
theorem next_again (hd : v.distance ≠ 0) :
    (advance^[v.first + 16382] v).next = (v.nextArg.toNat + 16 * (v.first + 16382) + 64) % lsSize := by
  have hmatch : ((advance^[v.first] v).next + 16 * 16382) % lsSize =
      (advance^[v.first] v).callerStack.toNat % lsSize := by
    rw [iterate_callerStack, next_at haligned hle hd, ← first_match haligned hle hd]
    unfold next lsSize
    omega
  rw [Nat.add_comm, Function.iterate_add_apply,
    next_iterate_skip (by decide) (second_last haligned hle hd) hmatch, next_at haligned hle hd]
  unfold lsSize
  omega

theorem abiSlot_before (hk : k < v.distance) : abiSlot v k = (v.nextArg.toNat + 16 * k) % lsSize := by
  have hstack := callerStack_eq haligned hle
  have hslot : v.nextArg.toNat + 16 * k < v.callerStack.toNat := by omega
  show (if _ then _ else _) % lsSize = _
  rw [if_pos hslot]

theorem abiSlot_behind (hk : v.distance ≤ k) : abiSlot v k = (v.nextArg.toNat + 16 * k + 32) % lsSize := by
  have hstack := callerStack_eq haligned hle
  have hslot : ¬ v.nextArg.toNat + 16 * k < v.callerStack.toNat := by omega
  show (if _ then _ else _) % lsSize = _
  rw [if_neg hslot]

/-- **Fetching arguments**: exactly the first `reach` of them are read where the ABI puts them. -/
theorem fetches_right_iff (xs : List Push) : FetchedRight v xs ↔ xs.length ≤ v.reach := by
  rw [fetchedRight_iff]
  unfold reach
  split
  · next hd =>
    -- the list is at `caller_stack` already, and nothing looks before the first argument is read
    rw [Nat.le_zero]
    constructor
    · intro h
      by_contra hlen
      have hfirst := h 0 (Nat.pos_of_ne_zero hlen)
      rw [abiSlot_behind haligned hle (by omega)] at hfirst
      change v.nextArg.toNat % lsSize = _ at hfirst
      unfold lsSize at hfirst
      omega
    · intro h k hk
      omega
  next hd =>
  split
  · next hnear =>
    have hfirst : v.first = v.distance := by
      unfold first
      omega
    constructor
    · intro h
      by_contra hlen
      have hagain := h (v.first + 16382) (by omega)
      rw [next_again haligned hle hd, abiSlot_behind haligned hle (by omega)] at hagain
      unfold lsSize at hagain
      omega
    · intro h k hk
      by_cases hbefore : k < v.first
      · rw [next_before haligned hle hbefore, abiSlot_before haligned hle (by omega)]
      · rw [next_between haligned hle hd (by omega) (by omega), abiSlot_behind haligned hle (by omega)]
  · next hfar =>
    -- the masked comparison reacts to a quadword that only looks like `caller_stack`
    have hfirst : v.first < v.distance := by
      unfold first
      omega
    constructor
    · intro h
      by_contra hlen
      have hat := h v.first (by unfold first; omega)
      rw [next_at haligned hle hd, abiSlot_before haligned hle hfirst] at hat
      unfold lsSize at hat
      omega
    · intro h k hk
      have hk' : k < v.first := Nat.lt_of_lt_of_le hk h
      rw [next_before haligned hle hk', abiSlot_before haligned hle (by omega)]

end

/-- A `va_list` of two arguments in registers. -/
def twoInRegisters : SpeVaList := ⟨0x3000, 0x3020⟩

/-- Three arguments are found, the last one behind the link area. -/
theorem fetches_right_three : FetchedRight twoInRegisters [.int, .ptr, .double] :=
  (fetches_right_iff (by decide) (by decide) _).mpr (by decide)

/-- A list whose arguments in registers are used up: the argument of `%d` is read from the link area. -/
theorem fetches_wrong : ¬ ∀ (v : SpeVaList), 16 ∣ v.nextArg.toNat ∧ 16 ∣ v.callerStack.toNat →
    v.nextArg.toNat ≤ v.callerStack.toNat → ∀ (b : Build) (nrVargs : Nat) (p : Ptr) (rc : Int) (xs : List Push),
    parsePrintfFormat b nrVargs p = some (rc, xs) → FetchedRight v xs := by
  intro h
  have hwrong := h ⟨0x3000, 0x3000⟩ (by decide) (by decide) .ppc64 3 (cString [ch '%', ch 'd'] []) 0 [.int]
    (by decide)
  have hfirst := fetchedRight_iff.mp hwrong 0 (by decide)
  exact absurd hfirst (by decide)

end LibSpe2.Format
