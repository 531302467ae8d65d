import LibSpe2.Data.Mapped
import Mathlib.Algebra.Order.Ring.Int

/-!
# Values that are packed one behind the other

Values of several sizes are written to a memory, each behind the one before it, and read again by a reader that
knows their sizes.

* `Layout` — where a value of a size goes, and where the next one may start.
* `Layout.put`, `Layout.get` — writing the values, and reading them.
* `signed`, `signedDigits` — numbers in two's complement.

Main results:
* `Layout.get_put` — what was written is read.
* `signed_widen`, `number_widen` — a number is the same with more digits.
-/

namespace Mapped

/-! ## Layouts -/

structure Layout where
  /-- Where a value of this size goes, from an offset on. -/
  place : (off size : ℕ) → ℕ
  /-- Where the values behind it start. -/
  next : (off size : ℕ) → ℕ

namespace Layout

variable {L L' : Layout} {m : ℕ → UInt8} {off size a : ℕ} {xs : List (List UInt8)}

/-- A value of this size lies between the offset and what follows. -/
def Fits (L : Layout) (size : ℕ) : Prop := ∀ off, off ≤ L.place off size ∧ L.place off size + size ≤ L.next off size

/-- The values, written from an offset on. -/
def put (L : Layout) (m : ℕ → UInt8) (off : ℕ) : List (List UInt8) → ℕ → UInt8
  | [] => m
  | x :: xs => L.put (Mapped.put m (L.place off x.length) x) (L.next off x.length) xs

/-- Values of the given sizes, read from an offset on. -/
def get (L : Layout) (m : ℕ → UInt8) (off : ℕ) : List ℕ → List (List UInt8)
  | [] => []
  | n :: ns => bytesAt m n (L.place off n) :: L.get m (L.next off n) ns

/-- What is before the offset is not written to. -/
theorem put_before (h : ∀ x ∈ xs, L.Fits x.length) (ha : a < off) : L.put m off xs a = m a := by
  induction xs generalizing m off with
  | nil => rfl
  | cons x xs ih =>
    obtain ⟨hplace, hnext⟩ := h x List.mem_cons_self off
    rw [put, ih (fun y hy => h y (List.mem_cons_of_mem _ hy)) (by omega)]
    exact put_outside (.inl (by omega))

/-- **What was written is read.** -/
theorem get_put (h : ∀ x ∈ xs, L.Fits x.length) : L.get (L.put m off xs) off (xs.map List.length) = xs := by
  induction xs generalizing m off with
  | nil => rfl
  | cons x xs ih =>
    have hxs : ∀ y ∈ xs, L.Fits y.length := fun y hy => h y (List.mem_cons_of_mem _ hy)
    obtain ⟨hplace, hnext⟩ := h x List.mem_cons_self off
    -- the values behind it leave the first one as it is
    have hfirst : bytesAt (L.put m off (x :: xs)) x.length (L.place off x.length) = x := by
      have hbefore : ∀ i < x.length, L.put m off (x :: xs) (L.place off x.length + i) =
          Mapped.put m (L.place off x.length) x (L.place off x.length + i) := by
        intro i hi
        rw [put, put_before hxs (by omega)]
      rw [bytesAt_congr hbefore]
      have hput : bytesAt (Mapped.put m (L.place off x.length) x) x.length (L.place off x.length + 0) =
          (x.drop 0).take x.length := bytesAt_put (by omega)
      simpa using hput
    rw [List.map_cons, get, hfirst]
    congr 1
    exact ih hxs

/-- Two layouts that agree on the sizes of the values read the same. -/
theorem get_congr {ns : List ℕ} (h : ∀ n ∈ ns, ∀ off, L.place off n = L'.place off n ∧ L.next off n = L'.next off n) :
    L.get m off ns = L'.get m off ns := by
  induction ns generalizing off with
  | nil => rfl
  | cons n ns ih =>
    obtain ⟨hplace, hnext⟩ := h n List.mem_cons_self off
    rw [get, get, hplace, hnext, ih fun k hk => h k (List.mem_cons_of_mem _ hk)]

end Layout

/-! ## Two's complement -/

/-- The number that these digits are in two's complement. -/
def signed (bs : List UInt8) : ℤ := (number bs : ℤ).bmod (256 ^ bs.length)

/-- The digits of a number in two's complement. -/
def signedDigits (n : ℕ) (v : ℤ) : List UInt8 := digits n (v % (256 ^ n : ℕ)).toNat

@[simp] theorem length_signedDigits (n : ℕ) (v : ℤ) : (signedDigits n v).length = n := length_digits ..

section

variable {n : ℕ} {v : ℤ} {bs : List UInt8}

theorem signed_signedDigits (hlo : -(256 ^ n : ℤ) ≤ 2 * v) (hhi : 2 * v < 256 ^ n) : signed (signedDigits n v) = v := by
  have hpos : (0 : ℤ) < (256 ^ n : ℕ) := Int.natCast_pos.mpr (Nat.pow_pos (by decide))
  have hnonneg := Int.emod_nonneg v hpos.ne'
  have hlt := Int.emod_lt_of_pos v hpos
  have hnum : number (signedDigits n v) = (v % (256 ^ n : ℕ)).toNat := number_digits (by omega)
  rw [signed, length_signedDigits, hnum, Int.toNat_of_nonneg hnonneg, Int.emod_bmod]
  apply Int.bmod_eq_of_le_mul_two <;> push_cast <;> omega

theorem signed_bounds (bs : List UInt8) : -(256 ^ bs.length : ℤ) ≤ 2 * signed bs ∧ 2 * signed bs < 256 ^ bs.length := by
  have hpos : 0 < 256 ^ bs.length := Nat.pow_pos (by decide)
  have hlo := Int.le_bmod (x := (number bs : ℤ)) hpos
  have hhi := Int.bmod_lt (x := (number bs : ℤ)) hpos
  push_cast at hlo hhi
  unfold signed
  omega

/-- The sign is extended. -/
theorem signed_widen (h : bs.length ≤ n) : signed (signedDigits n (signed bs)) = signed bs := by
  obtain ⟨hlo, hhi⟩ := signed_bounds bs
  have hle : (256 ^ bs.length : ℤ) ≤ 256 ^ n := pow_le_pow_right₀ (by decide) h
  exact signed_signedDigits (by omega) (by omega)

/-- Zeros are put before the digits. -/
theorem number_widen (h : bs.length ≤ n) : number (digits n (number bs)) = number bs :=
  number_digits (lt_of_lt_of_le (number_lt bs) (Nat.pow_le_pow_right (by decide) h))

/-- The last digits are those of a shorter number. -/
theorem drop_digits (k n v : ℕ) : (digits (k + n) v).drop k = digits n v := by
  induction n generalizing v with
  | zero => exact List.drop_eq_nil_of_le (by simp)
  | succ n ih => rw [← Nat.add_assoc, digits, digits, List.drop_append_of_le_length (by simp), ih]

end

end Mapped
