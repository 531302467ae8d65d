import Mathlib.Data.Nat.Bitwise
import Mathlib.Data.UInt

/-!
# Words that are packed

Several small numbers in one word: each is shifted to its place and the parts are put together with `|||`, or
found again with a shift and a mask.

* `toNat_shiftLeft`, `toNat_shiftRight`, `toNat_and_low` — the operations as arithmetic.
* `or_eq_add` — parts that do not overlap.
* `and_or_eq_zero` — a mask of several bits.
-/

namespace Words

theorem or_eq_add {a b k : ℕ} (ha : 2 ^ k ∣ a) (hb : b < 2 ^ k) : a ||| b = a + b := by
  obtain ⟨m, rfl⟩ := ha
  exact (Nat.two_pow_add_eq_or_of_lt hb m).symm

variable {x a b k : UInt32}

theorem toNat_shiftLeft (hk : k.toNat < 32) :
    (x <<< k).toNat = 2 ^ k.toNat * (x.toNat % 2 ^ (32 - k.toNat)) := by
  rw [UInt32.toNat_shiftLeft, Nat.mod_eq_of_lt hk, Nat.shiftLeft_eq, Nat.mul_comm]
  conv_lhs => rw [← Nat.add_sub_cancel' hk.le, Nat.pow_add, Nat.mul_mod_mul_left]

theorem toNat_shiftRight (hk : k.toNat < 32) : (x >>> k).toNat = x.toNat / 2 ^ k.toNat := by
  rw [UInt32.toNat_shiftRight, Nat.mod_eq_of_lt hk, Nat.shiftRight_eq_div_pow]

/-- A mask of the low bits. -/
theorem toNat_and_low {m : UInt32} {n : ℕ} (hm : m.toNat = 2 ^ n - 1) : (x &&& m).toNat = x.toNat % 2 ^ n := by
  rw [UInt32.toNat_and, hm, Nat.and_two_pow_sub_one_eq_mod]

/-- No bit of either mask. -/
theorem and_or_eq_zero : x &&& (a ||| b) = 0 ↔ x &&& a = 0 ∧ x &&& b = 0 := by
  have hdistrib : x &&& (a ||| b) = x &&& a ||| x &&& b := UInt32.toBitVec_inj.mp BitVec.and_or_distrib_left
  rw [hdistrib, UInt32.or_eq_zero_iff]

theorem and_or_ne_zero : x &&& (a ||| b) ≠ 0 ↔ x &&& a ≠ 0 ∨ x &&& b ≠ 0 := by
  rw [ne_eq, and_or_eq_zero, not_and_or]

end Words
