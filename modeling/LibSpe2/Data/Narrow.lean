import Mathlib.Data.Int.Order.Basic
import Mathlib.Data.UInt
import Mathlib.Order.Basic

/-!
# Differences that are narrowed

A difference is compared with zero after it has been reduced to a signed number of `2 * h` values.

* `Near` — the differences of which both signs survive, and `near_iff`.
* `toInt_narrow` — an unsigned difference of 64 bits, stored to a signed number of 32.
-/

namespace Narrow

/-- Zero, or near to a multiple of `2 * h` from above in absolute value. -/
def Near (h : Nat) (d : Int) : Prop := d = 0 ∨ 0 < d.natAbs % (2 * h) ∧ d.natAbs % (2 * h) < h

instance (h : Nat) (d : Int) : Decidable (Near h d) := inferInstanceAs (Decidable (_ ∨ _))

variable {h : Nat} {d : Int}

theorem near_neg : Near h (-d) ↔ Near h d := by
  unfold Near
  rw [Int.natAbs_neg, neg_eq_zero]

/-- What is left of a positive difference. -/
theorem sign_bmod_natCast (hh : 0 < h) (n : Nat) :
    ((n : Int).bmod (2 * h)).sign = 1 ↔ 0 < n % (2 * h) ∧ n % (2 * h) < h := by
  have hlt : n % (2 * h) < 2 * h := Nat.mod_lt _ (by omega)
  rw [Int.sign_eq_one_iff_pos, Int.bmod_def, ← Int.natCast_mod]
  split
  · omega
  · omega

/-- Where it is positive, what is left of the negative one is not. -/
theorem bmod_neg_natCast {n : Nat} (hpos : 0 < n % (2 * h)) (hlt : n % (2 * h) < h) :
    (-(n : Int)).bmod (2 * h) = -(n : Int).bmod (2 * h) := by
  rw [Int.neg_bmod, if_neg]
  intro hdvd
  have hdvd : 2 * h ∣ 2 * n := by exact_mod_cast hdvd
  have hn : h ∣ n := Nat.dvd_of_mul_dvd_mul_left (by omega) hdvd
  have hmod : h ∣ n % (2 * h) := (Nat.dvd_mod_iff (Nat.dvd_mul_left h 2)).mpr hn
  exact absurd (Nat.le_of_dvd hpos hmod) (by omega)

theorem near_natCast_iff (hh : 0 < h) (n : Nat) :
    Near h n ↔ ((n : Int).bmod (2 * h)).sign = (n : Int).sign ∧
      ((-(n : Int)).bmod (2 * h)).sign = (-(n : Int)).sign := by
  rcases Nat.eq_zero_or_pos n with rfl | hn
  · simp [Near]
  have hsign : (n : Int).sign = 1 := Int.sign_eq_one_of_pos (by omega)
  have hnear : Near h n ↔ 0 < n % (2 * h) ∧ n % (2 * h) < h := by
    unfold Near
    rw [Int.natAbs_natCast]
    exact or_iff_right (by omega)
  rw [hnear, Int.sign_neg, hsign, sign_bmod_natCast hh]
  constructor
  · intro hr
    refine ⟨hr, ?_⟩
    rw [bmod_neg_natCast hr.1 hr.2, Int.sign_neg, (sign_bmod_natCast hh n).mpr hr]
  · exact And.left

/-- **Both signs survive** if and only if the difference is near. -/
theorem near_iff (hh : 0 < h) :
    Near h d ↔ (d.bmod (2 * h)).sign = d.sign ∧ ((-d).bmod (2 * h)).sign = (-d).sign := by
  obtain ⟨n, rfl | rfl⟩ := Int.eq_nat_or_neg d
  · exact near_natCast_iff hh n
  · rw [near_neg, near_natCast_iff hh, Int.neg_neg]
    exact and_comm

/-- A difference that is less than `2 * h` is near if it is less than `h`. -/
theorem near_iff_lt (hd : d.natAbs < 2 * h) : Near h d ↔ d.natAbs < h := by
  unfold Near
  rw [Nat.mod_eq_of_lt hd]
  omega

/-- An unsigned difference of 64 bits, stored to a signed number of 32. -/
theorem toInt_narrow (a b : UInt64) :
    ((a - b).toUInt32.toInt32).toInt = ((a.toNat : Int) - b.toNat).bmod (2 ^ 32) := by
  have hbits : ((a - b).toUInt32.toInt32).toInt = (((a - b).toUInt32.toNat : Nat) : Int).bmod (2 ^ 32) :=
    BitVec.toInt_eq_toNat_bmod _
  have ha := a.toNat_lt
  have hb := b.toNat_lt
  rw [hbits, UInt64.toNat_toUInt32, UInt64.toNat_sub, Int.bmod_def, Int.bmod_def]
  omega

end Narrow
