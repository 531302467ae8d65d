import Mathlib.Algebra.Group.Int.Defs
import Mathlib.Algebra.Group.Nat.Defs

/-!
# Shared constants (`libspe2-types.h`, `spebase/spebase.h`)

The constants that more than one part of the library uses, and what an `int` holds.
-/

namespace LibSpe2

/-- `LS_SIZE`. -/
def lsSize : Nat := 0x40000

/-! ## Flags of a context -/

def speMapPs : UInt32 := 0x40
def speIsolate : UInt32 := 0x80
def speIsolateEmulate : UInt32 := 0x100
def speEventsEnable : UInt32 := 0x1000

/-! ## Stop codes -/

/-- `SPE_PROGRAM_NORMAL_END`: the code of `exit (0)`. -/
def speProgramNormalEnd : UInt32 := 0x2000

/-! ## Numbers -/

/-- The value an `int` holds after an overflowing operation. -/
def toInt32 (x : Int) : Int := x.bmod (2 ^ 32)

theorem toInt32_of_range {n : Int} (hlo : -(2 ^ 31) ≤ n) (hhi : n < 2 ^ 31) : toInt32 n = n := by
  apply Int.bmod_eq_of_le_mul_two <;> omega

end LibSpe2
