import Mathlib.Algebra.Ring.Int.Defs
import Mathlib.Algebra.Ring.Nat
import Mathlib.Tactic.Common

/-!
# MachineInt — the conversions between C integer types

Machine integers are kept as `Int` and `Nat`; a conversion reduces the value to the range of the
target type: two's complement for the signed `int32` and `int64`, the residue for `uint32` and `size_t`
(64 bits).
-/

namespace Reasoning

/-- Conversion to `int32`. -/
def toInt32 (x : Int) : Int := (x + 2 ^ 31) % 2 ^ 32 - 2 ^ 31

/-- Conversion to `int64`. -/
def toInt64 (x : Int) : Int := (x + 2 ^ 63) % 2 ^ 64 - 2 ^ 63

/-- Conversion to `uint32`. -/
def toUint32 (x : Int) : Nat := (x % 2 ^ 32).toNat

/-- Conversion to `size_t`. -/
def toSizeT (x : Int) : Nat := (x % 2 ^ 64).toNat

theorem toInt32_bounds (x : Int) : -2 ^ 31 ≤ toInt32 x ∧ toInt32 x < 2 ^ 31 := by
  unfold toInt32
  omega

theorem toInt32_of_lt {n : Nat} (h : n < 2 ^ 31) : toInt32 n = n := by
  unfold toInt32
  omega

theorem toInt32_of_bounds {x : Int} (hlo : -2 ^ 31 ≤ x) (hhi : x < 2 ^ 31) : toInt32 x = x := by
  unfold toInt32
  omega

theorem toInt32_of_ge {n : Nat} (hlo : 2 ^ 31 ≤ n) (hhi : n < 2 ^ 32) :
    toInt32 n = (n : Int) - 2 ^ 32 := by
  unfold toInt32
  omega

theorem toInt32_toNat_le (n : Nat) : (toInt32 n).toNat ≤ n := by
  unfold toInt32
  omega

theorem toInt32_toSizeT (x : Int) : toInt32 (toSizeT x) = toInt32 x := by
  unfold toInt32 toSizeT
  omega

theorem toInt32_add_toInt32 (x y : Int) : toInt32 (toInt32 x + y) = toInt32 (x + y) := by
  unfold toInt32
  omega

theorem toUint32_of_lt {n : Nat} (h : n < 2 ^ 32) : toUint32 n = n := by
  unfold toUint32
  omega

theorem toUint32_natCast (n : Nat) : toUint32 n = n % 2 ^ 32 := by
  unfold toUint32
  omega

theorem toUint32_le (n : Nat) : toUint32 n ≤ n :=
  toUint32_natCast n ▸ Nat.mod_le n _

theorem toUint32_lt (x : Int) : toUint32 x < 2 ^ 32 := by
  unfold toUint32
  omega

theorem toUint32_toInt32 (x : Int) : toUint32 (toInt32 x) = toUint32 x := by
  unfold toUint32 toInt32
  omega

theorem toSizeT_of_lt {x : Int} (hlo : 0 ≤ x) (hhi : x < 2 ^ 64) : toSizeT x = x.toNat := by
  unfold toSizeT
  omega

end Reasoning
