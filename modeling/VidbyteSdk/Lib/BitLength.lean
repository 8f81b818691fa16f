import Mathlib.Algebra.Group.Int.Defs
import Mathlib.Algebra.Group.Nat.Defs
import Mathlib.Data.Int.Notation
import Mathlib.Data.Nat.Size

/-!
# Bit lengths of integers
-/

namespace VidbyteSdk.Lib

/-- `n.bit_length()`: the bits of its magnitude. -/
def bitLength (n : ℤ) : ℕ := n.natAbs.size

theorem bitLength_le {n : ℤ} {bits : ℕ} : bitLength n ≤ bits ↔ n.natAbs < 2 ^ bits := Nat.size_le

@[simp] theorem bitLength_neg (n : ℤ) : bitLength (-n) = bitLength n := by
  rw [bitLength, Int.natAbs_neg, bitLength]

theorem bitLength_two_pow (k : ℕ) : bitLength (2 ^ k) = k + 1 := by
  rw [bitLength, Int.natAbs_pow]
  exact Nat.size_pow

theorem bitLength_pow_le {a : ℤ} {k bits : ℕ} (h : bitLength a * k ≤ bits) (hbits : 0 < bits) :
    bitLength (a ^ k) ≤ bits := by
  rw [bitLength_le, Int.natAbs_pow]
  cases k with
  | zero => exact Nat.one_lt_two_pow (Nat.ne_of_gt hbits)
  | succ k =>
    calc a.natAbs ^ (k + 1) < (2 ^ bitLength a) ^ (k + 1) :=
          Nat.pow_lt_pow_left (Nat.lt_size_self _) (Nat.succ_ne_zero k)
      _ = 2 ^ (bitLength a * (k + 1)) := (Nat.pow_mul 2 _ _).symm
      _ ≤ 2 ^ bits := Nat.pow_le_pow_right (by decide) h

end VidbyteSdk.Lib
