import Mathlib.Data.BitVec
import Mathlib.Tactic

/-!
# Rounding up to a power of two

`(x + mask) & ~mask` on machine words is rounding up, as long as the sum does not wrap.
-/

namespace Theory

/-- The least multiple of `a` that is not below `x`. -/
def roundUp (a x : Nat) : Nat := (x + (a - 1)) / a * a

theorem le_roundUp {a : Nat} (positive : 0 < a) (x : Nat) : x ≤ roundUp a x := by
  have split := Nat.div_add_mod' (x + (a - 1)) a
  have small := Nat.mod_lt (x + (a - 1)) positive
  unfold roundUp
  omega

theorem roundUp_lt {a : Nat} (positive : 0 < a) (x : Nat) : roundUp a x < x + a := by
  have below := Nat.div_mul_le_self (x + (a - 1)) a
  unfold roundUp
  omega

section
variable {w k : Nat}

theorem toNat_and_not (x m : BitVec w) : (x &&& ~~~m).toNat + (x &&& m).toNat = x.toNat := by
  have apart : (x &&& ~~~m) &&& (x &&& m) = 0#w := by
    ext i
    simp
    tauto
  have parts : (x &&& ~~~m) + (x &&& m) = x := by
    rw [BitVec.add_eq_or_of_and_eq_zero _ _ apart]
    ext i
    simp
    cases m[i] <;> simp
  rw [← BitVec.toNat_add_of_and_eq_zero apart, parts]

/-- A mask of the lowest bits leaves the remainder. -/
theorem toNat_and_mask (x m : BitVec w) (mask : m.toNat = 2 ^ k - 1) : (x &&& m).toNat = x.toNat % 2 ^ k := by
  rw [BitVec.toNat_and, mask, Nat.and_two_pow_sub_one_eq_mod]

theorem toNat_clear_low (x m : BitVec w) (mask : m.toNat = 2 ^ k - 1) : (x &&& ~~~m).toNat = x.toNat / 2 ^ k * 2 ^ k := by
  have sum := toNat_and_not x m
  rw [toNat_and_mask x m mask] at sum
  have split := Nat.div_add_mod' x.toNat (2 ^ k)
  omega

theorem toNat_roundUp (x m : BitVec w) (mask : m.toNat = 2 ^ k - 1) (fits : x.toNat + (2 ^ k - 1) < 2 ^ w) :
    ((x + m) &&& ~~~m).toNat = roundUp (2 ^ k) x.toNat := by
  rw [toNat_clear_low _ _ mask, BitVec.toNat_add, mask, Nat.mod_eq_of_lt fits]
  rfl

end

end Theory
