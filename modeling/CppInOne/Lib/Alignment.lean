import Mathlib.Algebra.Group.Nat.Defs
import Mathlib.Data.List.Basic
import Mathlib.Data.Nat.Basic

/-!
# Rounding up with a mask

For a power of two `a`, the multiple of `a` at or above `x` is `(x + (a - 1)) & ~(a - 1)`.
Here this is proved for machine words of any width, as long as the sum does not wrap.
-/

namespace Alignment

variable {w a x y : Nat}

/-- The smallest multiple of `a` that is not below `x`. -/
def roundUp (a x : Nat) : Nat := (x + (a - 1)) / a * a

theorem dvd_roundUp (a x : Nat) : a ∣ roundUp a x := Nat.dvd_mul_left a _

theorem le_roundUp (ha : 0 < a) (x : Nat) : x ≤ roundUp a x := by
  have hlt := Nat.lt_div_mul_add (a := x + (a - 1)) ha
  show x ≤ (x + (a - 1)) / a * a
  omega

theorem roundUp_le (ha : 0 < a) (hxy : x ≤ y) (hy : a ∣ y) : roundUp a x ≤ y := by
  obtain ⟨k, rfl⟩ := hy
  have hlt : (x + (a - 1)) / a < k + 1 := by
    rw [Nat.div_lt_iff_lt_mul ha, Nat.add_mul, Nat.mul_comm k a]
    omega
  rw [roundUp, Nat.mul_comm]
  exact Nat.mul_le_mul_left a (Nat.le_of_lt_succ hlt)

/-- Clearing the low `k` bits rounds down to a multiple of `2 ^ k`. -/
theorem toNat_and_not_mask (x : BitVec w) (k : Nat) :
    (x &&& ~~~BitVec.ofNat w (2 ^ k - 1)).toNat = x.toNat / 2 ^ k * 2 ^ k := by
  have hshift : x &&& ~~~BitVec.ofNat w (2 ^ k - 1) = (x >>> k) <<< k := by
    apply BitVec.eq_of_getLsbD_eq
    intro i hi
    have hmask : (BitVec.ofNat w (2 ^ k - 1)).getLsbD i = decide (i < k) := by
      rw [BitVec.getLsbD_ofNat, Nat.testBit_two_pow_sub_one]
      simp [hi]
    rw [BitVec.getLsbD_and, BitVec.getLsbD_not, hmask, BitVec.getLsbD_shiftLeft,
      BitVec.getLsbD_ushiftRight]
    by_cases hk : i < k
    · simp [hi, hk]
    · have hsub : k + (i - k) = i := by omega
      simp [hi, hk, hsub]
  have hle : x.toNat / 2 ^ k * 2 ^ k ≤ x.toNat := Nat.div_mul_le_self _ _
  rw [hshift, BitVec.toNat_shiftLeft, BitVec.toNat_ushiftRight, Nat.shiftLeft_eq,
    Nat.shiftRight_eq_div_pow, Nat.mod_eq_of_lt (Nat.lt_of_le_of_lt hle x.isLt)]

/-- The mask rounds up. -/
theorem toNat_mask (x : BitVec w) {k : Nat} (hx : x.toNat + (2 ^ k - 1) < 2 ^ w) :
    ((x + BitVec.ofNat w (2 ^ k - 1)) &&& ~~~BitVec.ofNat w (2 ^ k - 1)).toNat =
      roundUp (2 ^ k) x.toNat := by
  have hmask : (BitVec.ofNat w (2 ^ k - 1)).toNat = 2 ^ k - 1 := by
    rw [BitVec.toNat_ofNat]
    apply Nat.mod_eq_of_lt
    omega
  rw [toNat_and_not_mask, BitVec.toNat_add, hmask, Nat.mod_eq_of_lt hx]
  rfl

end Alignment
