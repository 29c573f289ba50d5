/-
# Theory.Rounding — rounding up to a multiple

`roundUp x a` is the least multiple of `a` that is not below `x`
(`roundUp_le_iff`).  On 64-bit words the same is done with a mask where the
alignment is a power of two; there the result wraps (`maskUp_toNat`).
-/
import Minus.Theory.Bytes

namespace Minus.Theory

set_option autoImplicit false

/-- The least multiple of `a` from `x` on. -/
def roundUp (x a : Nat) : Nat := (x + (a - 1)) / a * a

/-- `roundUp` on words, with the mask `~(a - 1)`. -/
def maskUp (x a : UInt64) : UInt64 := (x + (a - 1)) &&& ~~~(a - 1)

section Nat

variable {x y a : Nat}

theorem dvd_roundUp (x a : Nat) : a ∣ roundUp x a := Dvd.intro_left _ rfl

theorem le_roundUp (positive : 0 < a) : x ≤ roundUp x a := by
  have rest := Nat.mod_lt (x + (a - 1)) positive
  have whole := Nat.div_add_mod' (x + (a - 1)) a
  rw [roundUp]
  omega

theorem roundUp_lt (positive : 0 < a) : roundUp x a < x + a := by
  have le := Nat.div_mul_le_self (x + (a - 1)) a
  rw [roundUp]
  omega

/-- **The least of the multiples**. -/
theorem roundUp_le_iff (positive : 0 < a) (multiple : a ∣ y) : roundUp x a ≤ y ↔ x ≤ y := by
  constructor
  · exact (le_roundUp positive).trans
  · intro le
    obtain ⟨m, rfl⟩ := multiple
    rw [roundUp, Nat.mul_comm a m]
    apply Nat.mul_le_mul_right
    rw [← Nat.lt_add_one_iff, Nat.div_lt_iff_lt_mul positive, Nat.add_mul, Nat.mul_comm m a]
    omega

theorem roundUp_add_of_dvd (positive : 0 < a) (multiple : a ∣ y) : roundUp (y + x) a = y + roundUp x a := by
  obtain ⟨m, rfl⟩ := multiple
  rw [roundUp, Nat.add_assoc, Nat.mul_add_div positive, Nat.add_mul, Nat.mul_comm m a, roundUp]

end Nat

theorem isPowerOfTwo_pos {a : Nat} (power : a.isPowerOfTwo) : 0 < a := by
  obtain ⟨k, rfl⟩ := power
  exact Nat.two_pow_pos k

/-- One power of two below another divides it. -/
theorem dvd_of_isPowerOfTwo_le {a b : Nat} (power : a.isPowerOfTwo) (power' : b.isPowerOfTwo) (le : a ≤ b) :
    a ∣ b := by
  obtain ⟨k, rfl⟩ := power
  obtain ⟨l, rfl⟩ := power'
  exact Nat.pow_dvd_pow 2 ((Nat.pow_le_pow_iff_right (by decide)).1 le)

/-- The mask rounds up modulo 2^64. -/
theorem maskUp_toNat {x a : UInt64} (power : a.toNat.isPowerOfTwo) :
    (maskUp x a).toNat = roundUp x.toNat a.toNat % 2 ^ 64 := by
  have positive := isPowerOfTwo_pos power
  have below := a.toNat_lt
  have less : (a - 1).toNat = a.toNat - 1 :=
    UInt64.toNat_sub_of_le _ _ (UInt64.le_iff_toNat_le.2 (by simp only [UInt64.reduceToNat]; omega))
  have mask : (~~~(a - 1)).toNat = 2 ^ 64 - a.toNat := by
    rw [UInt64.toNat_not, less, UInt64.size]
    omega
  have divides : a.toNat ∣ 2 ^ 64 := dvd_of_isPowerOfTwo_le power ⟨64, rfl⟩ below.le
  obtain ⟨k, shape⟩ := power
  have low : k ≤ 64 := (Nat.pow_le_pow_iff_right (by decide)).1 (shape ▸ below.le)
  rw [maskUp, UInt64.toNat_and, mask, shape, and_high low (UInt64.toNat_lt _), UInt64.toNat_add, less, ← shape, roundUp]
  obtain ⟨m, size⟩ := divides
  -- a whole number of multiples is cut off
  rw [size, Nat.mod_mul_right_div_self, Nat.mul_comm a.toNat m, Nat.mul_mod_mul_right]

end Minus.Theory
