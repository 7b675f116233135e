import Mathlib

/-!
# Rates of KCC

KCC scales its rates by a product of 96 bits that is shifted right. The product is
made from those of the two halves of the first factor, each shifted on its own, and
nothing is lost by that: the shift does not go beyond the lower half
(`mulU64U32Shr_exact`).
-/

namespace Netstack2

namespace KccController

/-- `MulU64U32Shr`. -/
def mulU64U32Shr (a : UInt64) (mul shift : UInt32) : UInt64 :=
  let ah := (a >>> 32).toUInt32
  let al := a.toUInt32
  let ret := (al.toUInt64 * mul.toUInt64) >>> shift.toUInt64
  if ah ≠ 0 then ret + (ah.toUInt64 * mul.toUInt64) <<< (32 - shift).toUInt64 else ret

/-- The halves of a product, shifted, add up to it. -/
theorem mul_div_two_pow (a m : ℕ) {s : ℕ} (h : s ≤ 32) :
    a * m / 2 ^ s = a % 2 ^ 32 * m / 2 ^ s + a / 2 ^ 32 * m * 2 ^ (32 - s) := by
  have hpow : (2 : ℕ) ^ 32 = 2 ^ (32 - s) * 2 ^ s := by rw [← pow_add, Nat.sub_add_cancel h]
  have hsplit : a * m = a % 2 ^ 32 * m + a / 2 ^ 32 * m * 2 ^ (32 - s) * 2 ^ s := by
    calc a * m
      _ = (2 ^ 32 * (a / 2 ^ 32) + a % 2 ^ 32) * m := by rw [Nat.div_add_mod]
      _ = a % 2 ^ 32 * m + a / 2 ^ 32 * m * 2 ^ 32 := by ring
      _ = a % 2 ^ 32 * m + a / 2 ^ 32 * m * 2 ^ (32 - s) * 2 ^ s := by
        rw [hpow, mul_assoc _ (2 ^ (32 - s))]
  rw [hsplit, Nat.add_mul_div_right _ _ (Nat.two_pow_pos s)]

/-- The wide product is exact. -/
theorem mulU64U32Shr_exact (a : UInt64) (mul shift : UInt32) (h : shift.toNat ≤ 32) :
    (mulU64U32Shr a mul shift).toNat = a.toNat * mul.toNat / 2 ^ shift.toNat % 2 ^ 64 := by
  have ha := a.toNat_lt
  have hmul := mul.toNat_lt
  have hhigh : (a >>> 32).toUInt32.toNat = a.toNat / 2 ^ 32 := by
    rw [UInt64.toNat_toUInt32, UInt64.toNat_shiftRight, Nat.shiftRight_eq_div_pow]
    exact Nat.mod_eq_of_lt (by simp; omega)
  have hlow : a.toUInt32.toNat = a.toNat % 2 ^ 32 := UInt64.toNat_toUInt32 a
  -- neither of the two products needs more than 64 bits
  have hprod : ∀ x : UInt32, (x.toUInt64 * mul.toUInt64).toNat = x.toNat * mul.toNat := by
    intro x
    have hx := x.toNat_lt
    rw [UInt64.toNat_mul, UInt32.toNat_toUInt64, UInt32.toNat_toUInt64]
    refine Nat.mod_eq_of_lt ?_
    calc x.toNat * mul.toNat
      _ ≤ (2 ^ 32 - 1) * (2 ^ 32 - 1) := Nat.mul_le_mul (by omega) (by omega)
      _ < 2 ^ 64 := by decide
  have hret : ((a.toUInt32.toUInt64 * mul.toUInt64) >>> shift.toUInt64).toNat =
      a.toNat % 2 ^ 32 * mul.toNat / 2 ^ shift.toNat := by
    rw [UInt64.toNat_shiftRight, hprod, hlow, UInt32.toNat_toUInt64,
      Nat.mod_eq_of_lt (show shift.toNat < 64 by omega), Nat.shiftRight_eq_div_pow]
  have hsub : (32 - shift).toUInt64.toNat = 32 - shift.toNat := by
    rw [UInt32.toNat_toUInt64, UInt32.toNat_sub_of_le _ _ (UInt32.le_iff_toNat_le.2 h)]
    rfl
  have hadd : (((a >>> 32).toUInt32.toUInt64 * mul.toUInt64) <<< (32 - shift).toUInt64).toNat =
      a.toNat / 2 ^ 32 * mul.toNat * 2 ^ (32 - shift.toNat) % 2 ^ 64 := by
    rw [UInt64.toNat_shiftLeft, hprod, hhigh, hsub,
      Nat.mod_eq_of_lt (show 32 - shift.toNat < 64 by omega), Nat.shiftLeft_eq]
  rw [mul_div_two_pow _ _ h, mulU64U32Shr]
  split
  case isTrue => rw [UInt64.toNat_add, hret, hadd, Nat.add_mod_mod]
  case isFalse hzero =>
    rw [not_not, ← UInt32.toNat_inj, hhigh, UInt32.toNat_zero] at hzero
    rw [hzero, Nat.zero_mul, Nat.zero_mul, add_zero, ← hret, Nat.mod_eq_of_lt (UInt64.toNat_lt _)]

theorem mulU64U32Shr_exact_wide :
    (mulU64U32Shr 0xFFFFFFFFFFFFFFFF 3 1).toNat = 0xFFFFFFFFFFFFFFFF * 3 / 2 % 2 ^ 64 :=
  mulU64U32Shr_exact 0xFFFFFFFFFFFFFFFF 3 1 (by decide)

end KccController

end Netstack2
