import Mathlib

/-!
# Serial numbers

Arithmetic of 32-bit serial numbers, which count an unbounded stream of
positions modulo `2 ^ 32`. A *base* is the serial number of position `0`, and
`seqAt base n` that of position `n`. Two serial numbers are compared by the
sign of their difference (`SignedNeg`, `SignedPos`), which agrees with the
order of the positions as long as these are less than half the space apart
(`signedPos_seqAt`).

* `toNat_seqAt_sub`: the distance of two positions, read off their numbers;
* `seqAt_unwrap`: every serial number is that of a position from a given one on;
* `le_of_not_signed`: a number neither before `seqAt b u` nor after
  `seqAt b (u + d)` is that of a position in `[u, u + d]`, for every `d`.
-/

namespace Netstack2

/-- The serial number of position `n`, counted from `base`. -/
def seqAt (base : UInt32) (n : ℕ) : UInt32 := base + UInt32.ofNat n

/-- The difference `d`, read as a signed number, is negative. -/
def SignedNeg (d : UInt32) : Prop := d.toInt32 < 0

/-- The difference `d`, read as a signed number, is positive. -/
def SignedPos (d : UInt32) : Prop := 0 < d.toInt32

instance (d : UInt32) : Decidable (SignedNeg d) := inferInstanceAs (Decidable (d.toInt32 < 0))

instance (d : UInt32) : Decidable (SignedPos d) := inferInstanceAs (Decidable (0 < d.toInt32))

theorem toInt_toInt32 (d : UInt32) :
    d.toInt32.toInt = if d.toNat < 2 ^ 31 then (d.toNat : ℤ) else (d.toNat : ℤ) - 2 ^ 32 := by
  have h : d.toInt32.toInt = d.toBitVec.toInt := rfl
  rw [h, BitVec.toInt_eq_toNat_cond, UInt32.toNat_toBitVec]
  split <;> split <;> omega

theorem signedNeg_iff (d : UInt32) : SignedNeg d ↔ 2 ^ 31 ≤ d.toNat := by
  rw [SignedNeg, Int32.lt_iff_toInt_lt, toInt_toInt32, Int32.toInt_zero]
  have := d.toNat_lt
  split <;> omega

theorem signedPos_iff (d : UInt32) : SignedPos d ↔ 0 < d.toNat ∧ d.toNat < 2 ^ 31 := by
  rw [SignedPos, Int32.lt_iff_toInt_lt, toInt_toInt32, Int32.toInt_zero]
  have := d.toNat_lt
  split <;> omega

/-! ## Positions -/

variable (b : UInt32) {m n : ℕ}

@[simp] theorem seqAt_zero : seqAt b 0 = b := by simp [seqAt]

theorem seqAt_sub_self (n : ℕ) : seqAt b n - b = UInt32.ofNat n := by
  rw [seqAt, UInt32.add_comm, UInt32.add_sub_cancel]

theorem seqAt_add (m n : ℕ) : seqAt b (m + n) = seqAt b m + UInt32.ofNat n := by
  rw [seqAt, seqAt, UInt32.ofNat_add, UInt32.add_assoc]

theorem toNat_seqAt (n : ℕ) : (seqAt b n).toNat = (b.toNat + n) % 2 ^ 32 := by
  rw [seqAt, UInt32.toNat_add, UInt32.toNat_ofNat']
  omega

/-- The distance from position `n` to a later position `m`. -/
theorem toNat_seqAt_sub (h : n ≤ m) : (seqAt b m - seqAt b n).toNat = (m - n) % 2 ^ 32 := by
  rw [UInt32.toNat_sub, toNat_seqAt, toNat_seqAt]
  omega

/-- The distance from position `m` back to an earlier position `n`. -/
theorem toNat_seqAt_sub_neg (h : n < m) (hd : m - n < 2 ^ 32) :
    (seqAt b n - seqAt b m).toNat = 2 ^ 32 - (m - n) := by
  rw [UInt32.toNat_sub, toNat_seqAt, toNat_seqAt]
  omega

/-- Every serial number `x` is that of a position from `n` on. -/
theorem seqAt_unwrap (n : ℕ) (x : UInt32) : seqAt b (n + (x - seqAt b n).toNat) = x := by
  apply UInt32.toNat_inj.1
  have := x.toNat_lt
  rw [toNat_seqAt, UInt32.toNat_sub, toNat_seqAt]
  omega

/-- Positions less than the whole space apart have the same serial number only if they are equal. -/
theorem seqAt_inj (h : seqAt b m = seqAt b n) (hmn : m < n + 2 ^ 32) (hnm : n < m + 2 ^ 32) :
    m = n := by
  have := congrArg UInt32.toNat h
  rw [toNat_seqAt, toNat_seqAt] at this
  omega

theorem signedPos_seqAt (hmn : m < n + 2 ^ 31) (hnm : n < m + 2 ^ 31) :
    SignedPos (seqAt b m - seqAt b n) ↔ n < m := by
  rw [signedPos_iff]
  rcases lt_or_ge m n with h | h
  · rw [toNat_seqAt_sub_neg b h (by omega)]
    omega
  · rw [toNat_seqAt_sub b h]
    omega

/-- A number `x` neither before `seqAt b u` nor after `seqAt b (u + d)` is at
    most `d` places after `seqAt b u`. No bound on `d` is needed: if `d` is
    half the space or more, the first condition alone gives it. -/
theorem le_of_not_signed {u d : ℕ} {x : UInt32} (hu : ¬SignedNeg (x - seqAt b u))
    (hd : ¬SignedPos (x - seqAt b (u + d))) : (x - seqAt b u).toNat ≤ d := by
  rw [signedNeg_iff, not_le] at hu
  by_contra hlt
  -- `x` is the number of the position `u + k`, with `d < k < 2 ^ 31`
  have hx := seqAt_unwrap b u x
  rw [← hx, signedPos_seqAt b (by omega) (by omega)] at hd
  omega

end Netstack2
