import Mathlib.Tactic

/-!
# Serial numbers

Serial numbers of width `w` wrap around; two of them are compared by the sign of their difference
in two's complement.  Positions of one stream that lie less than half the number space apart are
compared as the natural numbers they stand for.

* `add_ofNat_add` moves along the stream;
* `toInt_sub` is the signed difference of two positions, `toNat_sub` the distance;
* `add_ofNat_inj` recovers a position from its serial number;
* `near` is the position of a serial number next to a given position.
-/

namespace Serial

variable {w : ℕ} (base : BitVec w) (i j : ℕ)

/-- Moving `j` places on from position `i`. -/
theorem add_ofNat_add :
    base + BitVec.ofNat w i + BitVec.ofNat w j = base + BitVec.ofNat w (i + j) := by
  rw [BitVec.ofNat_add, BitVec.add_assoc]

theorem add_sub_add :
    base + BitVec.ofNat w i - (base + BitVec.ofNat w j) =
      BitVec.ofNat w i - BitVec.ofNat w j := by
  rw [BitVec.sub_eq_iff_eq_add, BitVec.add_comm base (BitVec.ofNat w j), ← BitVec.add_assoc,
    BitVec.sub_add_cancel, BitVec.add_comm]

/-- Every number is some distance behind every other. -/
theorem add_ofNat_toNat_sub (a b : BitVec w) : a + BitVec.ofNat w (b - a).toNat = b := by
  rw [BitVec.ofNat_toNat, BitVec.setWidth_eq, BitVec.add_comm, BitVec.sub_add_cancel]

variable {base i j}

/-- The signed difference of two positions less than half the number space apart. -/
theorem toInt_sub (hi : 2 * i < 2 * j + 2 ^ w) (hj : 2 * j < 2 * i + 2 ^ w) :
    (base + BitVec.ofNat w i - (base + BitVec.ofNat w j)).toInt = (i : ℤ) - j := by
  have hpow : ((2 ^ w : ℕ) : ℤ) = 2 ^ w := by norm_cast
  rw [add_sub_add, BitVec.toInt_sub, BitVec.toInt_ofNat', BitVec.toInt_ofNat', Int.bmod_sub_bmod,
    Int.sub_bmod_bmod, Int.bmod_eq_of_le_mul_two]
  · rw [hpow]; zify at hj; linarith
  · rw [hpow]; zify at hi; linarith

/-- The distance from an earlier position. -/
theorem toNat_sub (hle : j ≤ i) (hlt : i < j + 2 ^ w) :
    (base + BitVec.ofNat w i - (base + BitVec.ofNat w j)).toNat = i - j := by
  obtain ⟨k, rfl⟩ := Nat.exists_eq_add_of_le hle
  rw [← add_ofNat_add, BitVec.add_comm (base + _), BitVec.add_sub_cancel, BitVec.toNat_ofNat,
    Nat.mod_eq_of_lt (by omega), Nat.add_sub_cancel_left]

theorem add_ofNat_inj (hi : i < 2 ^ w) (hj : j < 2 ^ w)
    (h : base + BitVec.ofNat w i = base + BitVec.ofNat w j) : i = j := by
  have hnat := congrArg BitVec.toNat (BitVec.add_right_inj base |>.1 h)
  rwa [BitVec.toNat_ofNat, BitVec.toNat_ofNat, Nat.mod_eq_of_lt hi, Nat.mod_eq_of_lt hj] at hnat

/-- The position of the serial number `a` in the stream from `base` on that is nearest to `i`. -/
def near (base : BitVec w) (i : ℤ) (a : BitVec w) : ℤ := i + (a - (base + BitVec.ofInt w i)).toInt

theorem add_ofInt_ofNat (u : ℤ) (n : ℕ) :
    base + BitVec.ofInt w u + BitVec.ofNat w n = base + BitVec.ofInt w (u + n) := by
  rw [BitVec.ofInt_add, BitVec.ofInt_natCast, BitVec.add_assoc]

/-- Less than half the number space apart, the position is the nearest one. -/
theorem near_add {i d : ℤ} (hlo : -(2 ^ w) ≤ 2 * d) (hhi : 2 * d < 2 ^ w) :
    near base i (base + BitVec.ofInt w (i + d)) = i + d := by
  have hsub : base + BitVec.ofInt w (i + d) - (base + BitVec.ofInt w i) = BitVec.ofInt w d := by
    rw [BitVec.ofInt_add, ← BitVec.add_assoc, BitVec.add_comm (base + _), BitVec.add_sub_cancel]
  have hpow : ((2 ^ w : ℕ) : ℤ) = 2 ^ w := by norm_cast
  rw [near, hsub, BitVec.toInt_ofInt, Int.bmod_eq_of_le_mul_two]
  · rw [hpow]
    linarith
  · rw [hpow]
    linarith

end Serial
