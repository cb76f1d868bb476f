import Mathlib.Data.Nat.Bitwise
import Mathlib.Data.Nat.ModEq
import Mathlib.Tactic.Ring

/-!
# Rounding to a multiple

`alignUp a x` is the least multiple of `a` that is not below `x`. In 64-bit code rounding to a
power of two is a mask, which `toNat_and_not_mask` turns into a division.
-/

namespace Lib.Rounding

/-- The least multiple of `a` that is not below `x`. -/
def alignUp (a x : ℕ) : ℕ := (x + a - 1) / a * a

lemma dvd_alignUp (a x : ℕ) : a ∣ alignUp a x := Nat.dvd_mul_left a _

lemma le_alignUp {a : ℕ} (ha : 0 < a) (x : ℕ) : x ≤ alignUp a x := by
  have hdiv := Nat.div_add_mod (x + a - 1) a
  have hmod := Nat.mod_lt (x + a - 1) ha
  unfold alignUp
  rw [Nat.mul_comm]
  omega

lemma alignUp_lt {a : ℕ} (ha : 0 < a) (x : ℕ) : alignUp a x < x + a := by
  have hle : alignUp a x ≤ x + a - 1 := Nat.div_mul_le_self _ _
  omega

lemma alignUp_of_dvd {a x : ℕ} (ha : 0 < a) (h : a ∣ x) : alignUp a x = x := by
  obtain ⟨q, rfl⟩ := h
  have hdiv : (a * q + a - 1) / a = q := by
    rw [Nat.add_sub_assoc ha, Nat.mul_add_div ha, Nat.div_eq_of_lt (Nat.sub_lt ha Nat.one_pos),
      Nat.add_zero]
  rw [alignUp, hdiv, Nat.mul_comm]

@[simp] lemma alignUp_one (x : ℕ) : alignUp 1 x = x := alignUp_of_dvd Nat.one_pos (Nat.one_dvd x)

lemma alignUp_of_not_dvd {a x : ℕ} (ha : 0 < a) (h : ¬ a ∣ x) : alignUp a x = x + (a - x % a) := by
  have hmod := Nat.mod_lt x ha
  have hsplit := Nat.div_add_mod x a
  have hdiv : (x + a - 1) / a = x / a + 1 := by
    have hnum : x + a - 1 = a * (x / a + 1) + (x % a - 1) := by
      rw [Nat.mul_add, Nat.mul_one]
      omega
    have hsmall : (x % a - 1) / a = 0 := Nat.div_eq_of_lt (by omega)
    rw [hnum, Nat.mul_add_div ha, hsmall, Nat.add_zero]
  rw [alignUp, hdiv, Nat.mul_comm, Nat.mul_add, Nat.mul_one]
  omega

/-! ## Masks -/

/-- What a mask takes away is what it has in common with the word. -/
lemma and_not_eq_sub (v mask : UInt64) : v &&& ~~~mask = v - (v &&& mask) := by
  have hdisjoint : (v &&& ~~~mask).toBitVec &&& (v &&& mask).toBitVec = 0 := by
    ext i hi
    by_cases h : mask.toBitVec[i] <;> simp [h]
  rw [UInt64.eq_sub_iff_add_eq, ← UInt64.toBitVec_inj, UInt64.toBitVec_add,
    BitVec.add_eq_or_of_and_eq_zero _ _ hdisjoint]
  ext i hi
  by_cases h : mask.toBitVec[i] <;> simp [h]

section

variable {a : UInt64} {k : ℕ} (ha : a.toNat = 2 ^ k)

include ha

lemma one_le_of_two_pow : 1 ≤ a := by
  rw [UInt64.le_iff_toNat_le, ha]
  exact Nat.one_le_two_pow

lemma toNat_and_not_mask (v : UInt64) : (v &&& ~~~(a - 1)).toNat = v.toNat / 2 ^ k * 2 ^ k := by
  have hlow : (v &&& (a - 1)).toNat = v.toNat % 2 ^ k := by
    rw [UInt64.toNat_and, UInt64.toNat_sub_of_le _ _ (one_le_of_two_pow ha), ha, UInt64.toNat_one,
      Nat.and_two_pow_sub_one_eq_mod]
  have hle : v &&& (a - 1) ≤ v := by
    rw [UInt64.le_iff_toNat_le, hlow]
    exact Nat.mod_le _ _
  have hsplit := Nat.div_add_mod v.toNat (2 ^ k)
  rw [and_not_eq_sub, UInt64.toNat_sub_of_le _ _ hle, hlow, Nat.mul_comm]
  omega

lemma toNat_add_sub_one_and_not_mask {v : UInt64} (hv : v.toNat + a.toNat < 2 ^ 64) :
    ((v + a - 1) &&& ~~~(a - 1)).toNat = alignUp a.toNat v.toNat := by
  have hadd : (v + a).toNat = v.toNat + a.toNat := by
    rw [UInt64.toNat_add, Nat.mod_eq_of_lt hv]
  have hone : 1 ≤ v + a := by
    have hle := UInt64.le_iff_toNat_le.mp (one_le_of_two_pow ha)
    rw [UInt64.le_iff_toNat_le, hadd]
    omega
  rw [toNat_and_not_mask ha, UInt64.toNat_sub_of_le _ _ hone, hadd, UInt64.toNat_one, ← ha]
  rfl

lemma and_sub_one_of_two_pow : a &&& (a - 1) = 0 := by
  rw [← UInt64.toNat_inj, UInt64.toNat_and, UInt64.toNat_sub_of_le _ _ (one_le_of_two_pow ha), ha,
    UInt64.toNat_one, Nat.two_pow_and]
  simp [Nat.testBit_two_pow_sub_one]

end

end Lib.Rounding
