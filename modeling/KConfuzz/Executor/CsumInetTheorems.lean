import KConfuzz.Executor.Memory
import KConfuzz.Lib.OnesComplement
import KConfuzz.Prog.Checksum

/-!
# The arithmetic of inet checksums

The executor adds little-endian words to a 32-bit accumulator and brings the carries around after
every chunk. As long as the chunks are shorter than 64 KiB nothing is lost
(`toNat_foldl_csumInetUpdate`), and the digest is what is missing to `0xffff`. The constants of a
pseudo header are swapped in the serializer, so they are in network byte order (`toLE_swap16`,
`toLE_swap32`).
-/

namespace KConfuzz.Executor

open Lib.LittleEndian Lib.OnesComplement

/-! ## The accumulator -/

lemma toNat_foldCarry (acc : UInt32) :
    (foldCarry acc).toNat =
      if 0xffff < acc.toNat then acc.toNat % 2 ^ 16 + acc.toNat / 2 ^ 16 else acc.toNat := by
  have hacc := acc.toNat_lt
  have hlow : (acc &&& (0xffff : UInt32)).toNat = acc.toNat % 2 ^ 16 := by
    rw [UInt32.toNat_and]
    exact Nat.and_two_pow_sub_one_eq_mod _ 16
  have hhigh : (acc >>> 16).toNat = acc.toNat / 2 ^ 16 := by
    rw [UInt32.toNat_shiftRight]
    exact Nat.shiftRight_eq_div_pow _ 16
  have hgt : acc > 0xffff ↔ 0xffff < acc.toNat := by
    rw [gt_iff_lt, UInt32.lt_iff_toNat_lt]
    rfl
  unfold foldCarry
  simp only [hgt]
  split_ifs with h
  · rw [UInt32.toNat_add, hlow, hhigh, Nat.mod_eq_of_lt (by omega)]
  · rfl

/-- Adding words does not overflow while the sum is small. -/
lemma toNat_addWords (acc : UInt32) (data : List UInt8) (h : acc.toNat + wordSum data < 2 ^ 32) :
    (addWords acc data).toNat = acc.toNat + wordSum data := by
  induction acc, data using addWords.induct with
  | case1 acc => simp [addWords, wordSum, words]
  | case2 acc a =>
    simp only [wordSum, words, littleEndian, List.sum_singleton, Nat.mul_zero, Nat.add_zero] at h ⊢
    rw [addWords, UInt32.toNat_add, UInt8.toNat_toUInt32, Nat.mod_eq_of_lt h]
  | case3 acc a b data ih =>
    have ha := a.toNat_lt
    have hb := b.toNat_lt
    simp only [wordSum, words, littleEndian, List.sum_cons] at h ih ⊢
    have hword : (a.toUInt32 + 256 * b.toUInt32).toNat = a.toNat + 256 * b.toNat := by
      rw [UInt32.toNat_add, UInt32.toNat_mul, UInt8.toNat_toUInt32, UInt8.toNat_toUInt32]
      show (a.toNat + 256 * b.toNat % 2 ^ 32) % 2 ^ 32 = _
      omega
    have hacc : (acc + (a.toUInt32 + 256 * b.toUInt32)).toNat =
        acc.toNat + (a.toNat + 256 * b.toNat) := by
      rw [UInt32.toNat_add, hword, Nat.mod_eq_of_lt (by omega)]
    rw [addWords, ih (by omega), hacc, Nat.add_assoc]

/-- Two rounds bring all carries around. -/
lemma toNat_csumInetUpdate {acc : UInt32} {data : List UInt8}
    (h : acc.toNat + wordSum data < 2 ^ 32) :
    (csumInetUpdate acc data).toNat = fold (acc.toNat + wordSum data) := by
  rw [csumInetUpdate, toNat_foldCarry, toNat_foldCarry, toNat_addWords acc data h]
  generalize acc.toNat + wordSum data = n at h
  unfold fold
  split_ifs <;> omega

/-- The sum of all chunks, each shorter than 64 KiB. -/
lemma toNat_foldl_csumInetUpdate {acc : UInt32} (hacc : acc.toNat ≤ 0xffff)
    {chunks : List (List UInt8)} (h : ∀ data ∈ chunks, data.length < 65536) :
    (chunks.foldl csumInetUpdate acc).toNat =
      fold (acc.toNat + (chunks.map wordSum).sum) := by
  induction chunks generalizing acc with
  | nil => simp [fold_eq_self hacc]
  | cons data chunks ih =>
    obtain ⟨hdata, hchunks⟩ := List.forall_mem_cons.mp h
    have hsum := wordSum_le data
    have hupdate := @toNat_csumInetUpdate acc data (by omega)
    rw [List.foldl_cons, ih (by rw [hupdate]; exact fold_le _) hchunks, hupdate, fold_fold_add,
      List.map_cons, List.sum_cons, Nat.add_assoc]

lemma toNat_csumInetDigest {acc : UInt32} (h : acc.toNat ≤ 0xffff) :
    (csumInetDigest acc).toNat = 0xffff - acc.toNat := by
  have hnot : (~~~acc.toUInt16).toNat = 2 ^ 16 - 1 - acc.toUInt16.toNat := UInt16.toNat_not _
  rw [csumInetDigest, hnot, UInt32.toNat_toUInt16]
  omega

/-! ## Network byte order -/

/-- A number below `2 ^ k` and one shifted by `k` have no bit in common. -/
lemma or_shiftLeft_of_lt {a k : ℕ} (h : a < 2 ^ k) (b : ℕ) : a ||| b <<< k = a + b * 2 ^ k := by
  rw [Nat.or_comm, ← Nat.shiftLeft_add_eq_or_of_lt h, Nat.shiftLeft_eq, Nat.add_comm]

/-- The two bytes change places. -/
lemma toNat_swap16 {v : UInt16} {b1 b0 : ℕ} (hb1 : b1 < 256) (hb0 : b0 < 256)
    (hv : v.toNat = b0 + 256 * b1) : (swap16 v).toNat = b1 + 256 * b0 := by
  have hhigh : (v >>> 8).toUInt8.toUInt16.toNat = b1 := by
    have hshift : (v >>> 8).toNat = v.toNat / 2 ^ 8 := by
      rw [UInt16.toNat_shiftRight]
      exact Nat.shiftRight_eq_div_pow _ 8
    rw [UInt8.toNat_toUInt16, UInt16.toNat_toUInt8, hshift]
    omega
  have hlow : (v.toUInt8.toUInt16 <<< 8).toNat = b0 <<< 8 := by
    rw [UInt16.toNat_shiftLeft, UInt8.toNat_toUInt16, UInt16.toNat_toUInt8]
    show (v.toNat % 2 ^ 8) <<< 8 % 2 ^ 16 = b0 <<< 8
    rw [Nat.shiftLeft_eq, Nat.shiftLeft_eq]
    omega
  show ((v >>> 8).toUInt8.toUInt16 ||| v.toUInt8.toUInt16 <<< 8).toNat = _
  rw [UInt16.toNat_or, hhigh, hlow, or_shiftLeft_of_lt (by omega)]
  omega

/-- The byte of `v` at bit `i`, moved to bit `j`. -/
lemma toNat_moveByte (v : UInt32) {i j : UInt32} (hi : i.toNat < 32) (hj : j.toNat ≤ 24) :
    ((v >>> i).toUInt8.toUInt32 <<< j).toNat = (v.toNat / 2 ^ i.toNat % 256) <<< j.toNat := by
  have hpow : 2 ^ j.toNat ≤ 2 ^ 24 := Nat.pow_le_pow_right (by omega) hj
  have hbyte : (v >>> i).toUInt8.toUInt32.toNat = v.toNat / 2 ^ i.toNat % 256 := by
    rw [UInt8.toNat_toUInt32, UInt32.toNat_toUInt8, UInt32.toNat_shiftRight,
      Nat.mod_eq_of_lt hi, Nat.shiftRight_eq_div_pow]
  have hlt : v.toNat / 2 ^ i.toNat % 256 * 2 ^ j.toNat < 2 ^ 32 := by
    calc v.toNat / 2 ^ i.toNat % 256 * 2 ^ j.toNat
        ≤ 255 * 2 ^ 24 := Nat.mul_le_mul (by omega) hpow
      _ < 2 ^ 32 := by decide
  rw [UInt32.toNat_shiftLeft, hbyte, Nat.mod_eq_of_lt (show j.toNat < 32 by omega),
    Nat.shiftLeft_eq, Nat.mod_eq_of_lt hlt]

/-- The four bytes are reversed. -/
lemma toNat_swap32 {v : UInt32} {b3 b2 b1 b0 : ℕ} (hb3 : b3 < 256) (hb2 : b2 < 256) (hb1 : b1 < 256)
    (hb0 : b0 < 256) (hv : v.toNat = b0 + 256 * (b1 + 256 * (b2 + 256 * b3))) :
    (swap32 v).toNat = b3 + 256 * (b2 + 256 * (b1 + 256 * b0)) := by
  have hdiv : ∀ m, v.toNat / 2 ^ (m + 8) = v.toNat / 2 ^ m / 256 := by
    intro m
    rw [Nat.pow_add, Nat.div_div_eq_div_mul]
  have hdiv8 : v.toNat / 2 ^ 8 = b1 + 256 * (b2 + 256 * b3) := by omega
  have hdiv16 : v.toNat / 2 ^ 16 = b2 + 256 * b3 := by
    rw [hdiv 8, hdiv8]
    omega
  have hdiv24 : v.toNat / 2 ^ 24 = b3 := by
    rw [hdiv 16, hdiv16]
    omega
  have h3 := @toNat_moveByte v 24 0 (by decide) (by decide)
  have h2 := @toNat_moveByte v 16 8 (by decide) (by decide)
  have h1 := @toNat_moveByte v 8 16 (by decide) (by decide)
  have h0 := @toNat_moveByte v 0 24 (by decide) (by decide)
  simp only [UInt32.shiftLeft_zero, UInt32.shiftRight_zero] at h3 h0
  show ((v >>> 24).toUInt8.toUInt32 ||| (v >>> 16).toUInt8.toUInt32 <<< 8 |||
    (v >>> 8).toUInt8.toUInt32 <<< 16 ||| v.toUInt8.toUInt32 <<< 24).toNat = _
  rw [UInt32.toNat_or, UInt32.toNat_or, UInt32.toNat_or, h3, h2, h1, h0]
  show (v.toNat / 2 ^ 24 % 256) <<< 0 ||| (v.toNat / 2 ^ 16 % 256) <<< 8 |||
    (v.toNat / 2 ^ 8 % 256) <<< 16 ||| (v.toNat / 2 ^ 0 % 256) <<< 24 = _
  have hmod0 : v.toNat / 2 ^ 0 % 256 = b0 := by
    rw [Nat.pow_zero, Nat.div_one]
    omega
  have hmod8 : v.toNat / 2 ^ 8 % 256 = b1 := by omega
  have hmod16 : v.toNat / 2 ^ 16 % 256 = b2 := by omega
  have hmod24 : v.toNat / 2 ^ 24 % 256 = b3 := by omega
  have hlow : b3 ||| b2 <<< 8 = b3 + b2 * 2 ^ 8 := or_shiftLeft_of_lt (by omega) b2
  have hmid := @or_shiftLeft_of_lt (b3 + b2 * 2 ^ 8) 16 (by omega) b1
  have hhigh := @or_shiftLeft_of_lt (b3 + b2 * 2 ^ 8 + b1 * 2 ^ 16) 24 (by omega) b0
  rw [hmod0, hmod8, hmod16, hmod24, Nat.shiftLeft_zero, hlow, hmid, hhigh]
  omega

lemma toLE_swap16 (v : UInt16) : toLE 2 (swap16 v).toNat = toBE 2 v.toNat := by
  have hv := v.toNat_lt
  obtain ⟨b1, b0, hb1, hb0, hsplit⟩ : ∃ b1 b0, b1 < 256 ∧ b0 < 256 ∧ v.toNat = b0 + 256 * b1 :=
    ⟨v.toNat / 256, v.toNat % 256, by omega, by omega, by omega⟩
  have hlast : ∀ b, b < 256 → toLE 1 b = [UInt8.ofNat b] := fun b hb => toLE_succ_add hb 0 0
  rw [toNat_swap16 hb1 hb0 hsplit, toBE, hsplit, toLE_succ_add hb1, hlast b0 hb0,
    toLE_succ_add hb0, hlast b1 hb1]
  rfl

lemma toLE_swap32 (v : UInt32) : toLE 4 (swap32 v).toNat = toBE 4 v.toNat := by
  have hv := v.toNat_lt
  obtain ⟨b3, b2, b1, b0, hb3, hb2, hb1, hb0, hsplit⟩ : ∃ b3 b2 b1 b0, b3 < 256 ∧ b2 < 256 ∧
      b1 < 256 ∧ b0 < 256 ∧ v.toNat = b0 + 256 * (b1 + 256 * (b2 + 256 * b3)) :=
    ⟨v.toNat / 2 ^ 24, v.toNat / 2 ^ 16 % 256, v.toNat / 2 ^ 8 % 256, v.toNat % 256, by omega,
      by omega, by omega, by omega, by omega⟩
  have hlast : ∀ b, b < 256 → toLE 1 b = [UInt8.ofNat b] := fun b hb => toLE_succ_add hb 0 0
  rw [toNat_swap32 hb3 hb2 hb1 hb0 hsplit, toBE, hsplit, toLE_succ_add hb3, toLE_succ_add hb2,
    toLE_succ_add hb1, hlast b0 hb0, toLE_succ_add hb0, toLE_succ_add hb1, toLE_succ_add hb2,
    hlast b3 hb3]
  rfl

end KConfuzz.Executor
