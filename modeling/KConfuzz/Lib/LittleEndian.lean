import Mathlib.Algebra.Ring.Nat

/-!
# Little-endian numbers

`toLE n v` is the `n` byte little-endian form of `v` (its low `8 * n` bits), `toBE` the same
bytes in the other order, `ofLE` the number a list of bytes stands for, and `readLE` takes a number
off the front of a byte stream.
-/

namespace Lib.LittleEndian

def toLE : ℕ → ℕ → List UInt8
  | 0, _ => []
  | n + 1, v => UInt8.ofNat v :: toLE n (v / 256)

/-- The `n` byte big-endian form, the network byte order. -/
def toBE (n v : ℕ) : List UInt8 := (toLE n v).reverse

def ofLE : List UInt8 → ℕ
  | [] => 0
  | b :: bytes => b.toNat + 256 * ofLE bytes

def readLE (n : ℕ) (data : List UInt8) : Option (ℕ × List UInt8) :=
  if n ≤ data.length then some (ofLE (data.take n), data.drop n) else none

variable (n v : ℕ)

@[simp] lemma length_toLE : (toLE n v).length = n := by
  induction n generalizing v with
  | zero => rfl
  | succ n ih => simp [toLE, ih]

lemma take_toLE {k n : ℕ} (h : k ≤ n) (v : ℕ) : (toLE n v).take k = toLE k v := by
  induction k generalizing n v with
  | zero => rfl
  | succ k ih =>
    obtain ⟨n, rfl⟩ : ∃ m, n = m + 1 := ⟨n - 1, by omega⟩
    rw [toLE, toLE, List.take_succ_cons, ih (by omega)]

lemma toLE_succ_add {b : ℕ} (hb : b < 256) (n v : ℕ) :
    toLE (n + 1) (b + 256 * v) = UInt8.ofNat b :: toLE n v := by
  have hbyte : UInt8.ofNat (b + 256 * v) = UInt8.ofNat b := by
    rw [← UInt8.toNat_inj, UInt8.toNat_ofNat', UInt8.toNat_ofNat']
    exact Nat.add_mul_mod_self_left b 256 v
  rw [toLE, hbyte, Nat.add_mul_div_left _ _ (by omega), Nat.div_eq_of_lt hb, Nat.zero_add]

lemma toLE_mod : toLE n (v % 256 ^ n) = toLE n v := by
  induction n generalizing v with
  | zero => rfl
  | succ n ih =>
    have hmod : v % 256 ^ (n + 1) = v % 256 + 256 * (v / 256 % 256 ^ n) := by
      rw [Nat.pow_succ', Nat.mod_mul]
    have hbyte : UInt8.ofNat (v % 256) = UInt8.ofNat v := by
      rw [← UInt8.toNat_inj, UInt8.toNat_ofNat', UInt8.toNat_ofNat']
      exact Nat.mod_mod v 256
    rw [hmod, toLE_succ_add (Nat.mod_lt v (by omega)), ih, hbyte, toLE]

lemma ofLE_toLE : ofLE (toLE n v) = v % 256 ^ n := by
  induction n generalizing v with
  | zero => simp [toLE, ofLE, Nat.mod_one]
  | succ n ih =>
    have hbyte : (UInt8.ofNat v).toNat = v % 256 := UInt8.toNat_ofNat'
    rw [toLE, ofLE, ih, hbyte, Nat.pow_succ', Nat.mod_mul]

lemma ofLE_lt (bytes : List UInt8) : ofLE bytes < 256 ^ bytes.length := by
  induction bytes with
  | nil => simp [ofLE]
  | cons b bytes ih =>
    have hb := b.toNat_lt
    rw [ofLE, List.length_cons, Nat.pow_succ]
    omega

lemma toLE_ofLE (bytes : List UInt8) : toLE bytes.length (ofLE bytes) = bytes := by
  induction bytes with
  | nil => rfl
  | cons b bytes ih => rw [ofLE, List.length_cons, toLE_succ_add b.toNat_lt, ih, UInt8.ofNat_toNat]

lemma readLE_toLE_append {n v : ℕ} (h : v < 256 ^ n) (rest : List UInt8) :
    readLE n (toLE n v ++ rest) = some (v, rest) := by
  have htake : (toLE n v ++ rest).take n = toLE n v := List.take_left' (length_toLE n v)
  have hdrop : (toLE n v ++ rest).drop n = rest := List.drop_left' (length_toLE n v)
  have hlen : n ≤ (toLE n v ++ rest).length := by simp
  rw [readLE, if_pos hlen, htake, hdrop, ofLE_toLE, Nat.mod_eq_of_lt h]

end Lib.LittleEndian
