import Mathlib.Algebra.Ring.Nat
import Mathlib.Tactic.SplitIfs

/-!
# One's complement sums

The 16-bit one's complement sum of a packet adds its big-endian words with the carry brought
around to the end; the last byte of a packet of odd length is padded with a zero. Such a sum
depends on the plain sum of the words only (`onesSum_eq`), and it does not matter for the sum to
be `0xffff` in which byte order the words are added (`onesSum_eq_ffff_iff`).
-/

namespace Lib.OnesComplement

open List

/-- Addition with the carry brought around. -/
def endAround (a b : ℕ) : ℕ := if a + b ≤ 0xffff then a + b else a + b - 0xffff

/-- The words of a packet, `word` makes one of its two bytes. -/
def words (word : ℕ → ℕ → ℕ) : List UInt8 → List ℕ
  | [] => []
  | [a] => [word a.toNat 0]
  | a :: b :: bytes => word a.toNat b.toNat :: words word bytes

def bigEndian (a b : ℕ) : ℕ := 256 * a + b

def littleEndian (a b : ℕ) : ℕ := a + 256 * b

variable (bytes : List UInt8) {l : List UInt8} {n : ℕ}

def onesSum : ℕ := (words bigEndian bytes).foldl endAround 0

/-- The plain sum of the little-endian words. -/
def wordSum : ℕ := (words littleEndian bytes).sum

/-- What is left of a number when its carries have been brought around: 0 stays 0, and any other
number goes to its representative modulo `0xffff` in `1, …, 0xffff`. -/
def fold (n : ℕ) : ℕ := if n = 0 then 0 else (n - 1) % 0xffff + 1

lemma fold_le (n : ℕ) : fold n ≤ 0xffff := by
  unfold fold
  split_ifs <;> omega

lemma fold_eq_self (h : n ≤ 0xffff) : fold n = n := by
  unfold fold
  split_ifs <;> omega

lemma fold_eq_ffff_iff : fold n = 0xffff ↔ n ≠ 0 ∧ 0xffff ∣ n := by
  unfold fold
  by_cases h : n = 0
  · simp [h]
  · rw [if_neg h]
    omega

/-- Adding what is missing to `0xffff` makes a multiple of it. -/
lemma dvd_add_sub_fold (n : ℕ) : 0xffff ∣ n + (0xffff - fold n) := by
  unfold fold
  split_ifs <;> omega

lemma endAround_fold (m : ℕ) (h : n ≤ 0xffff) : endAround (fold m) n = fold (m + n) := by
  unfold endAround fold
  split_ifs <;> omega

/-- Carries can be brought around at any time. -/
lemma fold_fold_add (m n : ℕ) : fold (fold m + n) = fold (m + n) := by
  unfold fold
  split_ifs <;> omega

lemma foldl_endAround (m : ℕ) {l : List ℕ} (h : ∀ n ∈ l, n ≤ 0xffff) :
    l.foldl endAround (fold m) = fold (m + l.sum) := by
  induction l generalizing m with
  | nil => rfl
  | cons n l ih =>
    obtain ⟨hn, hl⟩ := forall_mem_cons.mp h
    rw [foldl_cons, endAround_fold m hn, ih _ hl, sum_cons, Nat.add_assoc]

lemma words_bigEndian_le : ∀ n ∈ words bigEndian bytes, n ≤ 0xffff := by
  induction bytes using words.induct with
  | case1 => simp [words]
  | case2 a =>
    have ha := a.toNat_lt
    simp only [words, bigEndian, forall_mem_singleton]
    omega
  | case3 a b bytes ih =>
    have ha := a.toNat_lt
    have hb := b.toNat_lt
    rw [words, forall_mem_cons]
    refine ⟨?_, ih⟩
    unfold bigEndian
    omega

lemma onesSum_eq : onesSum bytes = fold (words bigEndian bytes).sum := by
  have h := foldl_endAround 0 (words_bigEndian_le bytes)
  rw [Nat.zero_add] at h
  exact h

/-- The sums of the two byte orders: swapping the bytes of a word multiplies it by 256 modulo
`0xffff`. -/
lemma sum_bigEndian :
    ∃ k, (words bigEndian bytes).sum + 0xffff * k = 256 * wordSum bytes ∧
      ((words bigEndian bytes).sum = 0 ↔ wordSum bytes = 0) := by
  unfold wordSum
  induction bytes using words.induct with
  | case1 => exact ⟨0, by simp [words]⟩
  | case2 a =>
    refine ⟨0, ?_, ?_⟩
    · simp [words, bigEndian, littleEndian]
    · simp only [words, bigEndian, littleEndian, sum_singleton]
      omega
  | case3 a b bytes ih =>
    obtain ⟨k, hk, hzero⟩ := ih
    refine ⟨k + b.toNat, ?_, ?_⟩
    · simp only [words, bigEndian, littleEndian, sum_cons]
      omega
    · simp only [words, bigEndian, littleEndian, sum_cons]
      omega

lemma onesSum_eq_ffff_iff :
    onesSum bytes = 0xffff ↔ wordSum bytes ≠ 0 ∧ 0xffff ∣ wordSum bytes := by
  obtain ⟨k, hk, hzero⟩ := sum_bigEndian bytes
  rw [onesSum_eq, fold_eq_ffff_iff]
  omega

lemma wordSum_append (h : l.length % 2 = 0) (l' : List UInt8) :
    wordSum (l ++ l') = wordSum l + wordSum l' := by
  induction l using words.induct with
  | case1 => simp [wordSum, words]
  | case2 a => simp at h
  | case3 a b bytes ih =>
    have hrest : bytes.length % 2 = 0 := by
      simp only [length_cons] at h
      omega
    have happend := ih hrest
    simp only [wordSum, words, cons_append, sum_cons] at happend ⊢
    omega

lemma wordSum_replace (h : l.length % 2 = 0) (a b : UInt8) (l' : List UInt8) :
    wordSum (l ++ [a, b] ++ l') = wordSum (l ++ [0, 0] ++ l') + (a.toNat + 256 * b.toNat) := by
  have hpair : ∀ x y : UInt8, wordSum ([x, y] ++ l') = x.toNat + 256 * y.toNat + wordSum l' := by
    intro x y
    simp [wordSum, words, littleEndian]
  rw [append_assoc, append_assoc, wordSum_append h, wordSum_append h, hpair, hpair]
  simp only [UInt8.toNat_zero]
  omega

lemma wordSum_le : 2 * wordSum bytes ≤ 0xffff * (bytes.length + 1) := by
  unfold wordSum
  induction bytes using words.induct with
  | case1 => simp [words]
  | case2 a =>
    have ha := a.toNat_lt
    simp [words, littleEndian]
    omega
  | case3 a b bytes ih =>
    have ha := a.toNat_lt
    have hb := b.toNat_lt
    simp only [words, littleEndian, sum_cons, length_cons]
    omega

end Lib.OnesComplement
