import Mathlib.Data.Nat.Notation

/-!
# Binary search

`find above n` is the smallest index below `n` at which `above` does not hold, or `n`. The loop
halves the interval in which the answer is, as long as `above` holds for a first part of the
indices and for none of the others.
-/

namespace Lib.BinarySearch

/-- The loop on the interval from `lo` to `hi`, for at most as many rounds as it is long. -/
def findLoop (above : ℕ → Bool) : ℕ → ℕ → ℕ → ℕ
  | 0, lo, _ => lo
  | fuel + 1, lo, hi =>
    if lo < hi then
      if above ((lo + hi) / 2) then findLoop above fuel ((lo + hi) / 2 + 1) hi
      else findLoop above fuel lo ((lo + hi) / 2)
    else lo

def find (above : ℕ → Bool) (n : ℕ) : ℕ := findLoop above n 0 n

/-- The search ends at the border. -/
lemma findLoop_eq {above : ℕ → Bool} {k : ℕ} (hbelow : ∀ i < k, above i = true) {n : ℕ}
    (habove : ∀ i, k ≤ i → i < n → above i = false) {fuel lo hi : ℕ} (hlo : lo ≤ k) (hhi : k ≤ hi)
    (hn : hi ≤ n) (hfuel : hi - lo ≤ fuel) : findLoop above fuel lo hi = k := by
  induction fuel generalizing lo hi with
  | zero =>
    show lo = k
    omega
  | succ fuel ih =>
    rw [findLoop]
    split
    · by_cases hmid : (lo + hi) / 2 < k
      · rw [if_pos (hbelow _ hmid)]
        exact ih (by omega) hhi hn (by omega)
      · have hfalse := habove ((lo + hi) / 2) (by omega) (by omega)
        rw [if_neg (by rw [hfalse]; exact Bool.false_ne_true)]
        exact ih hlo (by omega) (by omega) (by omega)
    · omega

lemma find_eq {above : ℕ → Bool} {n k : ℕ} (hbelow : ∀ i < k, above i = true)
    (habove : ∀ i, k ≤ i → i < n → above i = false) (hk : k ≤ n) : find above n = k :=
  findLoop_eq hbelow habove (Nat.zero_le k) hk (Nat.le_refl n) (by omega)

end Lib.BinarySearch
