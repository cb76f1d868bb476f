import KConfuzz.Lib.Parser

/-!
# Parsers on a truncated input

An input that ends too early is reported in two ways: with `eof` when not a single token of the
part that is being read is there, and with `cut` when some are and others are missing. A parser
made of several reads therefore answers `eof` at every border between two of its parts.
`Truncates m s bytes ends` says that on every strict prefix of `bytes` the parser fails, with
`eof` at the lengths in `ends` and with `cut` at all others.
-/

namespace Lib.Parser

open List

variable {β ε σ α γ : Type}

section Reads

variable (eof cut : ε)

/-- Reads exactly `n` tokens. Reading none succeeds at the end of the input as well. -/
def readFull (n : ℕ) : StateParser β ε σ (List β) := fun s data =>
  if n ≤ data.length then .ok ((data.take n, s), data.drop n)
  else if data.length = 0 then .error eof
  else .error cut

def Truncates (m : StateParser β ε σ α) (s : σ) (bytes : List β) (ends : List ℕ) : Prop :=
  ∀ n < bytes.length, m s (bytes.take n) = .error (if n ∈ ends then eof else cut)

lemma parses_readFull (bytes : List β) (s : σ) :
    Parses (readFull eof cut bytes.length : StateParser β ε σ (List β)) s bytes bytes s := by
  intro rest
  have hlen : bytes.length ≤ (bytes ++ rest).length := by
    rw [length_append]
    omega
  rw [readFull, if_pos hlen, take_left, drop_left]

variable {eof cut : ε} {m : StateParser β ε σ α} {f : α → StateParser β ε σ γ} {s s' : σ}
  {bytes bytes' : List β} {ends ends' : List ℕ} {a : α}

lemma truncates_readFull (bytes : List β) (s : σ) :
    Truncates eof cut (readFull eof cut bytes.length : StateParser β ε σ (List β)) s bytes
      [0] := by
  intro n hn
  have hlen : (bytes.take n).length = n := length_take_of_le (by omega)
  rw [readFull, if_neg (by omega), hlen]
  simp only [mem_singleton]
  split
  · rfl
  · rfl

variable (hm : Truncates eof cut m s bytes ends)

include hm

/-- The borders of a part that is not empty are those of its own reads. -/
lemma Truncates.mono
    (h : ∀ n < bytes.length, n ∈ ends ↔ n ∈ ends') : Truncates eof cut m s bytes ends' := by
  intro n hn
  rw [hm n hn]
  simp only [h n hn]

/-- A read that is followed by another one: the input may end in the first or in the second. -/
lemma Truncates.bind (hends : ∀ n ∈ ends, n < bytes.length)
    (hparse : Parses m s bytes a s') (hf : Truncates eof cut (f a) s' bytes' ends') :
    Truncates eof cut (m >>= f) s (bytes ++ bytes')
      (ends ++ ends'.map (bytes.length + ·)) := by
  intro n hn
  rw [length_append] at hn
  have hmap : n ∈ ends'.map (bytes.length + ·) ↔ bytes.length ≤ n ∧ n - bytes.length ∈ ends' := by
    rw [mem_map]
    constructor
    · rintro ⟨k, hk, rfl⟩
      exact ⟨Nat.le_add_right _ _, by rwa [Nat.add_sub_cancel_left]⟩
    · rintro ⟨hle, hk⟩
      exact ⟨_, hk, Nat.add_sub_cancel' hle⟩
  by_cases hfirst : n < bytes.length
  · -- the input ends in the first part
    have herr := hm n hfirst
    have hlt : ¬ bytes.length ≤ n := by omega
    rw [take_append_of_le_length (by omega)]
    simp [Bind.bind, StateT.bind, herr, Except.bind, hmap, hlt]
  · -- the first part is there, the input ends in the second
    have herr := hf (n - bytes.length) (by omega)
    have hends : n ∉ ends := fun h => hfirst (hends n h)
    have htake : (bytes ++ bytes').take n = bytes ++ bytes'.take (n - bytes.length) := by
      rw [take_append, take_of_length_le (by omega)]
    rw [htake, hparse.bind_apply, herr]
    simp [hends, hmap, Nat.le_of_not_lt hfirst]

lemma Truncates.bind_nil : Truncates eof cut (m >>= f) s bytes ends := by
  intro n hn
  have herr := hm n hn
  simp only [Bind.bind, StateT.bind, herr, Except.bind]

end Reads

end Lib.Parser
