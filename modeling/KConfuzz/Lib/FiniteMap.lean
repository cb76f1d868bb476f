import Mathlib.Data.List.AList

/-!
# Finite maps that are iterated over

Association lists stand for hash maps. `modify` changes the value of a key that is present and
`keep` removes the entries that fail a test, as a loop that deletes while it iterates does. The
order in which a hash map is iterated is not fixed: a `Shuffle` is one choice of it.
-/

namespace Lib.FiniteMap

variable {κ ν α : Type} [DecidableEq κ]

/-- A rearrangement of every list. -/
structure Shuffle (α : Type) where
  order : List α → List α
  perm : ∀ l, (order l).Perm l

/-- Iteration in the order of the list. -/
def Shuffle.id : Shuffle α := ⟨fun l => l, fun l => .refl l⟩

lemma Shuffle.mem_order (s : Shuffle α) {l : List α} {a : α} : a ∈ s.order l ↔ a ∈ l :=
  (s.perm l).mem_iff

/-- Changes the value of a key, if the map has the key. -/
def modify (m : AList fun _ : κ => ν) (k : κ) (f : ν → ν) : AList fun _ : κ => ν :=
  match m.lookup k with
  | none => m
  | some v => m.insert k (f v)

/-- The entries that pass the test. -/
def keep (p : κ → ν → Bool) (m : AList fun _ : κ => ν) : AList fun _ : κ => ν where
  entries := m.entries.filter fun e => p e.1 e.2
  nodupKeys := m.nodupKeys.sublist List.filter_sublist

section Lookup

variable {m : AList fun _ : κ => ν} {k k' : κ} {v : ν} {p : κ → ν → Bool} {f : ν → ν}

lemma lookup_insert_eq (m : AList fun _ : κ => ν) (k k' : κ) (v : ν) :
    (m.insert k v).lookup k' = if k' = k then some v else m.lookup k' := by
  by_cases h : k' = k
  · rw [if_pos h, h, AList.lookup_insert]
  · rw [if_neg h, AList.lookup_insert_ne h]

lemma lookup_modify (m : AList fun _ : κ => ν) (k k' : κ) (f : ν → ν) :
    (modify m k f).lookup k' = if k' = k then (m.lookup k').map f else m.lookup k' := by
  unfold modify
  split
  · rename_i hnone
    by_cases h : k' = k
    · rw [if_pos h, h, hnone, Option.map_none]
    · rw [if_neg h]
  · rename_i v hsome
    rw [lookup_insert_eq]
    by_cases h : k' = k
    · rw [if_pos h, if_pos h, h, hsome, Option.map_some]
    · rw [if_neg h, if_neg h]

lemma mem_modify : k' ∈ modify m k f ↔ k' ∈ m := by
  rw [← AList.lookup_isSome, ← AList.lookup_isSome, lookup_modify]
  split <;> simp

lemma lookup_modify_self (h : v ∈ m.lookup k) : (modify m k f).lookup k = some (f v) := by
  rw [lookup_modify, if_pos rfl, Option.mem_def.mp h, Option.map_some]

lemma lookup_modify_ne (h : k' ≠ k) : (modify m k f).lookup k' = m.lookup k' := by
  rw [lookup_modify, if_neg h]

lemma map_lookup_modify {g : ν → α} (hf : ∀ v, g (f v) = g v) (k' : κ) :
    ((modify m k f).lookup k').map g = (m.lookup k').map g := by
  rw [lookup_modify]
  split
  · rw [Option.map_map]
    exact congrArg (fun g => (m.lookup k').map g) (funext hf)
  · rfl

lemma mem_lookup_keep : v ∈ (keep p m).lookup k ↔ v ∈ m.lookup k ∧ p k v = true := by
  rw [AList.mem_lookup_iff, AList.mem_lookup_iff, keep, List.mem_filter]

lemma mem_iff_exists_lookup : k ∈ m ↔ ∃ v, v ∈ m.lookup k := by
  rw [← AList.lookup_isSome, Option.isSome_iff_exists]
  rfl

lemma mem_of_lookup (h : v ∈ m.lookup k) : k ∈ m := mem_iff_exists_lookup.2 ⟨v, h⟩

section Map

variable {ν' : Type} {m' : AList fun _ : κ => ν'} {g : ν → α} {g' : ν' → α}
  (h : (m.lookup k).map g = (m'.lookup k).map g')

include h

lemma mem_iff_of_map_lookup : k ∈ m ↔ k ∈ m' := by
  have heq := congrArg Option.isSome h
  rw [Option.isSome_map, Option.isSome_map] at heq
  rw [← AList.lookup_isSome, ← AList.lookup_isSome, heq]

lemma exists_of_map_lookup (hv : v ∈ m.lookup k) : ∃ v' ∈ m'.lookup k, g' v' = g v := by
  rw [Option.mem_def.mp hv, Option.map_some, eq_comm, Option.map_eq_some_iff] at h
  exact h

end Map

lemma keep_eq_self (h : ∀ k v, v ∈ m.lookup k → p k v = true) : keep p m = m := by
  apply AList.ext
  show m.entries.filter _ = m.entries
  rw [List.filter_eq_self]
  intro e he
  exact h e.1 e.2 (AList.mem_lookup_iff.mpr he)

end Lookup

end Lib.FiniteMap
