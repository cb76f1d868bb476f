import KConfuzz.Lib.StableSort

/-!
# Batches that end between sequence numbers

A list that is sorted by sequence number is cut behind the element at a given index, and the cut is
then moved behind the last element with the same number. What stands before the cut are all
elements up to that number.
-/

namespace Lib.Batch

open Lib.StableSort List

variable {α : Type} {seq : α → ℕ} {l : List α} {a : α} {i bound : ℕ}

lemma takeWhile_eq_filter (hsorted : SortedBy seq l) (hle : ∀ a ∈ l, bound ≤ seq a) :
    l.takeWhile (fun a => seq a = bound) = l.filter fun a => seq a ≤ bound := by
  induction l with
  | nil => rfl
  | cons a l ih =>
    obtain ⟨hfirst, htail⟩ := pairwise_cons.mp hsorted
    rw [forall_mem_cons] at hle
    by_cases ha : seq a = bound
    · rw [takeWhile_cons_of_pos (by simpa using ha), filter_cons_of_pos (by simpa using ha.le),
        ih htail hle.2]
    · have hlt : bound < seq a := lt_of_le_of_ne hle.1 (Ne.symm ha)
      rw [takeWhile_cons_of_neg (by simpa using ha), eq_comm, filter_eq_nil_iff, forall_mem_cons]
      refine ⟨by simpa using hlt, fun b hb => ?_⟩
      simpa using hlt.trans_le (hfirst b hb)

/-- The index behind the last element that has the number of the element at `i`. -/
def cutAfter (seq : α → ℕ) (l : List α) (i bound : ℕ) : ℕ :=
  i + 1 + ((l.drop (i + 1)).takeWhile fun a => seq a = bound).length

/-- The cut is behind all elements with this number. -/
lemma take_cutAfter (hsorted : SortedBy seq l) (ha : l[i]? = some a) :
    l.take (cutAfter seq l i (seq a)) = l.filter fun b => seq b ≤ seq a := by
  obtain ⟨hi, rfl⟩ := List.getElem?_eq_some_iff.mp ha
  have hsplit : l.take i ++ l[i] :: l.drop (i + 1) = l := by
    rw [getElem_cons_drop, take_append_drop]
  rw [SortedBy, ← hsplit, pairwise_append, pairwise_cons] at hsorted
  obtain ⟨-, ⟨hback, htail⟩, hfront⟩ := hsorted
  have hkeep : (l.take i).filter (fun b => seq b ≤ seq l[i]) = l.take i :=
    filter_eq_self.mpr fun b hb => by simpa using hfront b hb _ mem_cons_self
  calc l.take (cutAfter seq l i (seq l[i]))
      = l.take (i + 1) ++ (l.drop (i + 1)).takeWhile fun b => seq b = seq l[i] := by
        rw [cutAfter, take_add, prefix_iff_eq_take.mp ( takeWhile_prefix _)]
        simp
    _ = (l.take i ++ l[i] :: l.drop (i + 1)).filter fun b => seq b ≤ seq l[i] := by
        rw [takeWhile_eq_filter htail hback, filter_append, hkeep, filter_cons_of_pos (by simp),
          take_succ_eq_append_getElem hi, append_assoc, singleton_append]
    _ = l.filter fun b => seq b ≤ seq l[i] := by rw [hsplit]

end Lib.Batch
