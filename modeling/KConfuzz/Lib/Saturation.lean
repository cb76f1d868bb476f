import Mathlib.Data.List.Induction

/-!
# Sweeps until nothing changes

A sweep lets each of some items change a state, one after the other, and sweeps are repeated until
one leaves the size of the state as it was. All items are settled then: what the step of an item
has achieved lasts as long as the size does not change.
-/

namespace Lib.Saturation

open List

variable {σ ι : Type*}

/-- Sweeps until one leaves the size as it was; none if there is no such one among the first `n`.
The order of the items can depend on the round. -/
def rounds (f : σ → ι → σ) (order : ℕ → List ι) (size : σ → ℕ) : ℕ → σ → Option σ
  | 0, _ => none
  | n + 1, s =>
    let s' := (order n).foldl f s
    if size s' = size s then some s' else rounds f order size n s'

variable {f : σ → ι → σ} {order : ℕ → List ι} {size m : σ → ℕ} {Settled : σ → ι → Prop} {s : σ}
  {l : List ι}

/-- A step that changes the state adds to a measure, the item of the step is settled, and so are
the others that were, if the size stays as it is. -/
structure Saturates (f : σ → ι → σ) (size m : σ → ℕ) (Settled : σ → ι → Prop) : Prop where
  grow : ∀ s i, f s i = s ∨ m s < m (f s i)
  size_le : ∀ s i, size s ≤ size (f s i)
  settle : ∀ s i, Settled (f s i) i
  keep : ∀ s i j, Settled s i → size (f s j) = size s → Settled (f s j) i

/-- The invariant rule for sweeps: a step keeps it, so the sweeps do. -/
lemma rounds_inv {Inv : σ → Prop} (hinv : ∀ n, ∀ i ∈ order n, ∀ s, Inv s → Inv (f s i))
    (h : Inv s) {n : ℕ} {s' : σ} (hs' : rounds f order size n s = some s') : Inv s' := by
  induction n generalizing s with
  | zero => cases hs'
  | succ n ih =>
    have hsweep := foldlRecOn (motive := Inv) (order n) f h fun s h i hi => hinv n i hi s h
    rw [rounds] at hs'
    split_ifs at hs'
    · cases hs'
      exact hsweep
    · exact ih hsweep hs'

namespace Saturates

variable (hf : Saturates f size m Settled)

include hf

lemma size_le_foldl : size s ≤ size (l.foldl f s) :=
  foldlRecOn (motive := (size s ≤ size ·)) l f (Nat.le_refl _) fun s' h i _ =>
    Nat.le_trans h (hf.size_le s' i)

/-- A sweep changes nothing, or it adds to the measure. -/
lemma foldl_eq_or_lt : l.foldl f s = s ∨ m s < m (l.foldl f s) := by
  refine foldlRecOn (motive := fun s' => s' = s ∨ m s < m s') l f (.inl rfl) ?_
  rintro s' hs' i -
  rcases hf.grow s' i with heq | hlt
  · rwa [heq]
  · rcases hs' with rfl | hlt'
    · exact .inr hlt
    · exact .inr (Nat.lt_trans hlt' hlt)

/-- After a sweep that leaves the size as it was all items are settled. -/
lemma foldl_settled (h : size (l.foldl f s) = size s) : ∀ i ∈ l, Settled (l.foldl f s) i := by
  induction l using reverseRecOn with
  | nil => simp
  | append_singleton l j ih =>
    rw [foldl_append] at h ⊢
    have hfirst := hf.size_le_foldl (s := s) (l := l)
    have hlast := hf.size_le (l.foldl f s) j
    simp only [foldl_cons, foldl_nil] at h ⊢
    rw [forall_mem_append]
    refine ⟨fun i hi => ?_, forall_mem_singleton.mpr (hf.settle _ j)⟩
    exact hf.keep _ _ _ (ih (by omega) i hi) (by omega)

/-- The measure is bounded, so there is a sweep that leaves the size as it was, and the sweeps end
with it. -/
lemma rounds_settled {Inv : σ → Prop} {bound n : ℕ}
    (hinv : ∀ n, ∀ i ∈ order n, ∀ s, Inv s → Inv (f s i)) (hbound : ∀ s, Inv s → m s ≤ bound)
    (h : Inv s) (hn : bound < m s + n) :
    ∃ s', rounds f order size n s = some s' ∧ ∃ k, ∀ i ∈ order k, Settled s' i := by
  induction n generalizing s with
  | zero =>
    have := hbound s h
    omega
  | succ n ih =>
    have hsweep := foldlRecOn (motive := Inv) (order n) f h fun s h i hi => hinv n i hi s h
    rw [rounds]
    split_ifs with hsize
    · exact ⟨_, rfl, n, hf.foldl_settled hsize⟩
    · rcases hf.foldl_eq_or_lt (s := s) (l := order n) with heq | hlt
      · exact absurd (congrArg size heq) hsize
      · exact ih hsweep (by omega)

end Saturates

end Lib.Saturation
