import Mathlib.Order.Bounds.Basic
import KConfuzz.Lib.FiniteMap

/-!
# Graded sets

A finite map to a linear order grades its keys. It is known by the sets of keys of at least some
grade (`atLeast`), which get smaller as the grade goes up: merging two graded sets joins these
sets, and the grade of a key is the greatest one the key is at least of.
-/

namespace Lib.GradedSet

open Lib.FiniteMap

variable {κ ν : Type} [DecidableEq κ] [LinearOrder ν]

/-- The key has the grade `v` or a greater one. -/
def atLeast (m : AList fun _ : κ => ν) (k : κ) (v : ν) : Bool := (m.lookup k).any fun w => v ≤ w

/-- Gives a key the grade `v`, unless it has a greater one. -/
def raise (m : AList fun _ : κ => ν) (k : κ) (v : ν) : AList fun _ : κ => ν :=
  if atLeast m k v then m else m.insert k v

def merge (m m' : AList fun _ : κ => ν) : AList fun _ : κ => ν :=
  m'.entries.foldl (fun m e => raise m e.1 e.2) m

/-- The keys that have at least the same grade in the other set. -/
def common (m m' : AList fun _ : κ => ν) : AList fun _ : κ => ν := keep (atLeast m') m

variable {m m' : AList fun _ : κ => ν} {k k' : κ} {v w : ν}

lemma atLeast_iff : atLeast m k v = true ↔ ∃ w ∈ m.lookup k, v ≤ w := by
  simp [atLeast, Option.any_eq_true]

lemma atLeast_of_le (h : atLeast m k w = true) (hle : v ≤ w) : atLeast m k v = true := by
  obtain ⟨u, hu, hwu⟩ := atLeast_iff.1 h
  exact atLeast_iff.2 ⟨u, hu, hle.trans hwu⟩

lemma mem_lookup_iff_isGreatest : v ∈ m.lookup k ↔ IsGreatest {w | atLeast m k w = true} v := by
  constructor
  · intro hv
    refine ⟨atLeast_iff.2 ⟨v, hv, le_refl v⟩, fun w hw => ?_⟩
    obtain ⟨u, hu, hle⟩ := atLeast_iff.1 hw
    rw [Option.mem_unique hv hu]
    exact hle
  · rintro ⟨hv, hub⟩
    obtain ⟨u, hu, hle⟩ := atLeast_iff.1 hv
    rw [le_antisymm hle (hub (atLeast_iff.2 ⟨u, hu, le_refl u⟩))]
    exact hu

lemma atLeast_insert :
    atLeast (m.insert k v) k' w = true ↔ if k' = k then w ≤ v else atLeast m k' w = true := by
  unfold atLeast
  rw [lookup_insert_eq]
  split_ifs
  · simp
  · rfl

lemma atLeast_raise :
    atLeast (raise m k v) k' w = true ↔ atLeast m k' w = true ∨ k' = k ∧ w ≤ v := by
  unfold raise
  split_ifs with h
  · refine ⟨.inl, fun hor => hor.elim id ?_⟩
    rintro ⟨rfl, hle⟩
    exact atLeast_of_le h hle
  · rw [atLeast_insert]
    split_ifs with hkey
    · refine ⟨fun hle => .inr ⟨hkey, hle⟩, fun hor => hor.elim (fun hw => ?_) And.right⟩
      -- the old grade is less than `v`
      subst hkey
      exact (not_le.mp fun hle => h (atLeast_of_le hw hle)).le
    · simp [hkey]

/-- The merge has what either side has. -/
lemma atLeast_merge :
    atLeast (merge m m') k v = true ↔ atLeast m k v = true ∨ atLeast m' k v = true := by
  have hfold : ∀ (l : List (Sigma fun _ : κ => ν)) (m : AList fun _ : κ => ν),
      atLeast (l.foldl (fun m e => raise m e.1 e.2) m) k v = true ↔
        atLeast m k v = true ∨ ∃ e ∈ l, k = e.1 ∧ v ≤ e.2 := by
    intro l
    induction l with
    | nil => simp
    | cons e l ih =>
      intro m
      rw [List.foldl_cons, ih, atLeast_raise]
      simp only [List.mem_cons, exists_eq_or_imp, or_assoc]
  rw [merge, hfold, atLeast_iff (m := m')]
  refine or_congr_right ⟨?_, ?_⟩
  · rintro ⟨⟨k', w⟩, he, rfl, hle⟩
    exact ⟨w, AList.mem_lookup_iff.mpr he, hle⟩
  · rintro ⟨w, hw, hle⟩
    exact ⟨⟨k, w⟩, AList.mem_lookup_iff.mp hw, rfl, hle⟩

lemma atLeast_of_common (h : atLeast (common m m') k v = true) :
    atLeast m k v = true ∧ atLeast m' k v = true := by
  obtain ⟨w, hw, hle⟩ := atLeast_iff.1 h
  obtain ⟨hw, hother⟩ := mem_lookup_keep.1 hw
  obtain ⟨u, hu, hwu⟩ := atLeast_iff.1 hother
  exact ⟨atLeast_iff.2 ⟨w, hw, hle⟩, atLeast_iff.2 ⟨u, hu, hle.trans hwu⟩⟩

/-- The grades of the join of a family are the greatest ones in its members. -/
lemma mem_lookup_iff_of_join {F : (AList fun _ : κ => ν) → Prop}
    (h : ∀ v, atLeast m k v = true ↔ ∃ n, F n ∧ atLeast n k v = true) :
    v ∈ m.lookup k ↔ IsGreatest {w | ∃ n, F n ∧ w ∈ n.lookup k} v := by
  have hgreatest : ∀ {v}, v ∈ m.lookup k → IsGreatest {w | ∃ n, F n ∧ w ∈ n.lookup k} v := by
    intro v hv
    obtain ⟨hself, hub⟩ := mem_lookup_iff_isGreatest.1 hv
    have hle : ∀ w n, F n → w ∈ n.lookup k → w ≤ v := fun w n hn hw =>
      hub ((h w).mpr ⟨n, hn, atLeast_iff.2 ⟨w, hw, le_refl w⟩⟩)
    obtain ⟨n, hn, hv⟩ := (h v).mp hself
    obtain ⟨w, hw, hvw⟩ := atLeast_iff.1 hv
    rw [← le_antisymm hvw (hle w n hn hw)] at hw
    exact ⟨⟨n, hn, hw⟩, fun w ⟨n, hn, hw⟩ => hle w n hn hw⟩
  refine ⟨hgreatest, fun hv => ?_⟩
  obtain ⟨⟨n, hn, hmem⟩, -⟩ := id hv
  obtain ⟨u, hu, -⟩ := atLeast_iff.1 ((h v).mpr ⟨n, hn, atLeast_iff.2 ⟨v, hmem, le_refl v⟩⟩)
  rw [hv.unique (hgreatest hu)]
  exact hu

@[simp] lemma atLeast_empty : atLeast (∅ : AList fun _ : κ => ν) k v = false := rfl

end Lib.GradedSet
