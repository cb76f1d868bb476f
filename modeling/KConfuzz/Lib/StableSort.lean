import Mathlib.Data.List.Sort
import Mathlib.Data.Prod.Lex

/-!
# Stable sorting by a key

`sliceStable less l` is the stable sort of `l` by the comparison `less`. When `less` compares
keys of a linear order, the result is determined by two facts: it is sorted by key, and the
elements of each key come in their original order (`eq_of_sorted_of_filter`). What happens to a
stable sort under filtering, or when a list is first split by a leading key, follows from that.
-/

namespace Lib.StableSort

open List

variable {α κ : Type*} {l : List α}

/-- Stable sort by the strict comparison `less`. -/
def sliceStable (less : α → α → Bool) (l : List α) : List α :=
  l.insertionSort fun a b => less b a = false

lemma sliceStable_perm (less : α → α → Bool) (l : List α) : (sliceStable less l).Perm l :=
  l.perm_insertionSort _

@[simp] lemma mem_sliceStable {less : α → α → Bool} {a : α} : a ∈ sliceStable less l ↔ a ∈ l :=
  (sliceStable_perm less l).mem_iff

variable [LinearOrder κ]

/-- `less` is the strict order of the keys. -/
def Compares (less : α → α → Bool) (key : α → κ) : Prop := ∀ a b, less a b = true ↔ key a < key b

/-- The list is sorted by key. -/
def SortedBy (key : α → κ) (l : List α) : Prop := l.Pairwise fun a b => key a ≤ key b

variable {less : α → α → Bool} {key : α → κ} {l₁ l₂ : List α}

section

variable (h : Compares less key)

include h

lemma Compares.eq_false_iff (a b : α) : less b a = false ↔ key a ≤ key b := by
  rw [← Bool.not_eq_true, h b a, not_lt]

lemma Compares.sortedBy_iff (l : List α) :
    l.Pairwise (fun a b => less b a = false) ↔ SortedBy key l := by
  simp only [SortedBy, h.eq_false_iff]

lemma Compares.total : Std.Total fun a b => less b a = false :=
  ⟨fun a b => by simpa only [h.eq_false_iff] using le_total (key a) (key b)⟩

lemma Compares.isTrans : IsTrans α fun a b => less b a = false :=
  ⟨fun a b c => by simpa only [h.eq_false_iff] using le_trans⟩

lemma Compares.sortedBy_sliceStable (l : List α) : SortedBy key (sliceStable less l) := by
  have := h.total
  have := h.isTrans
  exact (h.sortedBy_iff _).mp (l.pairwise_insertionSort _)

lemma Compares.sliceStable_eq_self (hl : SortedBy key l) : sliceStable less l = l :=
  ((h.sortedBy_iff l).mpr hl).insertionSort_eq

lemma Compares.filter_key_sliceStable (l : List α) (k : κ) :
    (sliceStable less l).filter (key · = k) = l.filter (key · = k) := by
  have hsorted : (l.filter (key · = k)).Pairwise fun a b => less b a = false := by
    refine pairwise_of_forall_mem_list fun a ha b hb => ?_
    simp only [mem_filter, decide_eq_true_eq] at ha hb
    rw [h.eq_false_iff, ha.2, hb.2]
  -- the elements of key `k` are a sorted sublist of `l`, so the sort keeps them in place
  have hsub : (l.filter (key · = k)).Sublist ((sliceStable less l).filter (key · = k)) := by
    simpa [sliceStable] using (sublist_insertionSort hsorted filter_sublist).filter (key · = k)
  exact (hsub.eq_of_length ((sliceStable_perm less l).filter _).length_eq.symm).symm

end

lemma mem_iff_of_filter (h : ∀ k, l₁.filter (key · = k) = l₂.filter (key · = k)) (x : α) :
    x ∈ l₁ ↔ x ∈ l₂ := by
  have := congrArg (x ∈ ·) (h (key x))
  simpa using this

/-- A list sorted by key is determined by the elements of each key, in order. -/
lemma eq_of_sorted_of_filter (h₁ : SortedBy key l₁) (h₂ : SortedBy key l₂)
    (h : ∀ k, l₁.filter (key · = k) = l₂.filter (key · = k)) : l₁ = l₂ := by
  induction l₁ generalizing l₂ with
  | nil =>
    cases l₂ with
    | nil => rfl
    | cons b l₂ => simpa using mem_iff_of_filter h b
  | cons a l₁ ih =>
    cases l₂ with
    | nil => simpa using mem_iff_of_filter h a
    | cons b l₂ =>
      rw [SortedBy, pairwise_cons] at h₁ h₂
      have hmem := mem_iff_of_filter h
      -- both heads have the least key, so they are the first elements of that key
      have hab : key a ≤ key b := by
        rcases mem_cons.mp ((hmem b).mpr (by simp)) with hb | hb
        · rw [hb]
        · exact h₁.1 b hb
      have hba : key b ≤ key a := by
        rcases mem_cons.mp ((hmem a).mp (by simp)) with ha | ha
        · rw [ha]
        · exact h₂.1 a ha
      have hkey : key b = key a := le_antisymm hba hab
      have heq : a = b := by
        have := h (key a)
        simp only [filter_cons, hkey, decide_true, if_true] at this
        exact (List.cons.inj this).1
      subst heq
      have htail : ∀ k, l₁.filter (key · = k) = l₂.filter (key · = k) := by
        intro k
        have := h k
        by_cases hk : key a = k
        · simpa [filter_cons, hk] using this
        · simpa [filter_cons, hk] using this
      rw [ih h₁.2 h₂.2 htail]

lemma Compares.filter_sliceStable (h : Compares less key) (p : α → Bool) (l : List α) :
    (sliceStable less l).filter p = sliceStable less (l.filter p) := by
  refine eq_of_sorted_of_filter ((h.sortedBy_sliceStable l).filter p)
    (h.sortedBy_sliceStable _) fun k => ?_
  rw [h.filter_key_sliceStable, filter_comm, h.filter_key_sliceStable, filter_comm]

/-- Images that depend on the key only come out the same from any arrangement of the list. -/
lemma Compares.map_sliceStable_eq {β : Type*} (h : Compares less key) (hperm : l₁.Perm l₂)
    {f : α → β} (hf : ∀ a ∈ l₁, ∀ b ∈ l₁, key a = key b → f a = f b) :
    (sliceStable less l₁).map f = (sliceStable less l₂).map f := by
  have hkeys : (sliceStable less l₁).map key = (sliceStable less l₂).map key := by
    have hsorted : ∀ l, ((sliceStable less l).map key).Pairwise (· ≤ ·) :=
      fun l => pairwise_map.mpr (h.sortedBy_sliceStable l)
    have hmap : ((sliceStable less l₁).map key).Perm ((sliceStable less l₂).map key) :=
      (((sliceStable_perm less l₁).trans hperm).trans (sliceStable_perm less l₂).symm).map key
    exact hmap.eq_of_pairwise' (hsorted l₁) (hsorted l₂)
  have hlen : (sliceStable less l₁).length = (sliceStable less l₂).length := by
    simpa using congrArg List.length hkeys
  refine ext_getElem (by simpa using hlen) fun i h₁ h₂ => ?_
  rw [getElem_map, getElem_map]
  rw [length_map] at h₁ h₂
  refine hf _ (mem_sliceStable.1 (getElem_mem h₁)) _
    (hperm.mem_iff.mpr (mem_sliceStable.1 (getElem_mem h₂))) ?_
  have := getElem_of_eq hkeys (i := i) (by simpa using h₁)
  simpa using this

/-! ## Sorting by a leading key first -/

/-- Of the parts of a list only the one at `k₀` has elements with the property. -/
lemma filter_flatMap_eq {ι : Type*} [DecidableEq ι] {ks : List ι} (hks : ks.Nodup)
    {part : ι → List α} {p : α → Bool} {k₀ : ι} {found : List α}
    (hpart : ∀ k, (part k).filter p = if k = k₀ then found else []) :
    (ks.flatMap part).filter p = if k₀ ∈ ks then found else [] := by
  induction ks with
  | nil => rfl
  | cons k ks ih =>
    rw [nodup_cons] at hks
    rw [flatMap_cons, filter_append, hpart k, ih hks.2]
    by_cases hk : k = k₀
    · rw [← hk]
      simp [hks.1]
    · have hk' : k₀ ≠ k := fun h => hk h.symm
      simp [hk, hk']

/-- Splitting a list by a leading key, in increasing order, and sorting the parts comes to
sorting by the leading key first. -/
lemma Compares.flatMap_sliceStable {ι : Type*} [LinearOrder ι] (h : Compares less key)
    {lead : α → ι} {less' : α → α → Bool} (h' : Compares less' fun a => toLex (lead a, key a))
    {ks : List ι} (hks : ks.Pairwise (· < ·)) (hl : ∀ a ∈ l, lead a ∈ ks) :
    (ks.flatMap fun k => sliceStable less (l.filter (lead · = k))) = sliceStable less' l := by
  have hlead : ∀ {k a}, a ∈ sliceStable less (l.filter (lead · = k)) → lead a = k := by
    intro k a ha
    rw [mem_sliceStable, mem_filter] at ha
    exact of_decide_eq_true ha.2
  refine eq_of_sorted_of_filter ?_ (h'.sortedBy_sliceStable l) fun k => ?_
  · rw [SortedBy, pairwise_flatMap]
    constructor
    · intro k _
      refine (h.sortedBy_sliceStable _).imp_of_mem fun ha hb hab => ?_
      rw [Prod.Lex.toLex_le_toLex]
      exact .inr ⟨(hlead ha).trans (hlead hb).symm, hab⟩
    · refine hks.imp fun hlt a ha b hb => ?_
      rw [Prod.Lex.toLex_le_toLex]
      refine .inl ?_
      rw [hlead ha, hlead hb]
      exact hlt
  · rw [h'.filter_key_sliceStable]
    obtain ⟨⟨k₀, k₁⟩, rfl⟩ := toLex.surjective k
    simp only [toLex_inj, Prod.mk.injEq, Bool.decide_and]
    have hpart : ∀ i, (sliceStable less (l.filter (lead · = i))).filter
        (fun a => decide (lead a = k₀) && decide (key a = k₁)) =
          if i = k₀ then l.filter (fun a => decide (lead a = k₀) && decide (key a = k₁))
          else [] := by
      intro i
      split
      · rename_i hi
        rw [hi, ← filter_filter, h.filter_key_sliceStable, filter_filter, filter_filter]
        refine filter_congr fun a _ => ?_
        cases decide (lead a = k₀) <;> simp
      · rename_i hi
        rw [filter_eq_nil_iff]
        intro a ha hkey
        simp only [Bool.and_eq_true, decide_eq_true_eq, hlead ha] at hkey
        exact hi hkey.1
    rw [filter_flatMap_eq (hks.imp ne_of_lt) hpart]
    split
    · rfl
    · rename_i hk
      symm
      rw [filter_eq_nil_iff]
      intro a ha hkey
      simp only [Bool.and_eq_true, decide_eq_true_eq] at hkey
      exact hk (hkey.1 ▸ hl a ha)

end Lib.StableSort
