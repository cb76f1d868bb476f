import Mathlib.Data.Set.Basic
import Mathlib.Data.List.Sublists

/-!
# Reference graphs with back links

A list of nodes in which a node may refer to an earlier one (`res`), and every node knows which
nodes refer to it (`uses`). `Consistent` says that the two directions agree. The lemmas say what
a change of the links has to do so that they still agree: when nodes are taken away, and when one
node takes over the reference of another.
-/

namespace Lib.LinkGraph

open List

variable {ι : Type*} {l pre post : List ι} {a b : ι}

/-- Both ends of every link are among `ids`, the referent first. -/
structure Consistent (res : ι → Option ι) (uses : ι → Set ι) (ids : List ι) : Prop where
  nodup : ids.Nodup
  earlier : ∀ a ∈ ids, ∀ t, res a = some t → [t, a].Sublist ids
  mem_uses : ∀ r ∈ ids, ∀ u, u ∈ uses r ↔ u ∈ ids ∧ res u = some r

lemma not_sublist_swap (hl : l.Nodup) (h : [a, b].Sublist l) : ¬ [b, a].Sublist l := by
  classical
  have hlt : l.Pairwise fun x y => l.idxOf x < l.idxOf y := by
    rw [pairwise_iff_getElem]
    intro i j hi hj hij
    rwa [hl.idxOf_getElem, hl.idxOf_getElem]
  rw [pairwise_iff_forall_sublist] at hlt
  exact fun h' => lt_asymm (hlt h) (hlt h')

/-- Two elements in order are on one side, or one on each. -/
lemma pair_sublist_append_iff {l' : List ι} :
    [a, b].Sublist (l ++ l') ↔ [a, b].Sublist l ∨ (a ∈ l ∧ b ∈ l') ∨ [a, b].Sublist l' := by
  rw [sublist_append_iff]
  constructor
  · rintro ⟨l₁, l₂, heq, h₁, h₂⟩
    -- the list is cut before, between or behind the two
    rcases l₁ with - | ⟨x, - | ⟨y, l₁⟩⟩
    · exact .inr (.inr (heq ▸ h₂))
    · obtain ⟨rfl, rfl⟩ := heq
      exact .inr (.inl ⟨singleton_sublist.mp h₁, singleton_sublist.mp h₂⟩)
    · simp only [cons_append, List.cons.injEq, nil_eq, append_eq_nil_iff] at heq
      obtain ⟨rfl, rfl, rfl, rfl⟩ := heq
      exact .inl h₁
  · rintro (h | ⟨ha, hb⟩ | h)
    · exact ⟨[a, b], [], rfl, h, nil_sublist _⟩
    · exact ⟨[a], [b], rfl, singleton_sublist.mpr ha, singleton_sublist.mpr hb⟩
    · exact ⟨[], [a, b], rfl, nil_sublist _, h⟩

lemma mem_of_sublist_pair {t : ι} (hl : (pre ++ a :: post).Nodup)
    (h : [t, a].Sublist (pre ++ a :: post)) : t ∈ pre := by
  rw [nodup_middle, nodup_cons, mem_append, not_or] at hl
  rcases pair_sublist_append_iff.1 h with h | ⟨ht, -⟩ | h
  · exact absurd (h.subset (by simp)) hl.1.1
  · exact ht
  · cases h with
    | cons _ h | cons_cons _ h => exact absurd (h.subset (by simp)) hl.1.2

lemma sublist_append_of_notMem (h : l.Sublist (pre ++ b :: post)) (hb : b ∉ l) :
    l.Sublist (pre ++ post) := by
  obtain ⟨l₁, l₂, rfl, h₁, h₂⟩ := sublist_append_iff.mp h
  refine h₁.append ?_
  rcases sublist_cons_iff.mp h₂ with h₂ | ⟨r, rfl, -⟩
  · exact h₂
  · exact absurd (by simp) hb

namespace Consistent

variable {res res' : ι → Option ι} {uses uses' : ι → Set ι} {ids : List ι}

section

variable (h : Consistent res uses ids)

include h

lemma ne_of_res {t : ι} (ha : a ∈ ids) (hres : res a = some t) : t ≠ a := by
  rintro rfl
  exact nodup_iff_sublist.mp h.nodup t (h.earlier t ha t hres)

lemma congr (hres : ∀ a ∈ ids, res' a = res a)
    (huses : ∀ r ∈ ids, ∀ u, u ∈ uses' r ↔ u ∈ uses r) : Consistent res' uses' ids where
  nodup := h.nodup
  earlier a ha t ht := h.earlier a ha t (by rw [← hres a ha, ht])
  mem_uses r hr u := by
    rw [huses r hr, h.mem_uses r hr]
    exact and_congr_right fun hu => by rw [hres u hu]

/-- The nodes in `dropped` go: those who referred to them refer to nothing, and they are no
longer among the uses of the others. -/
lemma remove (dropped : ι → Prop) [DecidablePred dropped]
    (hres : ∀ a ∈ ids, ¬ dropped a → res' a = (res a).filter (¬ dropped ·))
    (huses : ∀ r ∈ ids, ¬ dropped r → ∀ u, u ∈ uses' r ↔ u ∈ uses r ∧ ¬ dropped u) :
    Consistent res' uses' (ids.filter (¬ dropped ·)) := by
  refine ⟨h.nodup.filter _, ?_, ?_⟩
  · intro a ha t ht
    simp only [mem_filter, decide_eq_true_eq] at ha
    rw [hres a ha.1 ha.2, Option.filter_eq_some_iff, decide_eq_true_eq] at ht
    have hsub := (h.earlier a ha.1 t ht.1).filter (¬ dropped ·)
    rwa [filter_cons_of_pos (by simpa using ht.2),
      filter_cons_of_pos (by simpa using ha.2), filter_nil] at hsub
  · intro r hr u
    simp only [mem_filter, decide_eq_true_eq] at hr ⊢
    rw [huses r hr.1 hr.2, h.mem_uses r hr.1]
    constructor
    · rintro ⟨⟨hu, hur⟩, hdrop⟩
      refine ⟨⟨hu, hdrop⟩, ?_⟩
      rw [hres u hu hdrop, hur]
      simp [hr.2]
    · rintro ⟨⟨hu, hdrop⟩, hur⟩
      rw [hres u hu hdrop, Option.filter_eq_some_iff] at hur
      exact ⟨⟨hu, hur.1⟩, hdrop⟩

end

/-- The node `a` takes over the reference of `b`, which stands before it, is not used, and
goes. -/
lemma replace (h : Consistent res uses (pre ++ b :: a :: post)) (hunused : ∀ u, u ∉ uses b)
    (ha : res' a = res b) (hres : ∀ c ∈ pre ++ post, res' c = res c)
    (huses : ∀ r ∈ pre ++ a :: post, ∀ u, u ∈ uses' r ↔
      (u ≠ a ∧ u ≠ b ∧ u ∈ uses r) ∨ (u = a ∧ b ∈ uses r)) :
    Consistent res' uses' (pre ++ a :: post) := by
  have hb : b ∈ pre ++ b :: a :: post := by simp
  have hsub : (pre ++ a :: post).Sublist (pre ++ b :: a :: post) :=
    (sublist_cons_self b _).append_left pre
  have hnodup := h.nodup.sublist hsub
  have hba : b ∉ pre ++ a :: post := by
    have := h.nodup
    rw [nodup_middle, nodup_cons] at this
    exact this.1
  -- nothing that stays refers to the node that goes
  have hne : ∀ c ∈ pre ++ b :: a :: post, res c ≠ some b := by
    intro c hc hcb
    exact hunused c ((h.mem_uses b hb c).mpr ⟨hc, hcb⟩)
  have hcases : ∀ c ∈ pre ++ a :: post, c = a ∨ (c ≠ a ∧ c ∈ pre ++ post) := by
    intro c hc
    simp only [mem_append, mem_cons] at hc ⊢
    tauto
  refine ⟨hnodup, ?_, ?_⟩
  · intro c hc t ht
    rcases hcases c hc with rfl | ⟨hca, hc'⟩
    · -- the referent stood before `b`, so it stands before `c`
      rw [ha] at ht
      have htpre := mem_of_sublist_pair h.nodup (h.earlier b hb t ht)
      exact (singleton_sublist.mpr htpre).append
        (singleton_sublist.mpr (mem_cons_self : c ∈ c :: post))
    · rw [hres c hc'] at ht
      have hc'' := hsub.subset hc
      refine sublist_append_of_notMem (h.earlier c hc'' t ht) ?_
      simp only [mem_cons, not_mem_nil, or_false, not_or]
      constructor
      · rintro rfl
        exact hne c hc'' ht
      · rintro rfl
        exact hba hc
  · intro r hr u
    have hr' := hsub.subset hr
    rw [huses r hr u, h.mem_uses r hr' u, h.mem_uses r hr' b]
    by_cases hua : u = a
    · subst hua
      simp [ha, hb]
    · simp only [ne_eq, hua, not_false_eq_true, true_and, false_and, or_false]
      constructor
      · rintro ⟨hub, hu, hur⟩
        have hmem : u ∈ pre ++ post := by
          simp only [mem_append, mem_cons, hub, hua, false_or] at hu ⊢
          exact hu
        refine ⟨?_, by rw [hres u hmem, hur]⟩
        simp only [mem_append, mem_cons, hua, false_or] at hmem ⊢
        exact hmem
      · rintro ⟨hu, hur⟩
        rcases hcases u hu with rfl | ⟨-, hmem⟩
        · exact absurd rfl hua
        · rw [hres u hmem] at hur
          refine ⟨?_, hsub.subset hu, hur⟩
          rintro rfl
          exact hba hu

end Consistent

end Lib.LinkGraph
