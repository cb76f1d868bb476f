import Mathlib.Data.List.Induction
import KConfuzz.Signal.Signal

/-!
# What `Minimize` selects

For every element some input that has it with the best priority is selected, so the inputs that
are selected have all of the signal.
-/

namespace KConfuzz.Signal

open Lib.FiniteMap Lib.GradedSet List

variable {α : Type} {corpus : List (Context α)} {e : UInt64} {p : ℤ} {i : ℕ}

/-- The elements of all inputs with their priorities, in the order of the loops. -/
def elems (corpus : List (Context α)) : List (ℕ × Sigma fun _ : UInt64 => ℤ) :=
  corpus.zipIdx.flatMap fun inp => inp.1.signal.entries.map (Prod.mk inp.2)

lemma covered_eq_foldl (corpus : List (Context α)) :
    covered corpus = (elems corpus).foldl (fun covered x => coverElem x.1 covered x.2) ∅ := by
  simp only [covered, elems, foldl_flatMap, foldl_map]

lemma mem_elems :
    (i, ⟨e, p⟩) ∈ elems corpus ↔ ∃ inp, corpus[i]? = some inp ∧ p ∈ inp.signal.lookup e := by
  simp only [elems, mem_flatMap, mem_map, AList.mem_lookup_iff]
  constructor
  · rintro ⟨⟨inp, j⟩, hinp, x, hx, heq⟩
    cases heq
    exact ⟨inp, mem_zipIdx_iff_getElem?.mp hinp, hx⟩
  · rintro ⟨inp, hinp, hp⟩
    exact ⟨(inp, i), mem_zipIdx_iff_getElem?.mpr hinp, _, hp, rfl⟩

/-- An element goes to the context with the highest priority. -/
lemma lookup_coverElem (i : ℕ) (covered : Covered) (x : Sigma fun _ : UInt64 => ℤ) (e : UInt64) :
    (coverElem i covered x).lookup e =
      if e = x.1 ∧ ∀ prev ∈ covered.lookup e, prev.1 < x.2 then some (x.2, i)
      else covered.lookup e := by
  unfold coverElem
  by_cases he : e = x.1
  · subst he
    cases hprev : covered.lookup x.1 with
    | none => simp
    | some prev =>
      by_cases hlt : prev.1 < x.2
      · simp [hlt]
      · simp [hlt, hprev]
  · rw [if_neg fun h => he h.1]
    split
    · rw [AList.lookup_insert_ne he]
    · split_ifs
      · rw [AList.lookup_insert_ne he]
      · rfl

lemma pairwise_elems (corpus : List (Context α)) : (elems corpus).Pairwise (·.1 ≤ ·.1) := by
  have hidx : (corpus.zipIdx.map Prod.snd).Pairwise (· < ·) := by
    rw [zipIdx_map_snd]
    exact pairwise_lt_range'
  rw [pairwise_map] at hidx
  rw [elems, pairwise_flatMap]
  constructor
  · intro inp _
    exact pairwise_map.mpr (pairwise_of_forall fun _ _ => le_refl _)
  · refine hidx.imp fun hlt x hx y hy => ?_
    obtain ⟨_, -, rfl⟩ := mem_map.mp hx
    obtain ⟨_, -, rfl⟩ := mem_map.mp hy
    exact hlt.le

/-- An element that some input has is covered, by the first input that has it with the best
priority. -/
lemma lookup_covered (corpus : List (Context α)) (e : UInt64) :
    (∀ q j, (j, ⟨e, q⟩) ∈ elems corpus → ∃ best, best ∈ (covered corpus).lookup e) ∧
      ∀ p i, (p, i) ∈ (covered corpus).lookup e → (i, ⟨e, p⟩) ∈ elems corpus ∧
        ∀ q j, (j, ⟨e, q⟩) ∈ elems corpus → q ≤ p ∧ (j < i → q < p) := by
  rw [covered_eq_foldl]
  have hsorted := pairwise_elems corpus
  generalize elems corpus = l at hsorted ⊢
  induction l using reverseRecOn with
  | nil =>
    refine ⟨fun q j h => ?_, fun p i h => ?_⟩
    · cases h
    · cases h
  | append_singleton l x ih =>
    obtain ⟨hl, -, hle⟩ := pairwise_append.mp hsorted
    obtain ⟨hsome, hbest⟩ := ih hl
    rw [foldl_append, foldl_cons, foldl_nil, lookup_coverElem]
    split_ifs with hnew
    · -- everything before is worse
      obtain ⟨rfl, hlt⟩ := hnew
      refine ⟨fun _ _ _ => ⟨_, rfl⟩, fun p i h => ?_⟩
      cases h
      refine ⟨mem_append_right _ mem_cons_self, fun q j h => ?_⟩
      rcases mem_append.mp h with h | h
      · obtain ⟨⟨p, i⟩, hmem⟩ := hsome q j h
        have hworse := (((hbest p i hmem).2 q j h).1).trans_lt (hlt _ hmem)
        exact ⟨hworse.le, fun _ => hworse⟩
      · rw [← mem_singleton.mp h]
        exact ⟨le_refl _, fun hlt => absurd hlt (lt_irrefl _)⟩
    · refine ⟨fun q j h => ?_, fun p i h => ?_⟩
      · rcases mem_append.mp h with h | h
        · exact hsome q j h
        · rw [← mem_singleton.mp h] at hnew
          simp only [true_and, not_forall] at hnew
          obtain ⟨best, hmem, -⟩ := hnew
          exact ⟨best, hmem⟩
      · obtain ⟨hfrom, hworse⟩ := hbest p i h
        refine ⟨mem_append_left _ hfrom, fun q j hq => ?_⟩
        rcases mem_append.mp hq with hq | hq
        · exact hworse q j hq
        · -- an input that comes later has to be better to win
          have hij := hle _ hfrom x mem_cons_self
          rw [← mem_singleton.mp hq] at hnew hij
          simp only [true_and, not_forall] at hnew
          obtain ⟨best, hmem, hnot⟩ := hnew
          rw [Option.mem_unique hmem h] at hnot
          exact ⟨not_lt.mp hnot, fun hlt => absurd hlt (not_lt.mpr hij)⟩

lemma mem_indices : i ∈ indices corpus ↔ ∃ e p, (p, i) ∈ (covered corpus).lookup e := by
  simp only [indices, mem_dedup, mem_map, AList.mem_lookup_iff]
  constructor
  · rintro ⟨⟨e, p, _⟩, h, rfl⟩
    exact ⟨e, p, h⟩
  · rintro ⟨e, p, h⟩
    exact ⟨_, h, rfl⟩

lemma exists_best {inp : Context α} (hinp : inp ∈ corpus) (hp : p ∈ inp.signal.lookup e) :
    ∃ i ∈ indices corpus, ∃ winner, corpus[i]? = some winner ∧
      ∃ best ∈ winner.signal.lookup e, p ≤ best := by
  obtain ⟨j, hj⟩ := mem_iff_getElem?.mp hinp
  have helem := mem_elems.2 ⟨inp, hj, hp⟩
  obtain ⟨hsome, hbest⟩ := lookup_covered corpus e
  obtain ⟨⟨best, i⟩, hmem⟩ := hsome p j helem
  obtain ⟨hfrom, hworse⟩ := hbest best i hmem
  obtain ⟨winner, hwinner, hbest⟩ := mem_elems.1 hfrom
  exact ⟨i, mem_indices.2 ⟨e, best, hmem⟩, winner, hwinner, best, hbest, (hworse p j helem).1⟩

lemma atLeast_indices (corpus : List (Context α)) (e : UInt64) (p : ℤ) :
    (∃ inp ∈ corpus, atLeast inp.signal e p = true) ↔
      ∃ i ∈ indices corpus, ∃ inp, corpus[i]? = some inp ∧ atLeast inp.signal e p = true := by
  constructor
  · rintro ⟨inp, hinp, hp⟩
    obtain ⟨q, hq, hle⟩ := atLeast_iff.1 hp
    obtain ⟨i, hi, winner, hwinner, best, hbest, hqbest⟩ := exists_best hinp hq
    exact ⟨i, hi, winner, hwinner, atLeast_iff.2 ⟨best, hbest, hle.trans hqbest⟩⟩
  · rintro ⟨i, -, inp, hinp, hp⟩
    exact ⟨inp, mem_of_getElem? hinp, hp⟩

lemma mem_minimize {order : Shuffle ℕ} {x : α} :
    x ∈ minimize order corpus ↔ ∃ i ∈ indices corpus, ∃ inp, corpus[i]? = some inp ∧
      inp.context = x := by
  simp only [minimize, mem_filterMap, Shuffle.mem_order, Option.map_eq_some_iff]

lemma nodup_minimize {β : Type} {f : α → β} (order : Shuffle ℕ)
    (h : (corpus.map fun inp => f inp.context).Nodup) :
    ((minimize order corpus).map f).Nodup := by
  rw [minimize, map_filterMap]
  refine Nodup.filterMap (fun i j y hi hj => ?_) ((order.perm _).nodup_iff.mpr (nodup_dedup _))
  simp only [Option.map_map, Option.mem_def, Option.map_eq_some_iff] at hi hj
  obtain ⟨inp, hinp, rfl⟩ := hi
  obtain ⟨inp', hinp', heq⟩ := hj
  obtain ⟨hlt, rfl⟩ := List.getElem?_eq_some_iff.mp hinp
  obtain ⟨hlt', rfl⟩ := List.getElem?_eq_some_iff.mp hinp'
  have hinj := @List.Nodup.getElem_inj_iff _ _ h i (by simpa using hlt) j (by simpa using hlt')
  exact hinj.mp (by simpa using heq.symm)

/-- The input at the position is the first that has the element with the best priority. -/
def Wins (corpus : List (Context α)) (e : UInt64) (i : ℕ) : Prop :=
  ∃ inp p, corpus[i]? = some inp ∧ p ∈ inp.signal.lookup e ∧
    ∀ j other, corpus[j]? = some other → ∀ q ∈ other.signal.lookup e, q ≤ p ∧ (j < i → q < p)

lemma exists_wins (hi : i ∈ indices corpus) : ∃ e, Wins corpus e i := by
  obtain ⟨e, p, hmem⟩ := mem_indices.1 hi
  obtain ⟨hfrom, hworse⟩ := (lookup_covered corpus e).2 p i hmem
  obtain ⟨inp, hinp, hp⟩ := mem_elems.1 hfrom
  exact ⟨e, inp, p, hinp, hp, fun j other hother q hq => hworse q j (mem_elems.2 ⟨other, hother, hq⟩)⟩

/-- Inputs that together have every element with its best priority, and each of which is needed
for some element. -/
structure Selects (corpus : List (Context α)) (positions : List ℕ) : Prop where
  nodup : positions.Nodup
  lossless : ∀ e p, IsGreatest {q | ∃ inp ∈ corpus, q ∈ inp.signal.lookup e} p ↔
    IsGreatest {q | ∃ i ∈ positions, ∃ inp, corpus[i]? = some inp ∧ q ∈ inp.signal.lookup e} p
  wins : ∀ i ∈ positions, ∃ e, Wins corpus e i
  not_empty : ∀ i ∈ positions, ∀ inp, corpus[i]? = some inp → inp.signal.empty = false

/-- `Minimize` returns the inputs at the positions of such a selection. -/
theorem minimize_selects (order : Shuffle ℕ) (corpus : List (Context α)) :
    ∃ positions, minimize order corpus =
        positions.filterMap (fun i => corpus[i]?.map Context.context) ∧
      Selects corpus positions := by
  refine ⟨_, rfl, (order.perm _).nodup_iff.mpr (nodup_dedup _), fun e p => ?_, fun i hi => ?_, ?_⟩
  · simp only [order.mem_order]
    constructor
    · rintro ⟨⟨inp, hinp, hp⟩, hub⟩
      obtain ⟨i, hi, winner, hwinner, best, hbest, hle⟩ := exists_best hinp hp
      rw [le_antisymm hle (hub ⟨winner, mem_of_getElem? hwinner, hbest⟩)]
      refine ⟨⟨i, hi, winner, hwinner, hbest⟩, ?_⟩
      rintro q ⟨j, -, other, hother, hq⟩
      exact (hub ⟨other, mem_of_getElem? hother, hq⟩).trans hle
    · rintro ⟨⟨i, -, inp, hinp, hp⟩, hub⟩
      refine ⟨⟨inp, mem_of_getElem? hinp, hp⟩, ?_⟩
      rintro q ⟨other, hother, hq⟩
      obtain ⟨j, hj, winner, hwinner, best, hbest, hle⟩ := exists_best hother hq
      exact hle.trans (hub ⟨j, hj, winner, hwinner, hbest⟩)
  · exact exists_wins (order.mem_order.1 hi)
  · intro i hi inp hinp
    obtain ⟨e, inp', p, hinp', hp, -⟩ := exists_wins (order.mem_order.1 hi)
    cases hinp.symm.trans hinp'
    have hkey : e ∈ inp.signal.keys := AList.mem_keys.mp (mem_iff_exists_lookup.2 ⟨p, hp⟩)
    rw [empty, isEmpty_eq_false_iff]
    exact ne_nil_of_mem hkey

end KConfuzz.Signal
