import Mathlib.Data.List.Induction
import KConfuzz.Signal.Signal

/-!
# What the fuzzer hands over

Every element whose priority rises in `maxSignal` is in the difference that is returned, and goes
to the new signal; what is handed over together with what is still there is all of `maxSignal`.
-/

namespace KConfuzz

open Lib.FiniteMap Lib.GradedSet List

variable {s : Signal} {cover : Cover} {raw : List UInt64} {prio : UInt8} {e : UInt64} {v : ℤ}

namespace Signal

lemma fromRaw_eq (raw : List UInt64) (prio : UInt8) : fromRaw raw prio = diffRaw ∅ raw prio := rfl

/-- The difference has what is new. -/
lemma mem_lookup_diffRaw :
    v ∈ (diffRaw s raw prio).lookup e ↔ e ∈ raw ∧ v = prioType prio ∧ atLeast s e v = false := by
  induction raw using reverseRecOn with
  | nil => simp [diffRaw]
  | append_singleton raw x ih =>
    rw [diffRaw, foldl_append, ← diffRaw, foldl_cons, foldl_nil, mem_append, mem_singleton]
    by_cases hx : atLeast s x (prioType prio) = true
    · rw [if_pos hx, ih]
      refine and_congr_left fun h => (or_iff_left ?_).symm
      rintro rfl
      rw [h.1, hx] at h
      cases h.2
    · rw [if_neg hx, lookup_insert_eq]
      rw [Bool.not_eq_true] at hx
      split_ifs with heq
      · subst heq
        simp only [or_true, true_and, Option.mem_def, Option.some.injEq, eq_comm (b := v)]
        exact ⟨fun hv => ⟨hv, hv ▸ hx⟩, And.left⟩
      · rw [ih, or_iff_left heq]

lemma atLeast_diffRaw : atLeast (diffRaw s raw prio) e v = true ↔
    e ∈ raw ∧ v ≤ prioType prio ∧ atLeast s e (prioType prio) = false := by
  rw [atLeast_iff]
  constructor
  · rintro ⟨w, hw, hle⟩
    obtain ⟨he, rfl, hs⟩ := mem_lookup_diffRaw.1 hw
    exact ⟨he, hle, hs⟩
  · rintro ⟨he, hle, hs⟩
    exact ⟨_, mem_lookup_diffRaw.2 ⟨he, rfl, hs⟩, hle⟩

end Signal

open Signal

/-- `addRawMaxSignal` raises both signals by what it returns. -/
lemma addRawMaxSignal_spec {diff : Signal} {cover' : Cover}
    (h : cover.addRawMaxSignal raw prio = (diff, cover')) :
    diff = cover.maxSignal.diffRaw raw prio ∧ ∀ e v,
      (atLeast cover'.maxSignal e v = true ↔
        atLeast cover.maxSignal e v = true ∨ atLeast diff e v = true) ∧
      (atLeast cover'.newSignal e v = true ↔
        atLeast cover.newSignal e v = true ∨ atLeast diff e v = true) := by
  unfold Cover.addRawMaxSignal at h
  dsimp only at h
  split_ifs at h with hempty
  · cases h
    refine ⟨rfl, fun e v => ?_⟩
    have hnone : atLeast (cover.maxSignal.diffRaw raw prio) e v = false := by
      have hkeys := isEmpty_iff.mp hempty
      rw [atLeast, AList.lookup_eq_none.mpr (by rw [AList.mem_keys, hkeys]; simp)]
      rfl
    simp [hnone]
  · cases h
    exact ⟨rfl, fun e v => ⟨atLeast_merge, atLeast_merge⟩⟩

/-! ## Runs -/

inductive CoverOp
  | addRawMaxSignal (signal : List UInt64) (prio : UInt8)
  | grabSignalDelta

/-- The cover, and the deltas that were grabbed. -/
def CoverOp.step (st : Cover × List Signal) : CoverOp → Cover × List Signal
  | .addRawMaxSignal signal prio => ((st.1.addRawMaxSignal signal prio).2, st.2)
  | .grabSignalDelta => (st.1.grabSignalDelta.2, st.2 ++ [st.1.grabSignalDelta.1])

def runCover (ops : List CoverOp) : Cover × List Signal := ops.foldl CoverOp.step (⟨∅, ∅⟩, [])

/-- What was passed in and what was handed over have all of `maxSignal`. -/
lemma atLeast_runCover (ops : List CoverOp) (e : UInt64) (v : ℤ) :
    (atLeast (runCover ops).1.maxSignal e v = true ↔
      ∃ s, (∃ raw prio, .addRawMaxSignal raw prio ∈ ops ∧ fromRaw raw prio = s) ∧
        atLeast s e v = true) ∧
    (atLeast (runCover ops).1.maxSignal e v = true ↔
      ∃ s, (s ∈ (runCover ops).2 ∨ s = (runCover ops).1.newSignal) ∧ atLeast s e v = true) := by
  induction ops using reverseRecOn with
  | nil => simp [runCover]
  | append_singleton ops op ih =>
    rw [runCover, foldl_append, foldl_cons, foldl_nil, ← runCover]
    generalize runCover ops = st at ih
    cases op with
    | grabSignalDelta => simpa [CoverOp.step, Cover.grabSignalDelta] using ih
    | addRawMaxSignal raw prio =>
      simp only [CoverOp.step]
      cases hadd : st.1.addRawMaxSignal raw prio with
      | mk diff cover =>
        obtain ⟨rfl, hspec⟩ := addRawMaxSignal_spec hadd
        obtain ⟨hmax, hnew⟩ := hspec e v
        -- what is not in the difference was there before
        have hraw : atLeast cover.maxSignal e v = true ↔
            atLeast st.1.maxSignal e v = true ∨ atLeast (fromRaw raw prio) e v = true := by
          rw [hmax, fromRaw_eq, atLeast_diffRaw, atLeast_diffRaw]
          refine ⟨Or.imp_right fun h => ⟨h.1, h.2.1, rfl⟩, fun h => ?_⟩
          rcases h with h | ⟨he, hle, -⟩
          · exact .inl h
          · by_cases hthere : atLeast st.1.maxSignal e (prioType prio) = true
            · exact .inl (atLeast_of_le hthere hle)
            · exact .inr ⟨he, hle, Bool.not_eq_true _ ▸ hthere⟩
        constructor
        · rw [hraw, ih.1]
          simp only [mem_append, mem_singleton, CoverOp.addRawMaxSignal.injEq, or_and_right,
            exists_or, and_assoc, exists_and_left, exists_eq_left, exists_eq_left']
        · rw [hmax, ih.2]
          simp only [or_and_right, exists_or, exists_eq_left, hnew, or_assoc]

/-- The grabbed deltas and the new signal join to `maxSignal`, which is the join of the raw signals
with their priorities; and a call returns the elements whose priority rises, with the new one. -/
theorem runCover_accounts (ops : List CoverOp) (e : UInt64) (v : ℤ) :
    (v ∈ (runCover ops).1.maxSignal.lookup e ↔
      IsGreatest {w | ∃ s, (s ∈ (runCover ops).2 ∨ s = (runCover ops).1.newSignal) ∧
        w ∈ s.lookup e} v) ∧
    (v ∈ (runCover ops).1.maxSignal.lookup e ↔
      IsGreatest {w | ∃ s, (∃ raw prio, .addRawMaxSignal raw prio ∈ ops ∧ fromRaw raw prio = s) ∧
        w ∈ s.lookup e} v) ∧
    ∀ raw prio, v ∈ ((runCover ops).1.addRawMaxSignal raw prio).1.lookup e ↔
      v ∈ ((runCover ops).1.addRawMaxSignal raw prio).2.maxSignal.lookup e ∧
        ∀ u ∈ (runCover ops).1.maxSignal.lookup e, u < v := by
  refine ⟨mem_lookup_iff_of_join fun w => (atLeast_runCover ops e w).2,
    mem_lookup_iff_of_join fun w => (atLeast_runCover ops e w).1, fun raw prio => ?_⟩
  generalize (runCover ops).1 = cover
  cases hadd : cover.addRawMaxSignal raw prio with
  | mk diff cover' =>
    obtain ⟨rfl, hspec⟩ := addRawMaxSignal_spec hadd
    have hlow : (∀ u ∈ cover.maxSignal.lookup e, u < v) ↔ atLeast cover.maxSignal e v = false := by
      rw [← Bool.not_eq_true, atLeast_iff]
      simp
    rw [hlow, mem_lookup_diffRaw, mem_lookup_iff_isGreatest]
    constructor
    · rintro ⟨he, rfl, hnot⟩
      refine ⟨⟨(hspec e _).1.mpr (.inr (atLeast_diffRaw.2 ⟨he, le_rfl, hnot⟩)), fun w hw => ?_⟩, hnot⟩
      rcases (hspec e w).1.mp hw with hw | hw
      · exact (not_le.mp fun hle => Bool.false_ne_true (hnot.symm.trans (atLeast_of_le hw hle))).le
      · exact (atLeast_diffRaw.1 hw).2.1
    · rintro ⟨⟨hv, hub⟩, hnot⟩
      have hdiff := ((hspec e v).1.mp hv).resolve_left (by simp [hnot])
      obtain ⟨he, hle, hp⟩ := atLeast_diffRaw.1 hdiff
      have hge := hub ((hspec e _).1.mpr (.inr (atLeast_diffRaw.2 ⟨he, le_rfl, hp⟩)))
      exact ⟨he, le_antisymm hle hge, hnot⟩

end KConfuzz
