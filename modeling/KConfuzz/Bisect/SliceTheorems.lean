import KConfuzz.Bisect.Slice
import KConfuzz.Lib.ExceptFold

/-!
# What slice minimization returns

At every moment of the search there is a candidate: the chunks kept so far, the rest of the chunk
that is being split, and the chunks that follow. It shrinks only when the predicate was called on
the smaller candidate and held (`Sound`). A chunk is kept because the predicate does not hold
without it, and for a monotone predicate that stays so when the candidate shrinks (`Needed`); in
the end the chunks are single elements.
-/

namespace KConfuzz.Bisect

open Lib.ExceptFold List

variable {α ε : Type} {fuel : ℕ}

@[simp] lemma mergeChunks_nil : mergeChunks ([] : List (Chunk α)) = [] := rfl

@[simp] lemma mergeChunks_cons (chunk : Chunk α) (chunks : List (Chunk α)) :
    mergeChunks (chunk :: chunks) = chunk.elements ++ mergeChunks chunks := rfl

@[simp] lemma mergeChunks_append (chunks chunks' : List (Chunk α)) :
    mergeChunks (chunks ++ chunks') = mergeChunks chunks ++ mergeChunks chunks' :=
  flatMap_append

/-! ## Splitting a chunk -/

lemma cutEvery_flatten {size : ℕ} (hsize : 0 < size) {l : List α} (hfuel : l.length ≤ fuel) :
    (cutEvery size fuel l).flatten = l := by
  induction fuel generalizing l with
  | zero =>
    rw [length_eq_zero_iff.mp (Nat.le_zero.mp hfuel)]
    rfl
  | succ fuel ih =>
    cases l with
    | nil => rfl
    | cons x xs =>
      have hrest : ((x :: xs).drop size).length ≤ fuel := by
        rw [length_drop]
        omega
      rw [cutEvery, flatten_cons, ih hrest, take_append_drop]

variable {part : List α}

lemma mem_cutEvery {size : ℕ} (hsize : 0 < size) {l : List α} (h : part ∈ cutEvery size fuel l) :
    0 < part.length ∧ part.length ≤ size := by
  induction fuel generalizing l with
  | zero => cases h
  | succ fuel ih =>
    cases l with
    | nil => cases h
    | cons x xs =>
      rcases mem_cons.mp h with rfl | htail
      · rw [length_take, length_cons]
        omega
      · exact ih htail

lemma chunkSize_pos (n : ℕ) : 0 < if n = 0 then 1 else n := by
  split
  · exact Nat.one_pos
  · rename_i hn
    exact Nat.pos_of_ne_zero hn

lemma splitChunk_flatten (chunk : List α) (parts : ℕ) : (splitChunk chunk parts).flatten = chunk :=
  cutEvery_flatten (chunkSize_pos _) (Nat.le_refl _)

lemma length_pos_of_mem_splitChunk {chunk : List α} {parts : ℕ} (h : part ∈ splitChunk chunk parts) :
    0 < part.length :=
  (mem_cutEvery (chunkSize_pos _) h).1

/-- Half of a chunk is smaller than the chunk unless that is a single element. -/
lemma length_le_of_mem_splitChunk_two {chunk : List α} (h : part ∈ splitChunk chunk 2) :
    part.length ≤ (chunk.length + 1) / 2 := by
  have hpos : 0 < chunk.length := by
    cases chunk with
    | nil => cases h
    | cons x xs => exact Nat.succ_pos _
  have hlen := (mem_cutEvery (chunkSize_pos _) h).2
  rwa [if_neg (by omega)] at hlen

/-- A chunk that is cut in two and stays in one piece is a single element. -/
lemma length_eq_one_of_splitChunk {chunk : List α} (h : (splitChunk chunk 2).length = 1) :
    chunk.length = 1 := by
  obtain ⟨part, hpart⟩ := length_eq_one_iff.mp h
  have hflatten := splitChunk_flatten chunk 2
  rw [hpart, flatten_singleton] at hflatten
  have hmem : part ∈ splitChunk chunk 2 := by
    rw [hpart]
    exact mem_singleton.mpr rfl
  have hpos := length_pos_of_mem_splitChunk hmem
  have hlen := length_le_of_mem_splitChunk_two hmem
  rw [hflatten] at hpos hlen
  omega

/-! ## One call of the predicate -/

variable {cfg : Config α ε} {runs runs' : Runs α}

variable {candidate : List α} {ret : Bool} {chunk : Chunk α}

section

variable (h : predRun cfg runs candidate = .ok (ret, runs'))

include h

lemma predRun_cases :
    (runs.limitHit cfg ∧ ret = false ∧ runs' = runs) ∨
    (¬ runs.limitHit cfg ∧ cfg.pred candidate = .ok ret ∧
      runs' = ⟨runs.predRuns + 1, candidate :: runs.calls⟩) := by
  unfold predRun at h
  split at h
  · rename_i hlimit
    cases h
    exact .inl ⟨hlimit, rfl, rfl⟩
  · rename_i hlimit
    obtain ⟨b, hpred, hret⟩ := bind_eq_ok_iff.1 h
    cases hret
    exact .inr ⟨hlimit, hpred, rfl⟩

lemma predRun_predRuns_le : runs.predRuns ≤ runs'.predRuns := by
  rcases predRun_cases h with ⟨-, -, rfl⟩ | ⟨-, -, rfl⟩
  · exact Nat.le_refl _
  · exact Nat.le_succ _

lemma pred_of_predRun (hlimit : ¬ runs'.limitHit cfg) : cfg.pred candidate = .ok ret := by
  rcases predRun_cases h with ⟨hhit, -, rfl⟩ | ⟨-, hpred, -⟩
  · exact absurd hhit hlimit
  · exact hpred

end

lemma not_limitHit_of_le (hle : runs.predRuns ≤ runs'.predRuns)
    (hlimit : ¬ runs'.limitHit cfg) : ¬ runs.limitHit cfg := by
  intro hhit
  refine hlimit ⟨hhit.1, ?_⟩
  have := hhit.2
  omega

/-- The candidate is part of the slice, was tested unless it is the whole slice, and the calls are
within the limit. -/
structure Sound (cfg : Config α ε) (elems : List α) (runs : Runs α) (candidate : List α) :
    Prop where
  sublist : candidate.Sublist elems
  tested : candidate = elems ∨ candidate ∈ runs.calls ∧ cfg.pred candidate = .ok true
  count : runs.predRuns = runs.calls.length
  limit : 0 < cfg.maxSteps → runs.predRuns ≤ cfg.maxSteps

/-- One more run of the predicate keeps the candidate sound. -/
lemma Sound.predRun {elems smaller : List α} (h : Sound cfg elems runs candidate)
    (hrun : predRun cfg runs smaller = .ok (ret, runs')) :
    Sound cfg elems runs' candidate := by
  rcases predRun_cases hrun with ⟨-, -, rfl⟩ | ⟨hlimit, -, rfl⟩
  · exact h
  · refine { sublist := h.sublist, tested := ?_, count := ?_, limit := ?_ }
    · rcases h.tested with heq | ⟨hmem, hpred⟩
      · exact .inl heq
      · exact .inr ⟨mem_cons_of_mem _ hmem, hpred⟩
    · show runs.predRuns + 1 = (smaller :: runs.calls).length
      rw [h.count, length_cons]
    · intro hpos
      have hle : ¬ cfg.maxSteps ≤ runs.predRuns := fun hle => hlimit ⟨hpos, hle⟩
      show ((runs.predRuns + 1 : ℕ) : ℤ) ≤ cfg.maxSteps
      omega

/-- The candidate becomes smaller when the predicate holds for less. -/
lemma Sound.shrink {elems smaller : List α} (h : Sound cfg elems runs candidate)
    (hsub : smaller.Sublist candidate)
    (hrun : Bisect.predRun cfg runs smaller = .ok (true, runs')) :
    Sound cfg elems runs' smaller := by
  have hsound := h.predRun hrun
  refine { hsound with sublist := hsub.trans h.sublist, tested := ?_ }
  rcases predRun_cases hrun with ⟨-, hfalse, -⟩ | ⟨-, hpred, rfl⟩
  · cases hfalse
  · exact .inr ⟨mem_cons_self, hpred⟩

/-- A property of the runs and the candidate that calls of the predicate keep: the candidate stays
whatever the predicate says, and may become smaller when it holds. -/
structure Kept (cfg : Config α ε) (I : Runs α → List α → Prop) : Prop where
  predRun : ∀ {runs runs' candidate smaller ret}, I runs candidate →
    predRun cfg runs smaller = .ok (ret, runs') → I runs' candidate
  shrink : ∀ {runs runs' candidate smaller}, I runs candidate → smaller.Sublist candidate →
    Bisect.predRun cfg runs smaller = .ok (true, runs') → I runs' smaller

lemma kept_sound (cfg : Config α ε) (elems : List α) : Kept cfg (Sound cfg elems) :=
  ⟨Sound.predRun, Sound.shrink⟩

lemma kept_predRuns_le (cfg : Config α ε) (n : ℕ) : Kept cfg fun runs _ => n ≤ runs.predRuns where
  predRun hle hrun := Nat.le_trans hle (predRun_predRuns_le hrun)
  shrink hle _ hrun := Nat.le_trans hle (predRun_predRuns_le hrun)

/-! ## The parts of one chunk -/

section TestParts

variable {someNeeded : Bool} {after : List (Chunk α)} {parts : List (List α)} {found : Bool}
  {new new' : List (Chunk α)}

/-- A round of the loop: the part is dropped, or kept after a test, or kept without one. -/
lemma testParts_cons_cases
    (h : testParts cfg someNeeded after (part :: parts) found new runs = .ok (new', runs')) :
    (∃ runs₁, predRun cfg runs (mergeChunks new ++ parts.flatten ++ mergeChunks after) =
        .ok (true, runs₁) ∧
      testParts cfg someNeeded after parts found new runs₁ = .ok (new', runs')) ∨
    (∃ runs₁, predRun cfg runs (mergeChunks new ++ parts.flatten ++ mergeChunks after) =
        .ok (false, runs₁) ∧
      testParts cfg someNeeded after parts true (new ++ [⟨part, false⟩]) runs₁ =
        .ok (new', runs')) ∨
    (parts = [] ∧ found = false ∧ someNeeded = true ∧
      testParts cfg someNeeded after parts true (new ++ [⟨part, false⟩]) runs =
        .ok (new', runs')) := by
  rw [testParts] at h
  split at h
  · obtain ⟨⟨ret, runs₁⟩, hrun, hrest⟩ := bind_eq_ok_iff.1 h
    cases ret with
    | true => exact .inl ⟨runs₁, hrun, hrest⟩
    | false => exact .inr (.inl ⟨runs₁, hrun, hrest⟩)
  · rename_i hskip
    simp only [not_or, ne_eq, not_not, Bool.not_eq_true, Bool.not_eq_false] at hskip
    exact .inr (.inr ⟨length_eq_zero_iff.mp hskip.1, hskip.2.1, hskip.2.2, h⟩)

/-- Testing parts only adds parts. -/
lemma testParts_subset
    (h : testParts cfg someNeeded after parts found new runs = .ok (new', runs')) :
    new' ⊆ new ++ parts.map fun part => ⟨part, false⟩ := by
  induction parts generalizing found new runs with
  | nil =>
    cases h
    exact subset_append_left _ _
  | cons part parts ih =>
    -- a part that is kept now is in the list the rest of the loop starts with
    rw [map_cons, append_cons]
    rcases testParts_cons_cases h with ⟨runs₁, hrun, hrest⟩ | ⟨runs₁, hrun, hrest⟩ |
      ⟨-, -, -, hrest⟩
    · exact List.Subset.trans (ih hrest) ((sublist_append_left new _).append_right _).subset
    · exact ih hrest
    · exact ih hrest

lemma mem_of_testParts (h : testParts cfg someNeeded after parts found new runs = .ok (new', runs'))
    (hchunk : chunk ∈ new') : chunk ∈ new ∨ ∃ part ∈ parts, chunk = ⟨part, false⟩ := by
  simpa [eq_comm] using testParts_subset h hchunk

lemma mergeChunks_snoc_part (new after : List (Chunk α)) (part : List α) (parts : List (List α)) :
    mergeChunks (new ++ [⟨part, false⟩]) ++ parts.flatten ++ mergeChunks after =
      mergeChunks new ++ (part :: parts).flatten ++ mergeChunks after := by
  simp

lemma dropPart_sublist (new after : List (Chunk α)) (part : List α) (parts : List (List α)) :
    (mergeChunks new ++ parts.flatten ++ mergeChunks after).Sublist
      (mergeChunks new ++ (part :: parts).flatten ++ mergeChunks after) := by
  apply Sublist.append_right
  apply Sublist.append_left
  exact sublist_append_right part parts.flatten

/-- What calls of the predicate keep holds after the loop. -/
lemma Kept.testParts {I : Runs α → List α → Prop} (hkept : Kept cfg I)
    (h : testParts cfg someNeeded after parts found new runs = .ok (new', runs'))
    (hI : I runs (mergeChunks new ++ parts.flatten ++ mergeChunks after)) :
    I runs' (mergeChunks new' ++ mergeChunks after) := by
  induction parts generalizing found new runs with
  | nil =>
    cases h
    rwa [flatten_nil, append_nil] at hI
  | cons part parts ih =>
    rcases testParts_cons_cases h with ⟨runs₁, hrun, hrest⟩ | ⟨runs₁, hrun, hrest⟩ |
      ⟨-, -, -, hrest⟩
    · exact ih hrest (hkept.shrink hI (dropPart_sublist new after part parts) hrun)
    · apply ih hrest
      rw [mergeChunks_snoc_part]
      exact hkept.predRun hI hrun
    · apply ih hrest
      rw [mergeChunks_snoc_part]
      exact hI

lemma testParts_predRuns_le
    (h : testParts cfg someNeeded after parts found new runs = .ok (new', runs')) :
    runs.predRuns ≤ runs'.predRuns :=
  (kept_predRuns_le cfg runs.predRuns).testParts h (Nat.le_refl _)

end TestParts

/-! ## Needed chunks -/

section Needed

/-- The predicate does not hold without any one of the chunks, which stand between `before` and
`after`. -/
def Needed (p : List α → Bool) (before : List α) (chunks : List (Chunk α)) (after : List α) :
    Prop :=
  ∀ pre chunk post, chunks = pre ++ chunk :: post →
    p (before ++ mergeChunks (pre ++ post) ++ after) = false

/-- A predicate that holds for more elements when it holds for less. -/
def MonotonePred (p : List α → Bool) : Prop :=
  ∀ small large, small.Sublist large → p small = true → p large = true

variable {p : List α → Bool} {before before' after after' : List α} {chunks : List (Chunk α)}

lemma MonotonePred.false_of_sublist (hmono : MonotonePred p) {small large : List α}
    (hsub : small.Sublist large) (h : p large = false) : p small = false := by
  cases hsmall : p small with
  | false => rfl
  | true =>
    rw [hmono small large hsub hsmall] at h
    cases h

lemma needed_nil (p : List α → Bool) (before after : List α) : Needed p before [] after := by
  intro pre chunk post h
  cases pre <;> cases h

lemma Needed.mono (hmono : MonotonePred p) (h : Needed p before chunks after)
    (hbefore : before'.Sublist before) (hafter : after'.Sublist after) :
    Needed p before' chunks after' := by
  intro pre chunk post heq
  have hsub := (hbefore.append (Sublist.refl (mergeChunks (pre ++ post)))).append hafter
  exact hmono.false_of_sublist hsub (h pre chunk post heq)

/-- A chunk without which the predicate fails joins the needed ones. -/
lemma Needed.snoc (h : Needed p before chunks (chunk.elements ++ after))
    (hchunk : p (before ++ mergeChunks chunks ++ after) = false) :
    Needed p before (chunks ++ [chunk]) after := by
  intro pre c post heq
  -- the chunk is the last one, or one of those in front of it
  rcases eq_nil_or_concat post with rfl | ⟨post', last, rfl⟩
  · obtain ⟨rfl, -⟩ := append_inj' heq rfl
    rwa [append_nil]
  · have hsplit : chunks ++ [chunk] = (pre ++ c :: post') ++ [last] := by
      rw [heq]
      simp
    obtain ⟨hchunks, hlast⟩ := append_inj' hsplit rfl
    cases hlast
    have hneeded := h pre c post' hchunks
    have hmerge : before ++ mergeChunks (pre ++ (post' ++ [chunk])) ++ after =
        before ++ mergeChunks (pre ++ post') ++ (chunk.elements ++ after) := by
      simp
    rwa [concat_eq_append, hmerge]

lemma Needed.head (h : Needed p before (chunk :: chunks) after) :
    p (before ++ mergeChunks chunks ++ after) = false :=
  h [] chunk chunks rfl

lemma Needed.tail (h : Needed p before (chunk :: chunks) after) :
    Needed p (before ++ chunk.elements) chunks after := by
  intro pre c post heq
  have hneeded := h (chunk :: pre) c post (by rw [heq]; rfl)
  have hmerge : before ++ mergeChunks (chunk :: pre ++ post) ++ after =
      before ++ chunk.elements ++ mergeChunks (pre ++ post) ++ after := by
    simp
  rwa [hmerge] at hneeded

end Needed

section Minimal

variable {p : List α → Bool} {someNeeded : Bool} {after : List (Chunk α)}
  {new new' : List (Chunk α)}

/-- Every part that is kept is needed, the last one too if it was kept without a test: then it is
all that is left of a chunk that is needed. -/
lemma testParts_needed (hmono : MonotonePred p) (hp : ∀ l, cfg.pred l = .ok (p l))
    {parts : List (List α)} {found : Bool}
    (h : testParts cfg someNeeded after parts found new runs = .ok (new', runs'))
    (hlimit : ¬ runs'.limitHit cfg)
    (hnew : Needed p [] new (parts.flatten ++ mergeChunks after))
    (hafter : Needed p (mergeChunks new ++ parts.flatten) after [])
    (hwhole : someNeeded = true → found = false →
      p (mergeChunks new ++ mergeChunks after) = false) :
    Needed p [] new' (mergeChunks after) ∧ Needed p (mergeChunks new') after [] := by
  induction parts generalizing found new runs with
  | nil =>
    cases h
    rw [flatten_nil, append_nil] at hafter
    exact ⟨hnew, hafter⟩
  | cons part parts ih =>
    rw [flatten_cons, append_assoc] at hnew
    -- the part is kept and the predicate does not hold without it
    have hkeep : ∀ {runs : Runs α},
        testParts cfg someNeeded after parts true (new ++ [⟨part, false⟩]) runs =
          .ok (new', runs') →
        p (mergeChunks new ++ parts.flatten ++ mergeChunks after) = false →
        Needed p [] new' (mergeChunks after) ∧ Needed p (mergeChunks new') after [] := by
      intro runs hrest hpart
      apply ih hrest
      · apply Needed.snoc hnew
        rwa [append_assoc] at hpart
      · have hmerge : mergeChunks (new ++ [⟨part, false⟩]) ++ parts.flatten =
            mergeChunks new ++ (part ++ parts.flatten) := by
          simp
        rwa [hmerge]
      · intro _ hfound
        cases hfound
    rcases testParts_cons_cases h with ⟨runs₁, hrun, hrest⟩ | ⟨runs₁, hrun, hrest⟩ |
      ⟨rfl, hfound, hneeded, hrest⟩
    · apply ih hrest
      · apply hnew.mono hmono (Sublist.refl [])
        exact sublist_append_right part _
      · apply hafter.mono hmono _ (Sublist.refl [])
        apply Sublist.append_left
        exact sublist_append_right part _
      · exact hwhole
    · apply hkeep hrest
      have hlimit₁ := not_limitHit_of_le (testParts_predRuns_le hrest) hlimit
      have hpred := pred_of_predRun hrun hlimit₁
      rw [hp] at hpred
      exact Except.ok.inj hpred
    · apply hkeep hrest
      rw [flatten_nil, append_nil]
      exact hwhole hneeded hfound

end Minimal

/-! ## One round -/

section Round

variable {someNeeded : Bool} {splitInto : ℕ} {chunks new new' : List (Chunk α)}

/-- What a round does with the next chunk: it is final and stays, it cannot be split and becomes
final, or its parts are tested. -/
lemma splitLoop_cons_cases {after : List (Chunk α)}
    (h : splitLoop cfg someNeeded splitInto (chunk :: after) new runs = .ok (new', runs')) :
    (chunk.final = true ∧
      splitLoop cfg someNeeded splitInto after (new ++ [chunk]) runs = .ok (new', runs')) ∨
    (chunk.final = false ∧ (splitChunk chunk.elements splitInto).length = 1 ∧ someNeeded = true ∧
      splitLoop cfg someNeeded splitInto after (new ++ [⟨chunk.elements, true⟩]) runs =
        .ok (new', runs')) ∨
    (chunk.final = false ∧ ¬ ((splitChunk chunk.elements splitInto).length = 1 ∧ someNeeded) ∧
      ∃ new₁ runs₁,
        testParts cfg someNeeded after (splitChunk chunk.elements splitInto) false new runs =
          .ok (new₁, runs₁) ∧
        splitLoop cfg someNeeded splitInto after new₁ runs₁ = .ok (new', runs')) := by
  rw [splitLoop] at h
  split at h
  · rename_i hfinal
    exact .inl ⟨hfinal, h⟩
  · rename_i hfinal
    have hfalse := Bool.eq_false_iff.mpr hfinal
    dsimp only at h
    split at h
    · rename_i hone
      exact .inr (.inl ⟨hfalse, hone.1, hone.2, h⟩)
    · rename_i hmany
      obtain ⟨⟨new₁, runs₁⟩, htest, hrest⟩ := bind_eq_ok_iff.1 h
      exact .inr (.inr ⟨hfalse, hmany, new₁, runs₁, htest, hrest⟩)

section

variable (h : splitLoop cfg someNeeded splitInto chunks new runs = .ok (new', runs'))

include h

/-- What a round does with each kind of chunk holds for all its results. -/
lemma splitLoop_forall {Q : Chunk α → Prop} (hnew : ∀ c ∈ new, Q c)
    (hfinal : ∀ c ∈ chunks, c.final = true → Q c)
    (hone : ∀ c ∈ chunks, (splitChunk c.elements splitInto).length = 1 → someNeeded = true →
      Q ⟨c.elements, true⟩) (hpart : ∀ c ∈ chunks, c.final = false →
      ¬ ((splitChunk c.elements splitInto).length = 1 ∧ someNeeded) →
      ∀ part ∈ splitChunk c.elements splitInto, Q ⟨part, false⟩) : ∀ c ∈ new', Q c := by
  induction chunks generalizing new runs with
  | nil =>
    cases h
    exact hnew
  | cons chunk after ih =>
    have hnext : ∀ {new₁ : List (Chunk α)} {runs₁ : Runs α},
        splitLoop cfg someNeeded splitInto after new₁ runs₁ = .ok (new', runs') →
        (∀ c ∈ new₁, Q c) → ∀ c ∈ new', Q c := by
      intro new₁ runs₁ hrest hnew₁
      exact ih hrest hnew₁ (fun c hc => hfinal c (mem_cons_of_mem chunk hc))
        (fun c hc => hone c (mem_cons_of_mem chunk hc))
        (fun c hc => hpart c (mem_cons_of_mem chunk hc))
    have hsnoc : ∀ {chunk' : Chunk α}, Q chunk' → ∀ c ∈ new ++ [chunk'], Q c :=
      fun hchunk' => forall_mem_append.mpr ⟨hnew, forall_mem_singleton.mpr hchunk'⟩
    rcases splitLoop_cons_cases h with ⟨hf, hrest⟩ | ⟨-, hlen, hneeded, hrest⟩ |
      ⟨hf, hmany, new₁, runs₁, htest, hrest⟩
    · exact hnext hrest (hsnoc (hfinal chunk mem_cons_self hf))
    · exact hnext hrest (hsnoc (hone chunk mem_cons_self hlen hneeded))
    · apply hnext hrest
      intro c hc
      rcases mem_of_testParts htest hc with hmem | ⟨part, hp, rfl⟩
      · exact hnew c hmem
      · exact hpart chunk mem_cons_self hf hmany part hp

/-- A property of tested candidates is kept by a round. -/
lemma Kept.splitLoop {I : Runs α → List α → Prop} (hkept : Kept cfg I)
    (hI : I runs (mergeChunks new ++ mergeChunks chunks)) : I runs' (mergeChunks new') := by
  induction chunks generalizing new runs with
  | nil =>
    cases h
    rwa [mergeChunks_nil, append_nil] at hI
  | cons chunk after ih =>
    rcases splitLoop_cons_cases h with ⟨-, hrest⟩ | ⟨-, -, -, hrest⟩ |
      ⟨-, -, new₁, runs₁, htest, hrest⟩
    · apply ih hrest
      simpa using hI
    · apply ih hrest
      simpa using hI
    · apply ih hrest
      apply hkept.testParts htest
      rw [splitChunk_flatten]
      simpa using hI

lemma splitLoop_predRuns_le : runs.predRuns ≤ runs'.predRuns :=
  (kept_predRuns_le cfg runs.predRuns).splitLoop h (Nat.le_refl _)

end

/-- Chunks that are all needed are replaced by chunks that are all needed. -/
lemma splitLoop_needed {p : List α → Bool} (hmono : MonotonePred p)
    (hp : ∀ l, cfg.pred l = .ok (p l))
    (h : splitLoop cfg true splitInto chunks new runs = .ok (new', runs'))
    (hlimit : ¬ runs'.limitHit cfg) (hnew : Needed p [] new (mergeChunks chunks))
    (hchunks : Needed p (mergeChunks new) chunks []) : Needed p [] new' [] := by
  induction chunks generalizing new runs with
  | nil =>
    cases h
    exact hnew
  | cons chunk after ih =>
    have hhead : p (mergeChunks new ++ mergeChunks after) = false := by
      have hfalse := hchunks.head
      rwa [append_nil] at hfalse
    -- a chunk that stays as it is
    have hkeep : ∀ {final : Bool},
        splitLoop cfg true splitInto after (new ++ [⟨chunk.elements, final⟩]) runs =
          .ok (new', runs') → Needed p [] new' [] := by
      intro final hrest
      apply ih hrest
      · exact Needed.snoc hnew hhead
      · have hmerge : mergeChunks (new ++ [⟨chunk.elements, final⟩]) =
            mergeChunks new ++ chunk.elements := by
          simp
        rw [hmerge]
        exact hchunks.tail
    rcases splitLoop_cons_cases h with ⟨-, hrest⟩ | ⟨-, -, -, hrest⟩ |
      ⟨-, -, new₁, runs₁, htest, hrest⟩
    · exact hkeep hrest
    · exact hkeep hrest
    · have hlimit₁ := not_limitHit_of_le (splitLoop_predRuns_le hrest) hlimit
      have hneeded := testParts_needed hmono hp htest hlimit₁
        (by rw [splitChunk_flatten]; exact hnew)
        (by rw [splitChunk_flatten]; exact hchunks.tail) (fun _ _ => hhead)
      exact ih hrest hneeded.1 hneeded.2

end Round

/-! ## The search -/

section Search

variable {ctx ctx' : SliceCtx α} {elems : List α} {err : Option (SliceError ε)}
  {I : SliceCtx α → Prop}

/-- A chunk has elements, and only one if it is final. -/
def ProperChunk (chunk : Chunk α) : Prop :=
  0 < chunk.elements.length ∧ (chunk.final = true → chunk.elements.length = 1)

/-- What holds between the rounds. -/
structure Proper (cfg : Config α ε) (elems : List α) (ctx : SliceCtx α) : Prop where
  sound : Sound cfg elems ctx.runs ctx.elements
  chunks : ∀ chunk ∈ ctx.chunks, ProperChunk chunk

lemma splitInto_true (cfg : Config α ε) (chunks : List (Chunk α)) :
    splitInto cfg true chunks = 2 := by
  unfold splitInto
  split
  · rename_i hneeded
    cases hneeded
  · rfl

lemma splitChunks_true_eq_ok (h : splitChunks cfg true ctx = .ok ctx') :
    splitLoop cfg true 2 ctx.chunks [] ctx.runs = .ok (ctx'.chunks, ctx'.runs) := by
  obtain ⟨⟨chunks, runs⟩, hloop, hret⟩ := bind_eq_ok_iff.1 h
  cases hret
  rwa [splitInto_true] at hloop

lemma Proper.splitChunks (hproper : Proper cfg elems ctx)
    (h : splitChunks cfg true ctx = .ok ctx') : Proper cfg elems ctx' := by
  have hloop := splitChunks_true_eq_ok h
  refine { sound := (kept_sound cfg elems).splitLoop hloop hproper.sound, chunks := ?_ }
  refine splitLoop_forall (Q := ProperChunk) hloop ?_ ?_ ?_ ?_
  · intro c hc
    cases hc
  · intro c hc _
    exact hproper.chunks c hc
  · intro c hc hlen _
    exact ⟨(hproper.chunks c hc).1, fun _ => length_eq_one_of_splitChunk hlen⟩
  · intro c hc _ _ part hpart
    exact ⟨length_pos_of_mem_splitChunk hpart, fun hfinal => Bool.noConfusion hfinal⟩

/-- In every round the chunks that are not final get smaller. -/
lemma splitChunks_length_le (h : splitChunks cfg true ctx = .ok ctx') {m : ℕ}
    (hle : ∀ c ∈ ctx.chunks, c.final = false → c.elements.length ≤ m + 1) :
    ∀ c ∈ ctx'.chunks, c.final = false → c.elements.length ≤ m := by
  have hloop := splitChunks_true_eq_ok h
  refine splitLoop_forall (Q := fun c => c.final = false → c.elements.length ≤ m) hloop ?_ ?_ ?_ ?_
  · intro c hc
    cases hc
  · intro c _ hfinal hfalse
    rw [hfinal] at hfalse
    cases hfalse
  · intro c _ _ _ hfalse
    cases hfalse
  · intro c hc hfinal hmany part hpart _
    show part.length ≤ m
    have hlen := length_le_of_mem_splitChunk_two hpart
    have hmax := hle c hc hfinal
    have hone : c.elements.length ≠ 1 := by
      intro hone
      obtain ⟨x, hx⟩ := length_eq_one_iff.mp hone
      exact hmany ⟨by rw [hx]; rfl, rfl⟩
    omega

/-! ### Errors -/

section Errors

/-- An error of the predicate. -/
def PredError (cfg : Config α ε) (err : ε) : Prop := ∃ l, cfg.pred l = .error err

/-- Only the predicate makes the test of parts fail. -/
lemma failsOnly_testParts {someNeeded : Bool} {after : List (Chunk α)} {parts : List (List α)}
    (found : Bool) (new : List (Chunk α)) (runs : Runs α) :
    FailsOnly (PredError cfg) (testParts cfg someNeeded after parts found new runs) := by
  induction parts generalizing found new runs with
  | nil => exact failsOnly_ok _
  | cons part parts ih =>
    rw [testParts]
    split
    · refine FailsOnly.bind ?_ fun r => ?_
      · unfold predRun
        split
        · exact failsOnly_ok _
        · exact FailsOnly.bind (fun _ herr => ⟨_, herr⟩) fun _ => failsOnly_ok _
      · dsimp only
        split <;> exact ih _ _ _
    · exact ih _ _ _

lemma failsOnly_splitLoop {someNeeded : Bool} {splitInto : ℕ} {chunks : List (Chunk α)}
    (new : List (Chunk α)) (runs : Runs α) :
    FailsOnly (PredError cfg) (splitLoop cfg someNeeded splitInto chunks new runs) := by
  induction chunks generalizing new runs with
  | nil => exact failsOnly_ok _
  | cons chunk after ih =>
    rw [splitLoop]
    split
    · exact ih _ _
    · dsimp only
      split
      · exact ih _ _
      · exact (failsOnly_testParts _ _ _).bind fun r => ih r.1 r.2

lemma failsOnly_splitChunks (someNeeded : Bool) (ctx : SliceCtx α) :
    FailsOnly (PredError cfg) (splitChunks cfg someNeeded ctx) :=
  (failsOnly_splitLoop _ _).bind fun _ => failsOnly_ok _

end Errors

/-- The loop has enough rounds: the chunks that are not final cannot get smaller for ever. It can
only fail with the predicate. -/
lemma bisectLoop_terminates {m : ℕ} (hproper : Proper cfg elems ctx)
    (hle : ∀ c ∈ ctx.chunks, c.final = false → c.elements.length ≤ m) (hfuel : m < fuel) :
    ∃ r, bisectLoop cfg fuel ctx = some r ∧ FailsOnly (PredError cfg) r := by
  induction fuel generalizing ctx m with
  | zero => omega
  | succ fuel ih =>
    rw [bisectLoop]
    split
    · exact ⟨_, rfl, failsOnly_ok _⟩
    · rename_i hdone
      split
      · exact ⟨_, rfl, failsOnly_ok _⟩
      · split
        · rename_i err herr
          exact ⟨_, rfl, failsOnly_error (failsOnly_splitChunks true ctx err herr)⟩
        · rename_i ctx₁ hsplit
          -- some chunk is not final, so the bound is not zero
          have hpos : m ≠ 0 := by
            intro hzero
            apply hdone
            right
            intro c hc
            by_contra hfinal
            have hpos := (hproper.chunks c hc).1
            have hlen := hle c hc (Bool.eq_false_iff.mpr hfinal)
            omega
          obtain ⟨k, rfl⟩ := Nat.exists_eq_succ_of_ne_zero hpos
          exact ih (hproper.splitChunks hsplit) (splitChunks_length_le hsplit hle) (by omega)

/-- How the loop ends, for anything `I` that a round keeps. -/
lemma bisectLoop_invariant
    (hstep : ∀ ctx ctx', I ctx → splitChunks cfg true ctx = .ok ctx' → I ctx') (hctx : I ctx)
    (h : bisectLoop cfg fuel ctx = some (.ok (ctx', err))) :
    I ctx' ∧ (err = none ∧ ctx'.done cfg ∨
      err = some .tooManyChunks ∧ ctx'.tooManyChunks cfg) := by
  induction fuel generalizing ctx with
  | zero => cases h
  | succ fuel ih =>
    rw [bisectLoop] at h
    split at h
    · rename_i hdone
      cases h
      exact ⟨hctx, .inl ⟨rfl, hdone⟩⟩
    · split at h
      · rename_i hmany
        cases h
        exact ⟨hctx, .inr ⟨rfl, hmany⟩⟩
      · split at h
        · cases h
        · rename_i ctx₁ hsplit
          exact ih (hstep _ _ hctx hsplit) h

/-! ### The first round -/

section

variable (h : splitChunks cfg false ⟨[⟨elems, false⟩], ⟨0, []⟩⟩ = .ok ctx)

include h

lemma splitChunks_false_eq_ok :
    testParts cfg false [] (splitChunk elems (initialSplit cfg elems.length)) false [] ⟨0, []⟩ =
      .ok (ctx.chunks, ctx.runs) := by
  obtain ⟨⟨chunks, runs⟩, hloop, hret⟩ := bind_eq_ok_iff.1 h
  cases hret
  rcases splitLoop_cons_cases hloop with ⟨hfinal, -⟩ | ⟨-, -, hneeded, -⟩ |
    ⟨-, -, new₁, runs₁, htest, hrest⟩
  · cases hfinal
  · cases hneeded
  · cases hrest
    exact htest

omit h in
lemma sound_start (cfg : Config α ε) (elems : List α) : Sound cfg elems ⟨0, []⟩ elems where
  sublist := Sublist.refl elems
  tested := .inl rfl
  count := rfl
  limit := fun hpos => Int.le_of_lt hpos

lemma proper_first : Proper cfg elems ctx := by
  have htest := splitChunks_false_eq_ok h
  refine { sound := ?_, chunks := ?_ }
  · have hstart : Sound cfg elems ⟨0, []⟩ (mergeChunks [] ++
        (splitChunk elems (initialSplit cfg elems.length)).flatten ++ mergeChunks []) := by
      rw [splitChunk_flatten]
      simpa using sound_start cfg elems
    have hsound := (kept_sound cfg elems).testParts htest hstart
    rwa [mergeChunks_nil, append_nil] at hsound
  · intro c hc
    rcases mem_of_testParts htest hc with hmem | ⟨part, hpart, rfl⟩
    · cases hmem
    · exact ⟨length_pos_of_mem_splitChunk hpart, fun hfinal => Bool.noConfusion hfinal⟩

lemma length_le_first : ∀ c ∈ ctx.chunks, c.final = false → c.elements.length ≤ elems.length := by
  intro c hc _
  rcases mem_of_testParts (splitChunks_false_eq_ok h) hc with hmem | ⟨part, hpart, rfl⟩
  · cases hmem
  · have hsub := sublist_flatten_of_mem hpart
    rw [splitChunk_flatten] at hsub
    exact hsub.length_le

end

lemma bisect_terminates (cfg : Config α ε) (elems : List α) :
    ∃ r, bisect cfg elems = some r ∧ FailsOnly (PredError cfg) r := by
  unfold bisect
  split
  · rename_i err herr
    exact ⟨_, rfl, failsOnly_error (failsOnly_splitChunks false _ err herr)⟩
  · rename_i ctx hfirst
    exact bisectLoop_terminates (proper_first hfirst) (length_le_first hfirst) (Nat.lt_succ_self _)

lemma bisect_ok {p : List α → Bool} (hp : ∀ l, cfg.pred l = .ok (p l)) (elems : List α) :
    ∃ ctx err, bisect cfg elems = some (.ok (ctx, err)) := by
  obtain ⟨r, hr, hfails⟩ := bisect_terminates cfg elems
  cases r with
  | ok r => exact ⟨r.1, r.2, hr⟩
  | error err =>
    obtain ⟨l, hl⟩ := hfails err rfl
    rw [hp] at hl
    cases hl

lemma bisect_invariant
    (hfirst : ∀ ctx, splitChunks cfg false ⟨[⟨elems, false⟩], ⟨0, []⟩⟩ = .ok ctx → I ctx)
    (hstep : ∀ ctx ctx', I ctx → splitChunks cfg true ctx = .ok ctx' → I ctx')
    (h : bisect cfg elems = some (.ok (ctx, err))) :
    I ctx ∧ (err = none ∧ ctx.done cfg ∨ err = some .tooManyChunks ∧ ctx.tooManyChunks cfg) := by
  unfold bisect at h
  split at h
  · cases h
  · rename_i ctx₁ hctx₁
    exact bisectLoop_invariant hstep (hfirst ctx₁ hctx₁) h

lemma bisect_proper (h : bisect cfg elems = some (.ok (ctx, err))) : Proper cfg elems ctx :=
  (bisect_invariant (fun _ hfirst => proper_first hfirst)
    (fun _ _ hproper hsplit => hproper.splitChunks hsplit) h).1

/-- As long as the limit is not reached, every chunk is needed. -/
lemma bisect_needed {p : List α → Bool} (hmono : MonotonePred p)
    (hp : ∀ l, cfg.pred l = .ok (p l)) (h : bisect cfg elems = some (.ok (ctx, err)))
    (hlimit : ¬ ctx.runs.limitHit cfg) : Needed p [] ctx.chunks [] := by
  have hinv := bisect_invariant
    (I := fun ctx => ¬ ctx.runs.limitHit cfg → Needed p [] ctx.chunks []) ?_ ?_ h
  · exact hinv.1 hlimit
  · intro ctx hfirst hlimit
    have htest := splitChunks_false_eq_ok hfirst
    exact (testParts_needed hmono hp htest hlimit (needed_nil _ _ _) (needed_nil _ _ _)
      (fun hneeded => Bool.noConfusion hneeded)).1
  · intro ctx ctx' hneeded hsplit hlimit
    have hloop := splitChunks_true_eq_ok hsplit
    have hlimit' := not_limitHit_of_le (splitLoop_predRuns_le hloop) hlimit
    exact splitLoop_needed hmono hp hloop hlimit (needed_nil _ _ _) (hneeded hlimit')

/-! ### Single elements -/

lemma length_mergeChunks_of_single {chunks : List (Chunk α)}
    (h : ∀ c ∈ chunks, c.elements.length = 1) : (mergeChunks chunks).length = chunks.length := by
  induction chunks with
  | nil => rfl
  | cons chunk chunks ih =>
    rw [mergeChunks_cons, length_append, h chunk mem_cons_self,
      ih (fun c hc => h c (mem_cons_of_mem chunk hc)), length_cons, Nat.add_comm]

/-- With chunks of one element, leaving out an element is leaving out a chunk. -/
lemma eraseIdx_mergeChunks {chunks : List (Chunk α)}
    (h : ∀ c ∈ chunks, c.elements.length = 1) {i : ℕ} (hi : i < (mergeChunks chunks).length) :
    ∃ pre chunk post, chunks = pre ++ chunk :: post ∧
      (mergeChunks chunks).eraseIdx i = mergeChunks (pre ++ post) := by
  have hlen : i < chunks.length := by rwa [length_mergeChunks_of_single h] at hi
  obtain ⟨pre, chunk, post, rfl, rfl⟩ := exists_split hlen
  refine ⟨pre, chunk, post, rfl, ?_⟩
  obtain ⟨x, hx⟩ := length_eq_one_iff.mp (h chunk (by simp))
  have hpre : (mergeChunks pre).length = pre.length :=
    length_mergeChunks_of_single fun c hc => h c (by simp [hc])
  have hmerge : mergeChunks (pre ++ chunk :: post) = mergeChunks pre ++ x :: mergeChunks post := by
    rw [mergeChunks_append, mergeChunks_cons, hx]
    rfl
  rw [hmerge, eraseIdx_append_of_length_le (by omega), hpre, Nat.sub_self, eraseIdx_cons_zero,
    mergeChunks_append]

/-! ### The result -/

/-- `Slice` ends with a subsequence for which the predicate was called and held, or with the slice
itself, within the limit on calls, and with an error only if there are too many chunks; if no limit
is reached and the predicate is monotone, no single element can be left out. -/
theorem slice_minimizes {p : List α → Bool} (hp : ∀ l, cfg.pred l = .ok (p l))
    (hwhole : p elems = true) :
    ∃ ctx err, bisect cfg elems = some (.ok (ctx, err)) ∧
      slice cfg elems = some (ctx.elements, err) ∧
      ctx.elements.Sublist elems ∧ p ctx.elements = true ∧
      (ctx.elements = elems ∨ ctx.elements ∈ ctx.runs.calls) ∧
      (0 < cfg.maxSteps → (ctx.runs.calls.length : ℤ) ≤ cfg.maxSteps) ∧
      (err = none ∨ err = some .tooManyChunks ∧ ctx.tooManyChunks cfg) ∧
      (MonotonePred p → ¬ ctx.runs.limitHit cfg → ¬ ctx.tooManyChunks cfg →
        ∀ i < ctx.elements.length, p (ctx.elements.eraseIdx i) = false) := by
  obtain ⟨ctx, err, hbisect⟩ := bisect_ok hp elems
  have hproper := bisect_proper hbisect
  have hsound := hproper.sound
  have hends := (bisect_invariant (fun _ _ => trivial) (fun _ _ _ _ => trivial) hbisect).2
  refine ⟨ctx, err, hbisect, ?_, hsound.sublist, ?_, ?_, ?_, hends.imp_left And.left, ?_⟩
  · rw [slice, hbisect]
  · rcases hsound.tested with heq | ⟨-, hpred⟩
    · rwa [heq]
    · rw [hp] at hpred
      exact Except.ok.inj hpred
  · exact hsound.tested.imp id And.left
  · intro hpos
    rw [← hsound.count]
    exact hsound.limit hpos
  · intro hmono hlimit hchunks i hi
    have hneeded := bisect_needed hmono hp hbisect hlimit
    -- the loop ended because every chunk is final
    have hfinal : ∀ c ∈ ctx.chunks, c.final = true := by
      rcases hends with ⟨-, hdone⟩ | ⟨-, hmany⟩
      · exact hdone.resolve_left hlimit
      · exact absurd hmany hchunks
    have hsingle : ∀ c ∈ ctx.chunks, c.elements.length = 1 :=
      fun c hc => (hproper.chunks c hc).2 (hfinal c hc)
    obtain ⟨pre, chunk, post, hchunks, herase⟩ := eraseIdx_mergeChunks hsingle hi
    have hfalse := hneeded pre chunk post hchunks
    rw [nil_append, append_nil] at hfalse
    rwa [SliceCtx.elements, herase]

end Search

/-- Any two elements are enough. -/
def atLeastTwo : Config ℕ Empty := ⟨fun l => .ok (decide (2 ≤ l.length)), 0, 0, fun _ _ => false⟩

/-- Two of five elements are left when the predicate asks for two. -/
theorem slice_minimizes_atLeastTwo :
    ∃ result, slice atLeastTwo [1, 2, 3, 4, 5] = some (result, none) ∧
      decide (2 ≤ result.length) = true ∧ decide (2 ≤ (result.eraseIdx 0).length) = false := by
  have hp : ∀ l, atLeastTwo.pred l = .ok (decide (2 ≤ l.length)) := fun _ => rfl
  have hmono : MonotonePred fun l : List ℕ => decide (2 ≤ l.length) := by
    intro small large hsub hsmall
    have hle := hsub.length_le
    have htwo := of_decide_eq_true hsmall
    exact decide_eq_true (by omega)
  have hwhole : decide (2 ≤ [1, 2, 3, 4, 5].length) = true := by decide
  obtain ⟨ctx, err, -, hslice, -, hresult, -, -, -, hmin⟩ := slice_minimizes hp hwhole
  have hrun : slice atLeastTwo [1, 2, 3, 4, 5] = some ([3, 4], none) := by decide
  obtain ⟨helems, herr⟩ := Prod.mk.inj (Option.some.inj (hslice.symm.trans hrun))
  refine ⟨ctx.elements, by rw [hslice, herr], hresult, ?_⟩
  refine hmin hmono (fun hlimit => absurd hlimit.1 (by decide))
    (fun hmany => absurd hmany.1 (by decide)) 0 ?_
  rw [helems]
  decide

end KConfuzz.Bisect
