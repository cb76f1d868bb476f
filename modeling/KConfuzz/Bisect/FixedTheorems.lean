import KConfuzz.Bisect.SliceTheorems

/-!
# Slice minimization with fixed elements

`SliceWithFixed` runs the search on the positions of the elements that are not fixed, and its
predicate sees the elements at the positions that are left together with the fixed ones. It
returns what the search returns, merged with the fixed elements, unless the search ends with an
error: then the elements are lost, also those that come with `ErrTooManyChunks`.
-/

namespace KConfuzz.Bisect

open Lib.ExceptFold List

variable {α ε : Type} {elems : List α} {fixed : α → Bool} {idx : List ℕ} {n : ℕ}

/-! ## Merging with the fixed elements -/

/-- The elements that are fixed or at one of the positions, in the order of the slice. -/
def keep (elems : List α) (fixed : α → Bool) (idx : List ℕ) : List α :=
  (elems.zipIdx.filter fun e => fixed e.1 || decide (e.2 ∈ idx)).map Prod.fst

/-- The positions of the entries of a numbered list that pass a test. -/
def positions (entries : List (α × ℕ)) (test : α × ℕ → Bool) : List ℕ :=
  (entries.filter test).map Prod.snd

lemma le_of_mem_positions {xs : List α} {i : ℕ} {test : α × ℕ → Bool}
    (h : i ∈ positions (xs.zipIdx n) test) : n ≤ i := by
  obtain ⟨e, he, rfl⟩ := mem_map.mp h
  exact le_snd_of_mem_zipIdx (mem_of_mem_filter he)

lemma positions_cons (e : α × ℕ) (entries : List (α × ℕ)) (test : α × ℕ → Bool) :
    positions (e :: entries) test =
      if test e then e.2 :: positions entries test else positions entries test := by
  rw [positions, filter_cons]
  split <;> rfl

lemma mergeIdx_cons_left {l r : List ℕ} (h : ∀ i ∈ r, n < i) :
    mergeIdx (n :: l) r = n :: mergeIdx l r := by
  unfold mergeIdx
  rw [length_cons, Nat.add_right_comm]
  cases r with
  | nil => rfl
  | cons i r => rw [mergeLoop, if_pos (h i mem_cons_self)]

lemma mergeIdx_cons_right {l r : List ℕ} (h : ∀ i ∈ l, n < i) :
    mergeIdx l (n :: r) = n :: mergeIdx l r := by
  unfold mergeIdx
  rw [length_cons, ← Nat.add_assoc]
  cases l with
  | nil => rfl
  | cons i l =>
    have hlt := h i mem_cons_self
    rw [mergeLoop, if_neg (by omega)]

/-- Merging chosen positions with the fixed ones marks an element for either reason. -/
lemma merge_positions {xs : List α}
    (hidx : idx.Sublist (positions (xs.zipIdx n) fun e => !fixed e.1)) :
    mergeIdx idx (positions (xs.zipIdx n) fun e => fixed e.1) =
      positions (xs.zipIdx n) fun e => fixed e.1 || decide (e.2 ∈ idx) := by
  induction xs generalizing n idx with
  | nil =>
    rw [sublist_nil.mp hidx]
    rfl
  | cons x xs ih =>
    rw [zipIdx_cons, positions_cons] at hidx ⊢
    rw [positions_cons]
    have hfixed : ∀ i ∈ positions (xs.zipIdx (n + 1)) (fun e => fixed e.1), n < i :=
      fun i hi => le_of_mem_positions hi
    cases hx : fixed x with
    | true =>
      simp only [hx, Bool.not_true, Bool.false_eq_true, if_false, if_true, Bool.true_or] at hidx ⊢
      rw [mergeIdx_cons_right (fun i hi => le_of_mem_positions (hidx.subset hi)), ih hidx]
    | false =>
      simp only [hx, Bool.not_false, if_true, Bool.false_eq_true, if_false, Bool.false_or] at hidx ⊢
      rcases sublist_cons_iff.mp hidx with hskip | ⟨rest, rfl, hrest⟩
      · -- the element is left out
        have hn : n ∉ idx := by
          intro hmem
          have := le_of_mem_positions (hskip.subset hmem)
          omega
        rw [if_neg (by rw [decide_eq_true_iff]; exact hn), ih hskip]
      · rw [if_pos (by rw [decide_eq_true_iff]; exact mem_cons_self), mergeIdx_cons_left hfixed,
          ih hrest]
        rw [positions, positions, filter_congr]
        intro e he
        have hne : e.2 ≠ n := by
          have := le_snd_of_mem_zipIdx he
          omega
        simp [hne]

lemma elements_positions (elems : List α) (test : α × ℕ → Bool) :
    (positions elems.zipIdx test).flatMap (fun i => elems[i]?.toList) =
      (elems.zipIdx.filter test).map Prod.fst := by
  have hmem : ∀ e ∈ elems.zipIdx.filter test, elems[e.2]?.toList = [e.1] := by
    intro e he
    rw [mk_mem_zipIdx_iff_getElem?.mp (mem_of_mem_filter he)]
    rfl
  rw [positions, flatMap_map, map_eq_flatMap]
  exact flatMap_congr hmem

/-- The merge of positions gives the elements in the order of the slice. -/
lemma convert_eq_keep (hidx : idx.Sublist (freeIdx elems fixed)) :
    convert elems fixed idx = keep elems fixed idx := by
  rw [convert, keep, ← elements_positions]
  exact congrArg _ (merge_positions hidx)

/-! ## The search looks at nothing but subsequences -/

section Congr

variable {β : Type} {cfg : Config β ε} {pred' : List β → Except ε Bool} {all : List β}
  {someNeeded : Bool} {ctx : SliceCtx β}

lemma kept_sublist (cfg : Config β ε) (all : List β) :
    Kept cfg fun _ candidate => candidate.Sublist all where
  predRun hall _ := hall
  shrink hall hsub _ := hsub.trans hall

lemma splitChunks_sublist {ctx' : SliceCtx β} (h : splitChunks cfg someNeeded ctx = .ok ctx')
    (hsub : ctx.elements.Sublist all) : ctx'.elements.Sublist all := by
  obtain ⟨⟨chunks, runs⟩, hloop, hret⟩ := bind_eq_ok_iff.1 h
  cases hret
  exact (kept_sublist cfg all).splitLoop hloop hsub

variable (hpred : ∀ l : List β, l.Sublist all → cfg.pred l = pred' l)

include hpred

lemma predRun_congr (runs : Runs β) {candidate : List β} (hsub : candidate.Sublist all) :
    predRun cfg runs candidate = predRun { cfg with pred := pred' } runs candidate := by
  unfold predRun
  rw [hpred candidate hsub]
  rfl

lemma testParts_congr (someNeeded : Bool) {after : List (Chunk β)} {parts : List (List β)}
    (found : Bool) {new : List (Chunk β)} (runs : Runs β)
    (hsub : (mergeChunks new ++ parts.flatten ++ mergeChunks after).Sublist all) :
    testParts cfg someNeeded after parts found new runs =
      testParts { cfg with pred := pred' } someNeeded after parts found new runs := by
  induction parts generalizing found new runs with
  | nil => rfl
  | cons part parts ih =>
    have hdrop := (dropPart_sublist new after part parts).trans hsub
    rw [← mergeChunks_snoc_part] at hsub
    rw [testParts, testParts, predRun_congr hpred runs hdrop]
    simp only [ih found _ hdrop, ih true _ hsub]

/-- The loop asks the predicate only about sublists of `all`. -/
lemma splitLoop_congr {k : ℕ} {chunks new : List (Chunk β)} (runs : Runs β)
    (hsub : (mergeChunks new ++ mergeChunks chunks).Sublist all) :
    splitLoop cfg someNeeded k chunks new runs =
      splitLoop { cfg with pred := pred' } someNeeded k chunks new runs := by
  induction chunks generalizing new runs with
  | nil => rfl
  | cons chunk after ih =>
    have hkeep : ∀ final, (mergeChunks (new ++ [Chunk.mk chunk.elements final]) ++
        mergeChunks after).Sublist all := by
      simpa using hsub
    have hparts : (mergeChunks new ++ (splitChunk chunk.elements k).flatten ++
        mergeChunks after).Sublist all := by
      rw [splitChunk_flatten]
      simpa using hsub
    have htest := testParts_congr hpred someNeeded false runs hparts
    rw [splitLoop, splitLoop]
    dsimp only
    rw [← htest]
    split
    · exact ih runs (hkeep chunk.final)
    · split
      · exact ih runs (hkeep true)
      · cases hresult : testParts cfg someNeeded after (splitChunk chunk.elements k) false new runs with
        | error err => rfl
        | ok result => exact ih result.2 ((kept_sublist cfg all).testParts hresult hparts)

lemma splitChunks_congr (hsub : ctx.elements.Sublist all) :
    splitChunks cfg someNeeded ctx = splitChunks { cfg with pred := pred' } someNeeded ctx := by
  have hloop : splitLoop cfg someNeeded (splitInto cfg someNeeded ctx.chunks) ctx.chunks []
      ctx.runs = splitLoop { cfg with pred := pred' } someNeeded
        (splitInto cfg someNeeded ctx.chunks) ctx.chunks [] ctx.runs :=
    splitLoop_congr hpred ctx.runs hsub
  rw [splitChunks, hloop]
  rfl

lemma bisectLoop_congr {fuel : ℕ} (hsub : ctx.elements.Sublist all) :
    bisectLoop cfg fuel ctx = bisectLoop { cfg with pred := pred' } fuel ctx := by
  induction fuel generalizing ctx with
  | zero => rfl
  | succ fuel ih =>
    rw [bisectLoop, bisectLoop, ← splitChunks_congr hpred hsub]
    cases hsplit : splitChunks cfg true ctx with
    | error err => rfl
    | ok ctx' =>
      have hnext := ih (splitChunks_sublist hsplit hsub)
      simp only [hnext]
      rfl

lemma slice_congr : slice cfg all = slice { cfg with pred := pred' } all := by
  have hstart : (⟨[⟨all, false⟩], ⟨0, []⟩⟩ : SliceCtx β).elements.Sublist all := by
    simp [SliceCtx.elements]
  unfold slice bisect
  rw [← splitChunks_congr hpred hstart]
  cases hsplit : splitChunks cfg false ⟨[⟨all, false⟩], ⟨0, []⟩⟩ with
  | error err => rfl
  | ok ctx =>
    dsimp only
    rw [bisectLoop_congr hpred (splitChunks_sublist hsplit hstart)]

end Congr

/-! ## The result with fixed elements -/

/-- The search on the positions that are not fixed, with the predicate extended by the fixed
elements. -/
def extended (cfg : Config α ε) (elems : List α) (fixed : α → Bool) : Config ℕ ε where
  pred idx := cfg.pred (keep elems fixed idx)
  maxSteps := cfg.maxSteps
  maxChunks := cfg.maxChunks
  log2Exceeds := cfg.log2Exceeds

variable {cfg : Config α ε}

lemma slice_fixedConfig (cfg : Config α ε) (elems : List α) (fixed : α → Bool) :
    slice (fixedConfig cfg elems fixed) (freeIdx elems fixed) =
      slice (extended cfg elems fixed) (freeIdx elems fixed) := by
  have hpred : ∀ idx : List ℕ, idx.Sublist (freeIdx elems fixed) →
      (fixedConfig cfg elems fixed).pred idx = (extended cfg elems fixed).pred idx := by
    intro idx hidx
    show cfg.pred (convert elems fixed idx) = cfg.pred (keep elems fixed idx)
    rw [convert_eq_keep hidx]
  exact slice_congr hpred

lemma filter_eq_map_zipIdx (elems : List α) (fixed : α → Bool) :
    elems.filter fixed = (elems.zipIdx.filter (fixed ∘ Prod.fst)).map Prod.fst := by
  rw [← filter_map, zipIdx_map_fst]

lemma filter_keep (elems : List α) (fixed : α → Bool) (idx : List ℕ) :
    (keep elems fixed idx).filter fixed = elems.filter fixed := by
  rw [keep, filter_map, filter_filter, filter_eq_map_zipIdx elems]
  congr 1
  apply filter_congr
  intro e _
  cases h : fixed e.1 <;> simp [h]

/-- What the search can return. -/
lemma slice_cases (cfg : Config α ε) (elems : List α) :
    (∃ err, slice cfg elems = some ([], some (.pred err))) ∨
    (∃ result, slice cfg elems = some (result, none) ∧ result.Sublist elems) ∨
    (∃ result, slice cfg elems = some (result, some .tooManyChunks) ∧ result.Sublist elems ∧
      result ≠ []) := by
  obtain ⟨r, hr, -⟩ := bisect_terminates cfg elems
  cases r with
  | error err =>
    left
    exact ⟨err, by rw [slice, hr]⟩
  | ok r =>
    obtain ⟨ctx, err⟩ := r
    right
    have hslice : slice cfg elems = some (ctx.elements, err) := by rw [slice, hr]
    have hproper := bisect_proper hr
    have hends := (bisect_invariant (fun _ _ => trivial) (fun _ _ _ _ => trivial) hr).2
    rcases hends with ⟨rfl, -⟩ | ⟨rfl, hmany⟩
    · exact .inl ⟨ctx.elements, hslice, hproper.sound.sublist⟩
    · refine .inr ⟨ctx.elements, hslice, hproper.sound.sublist, ?_⟩
      -- more chunks than a positive limit, none of them empty
      intro hnil
      have hlen : 0 < ctx.chunks.length := by
        have hpos := hmany.1
        have hlt := hmany.2
        omega
      have hmem := get_mem ctx.chunks ⟨0, hlen⟩
      have hpos := (hproper.chunks _ hmem).1
      have hempty := flatMap_eq_nil_iff.mp hnil _ hmem
      rw [hempty] at hpos
      exact Nat.lt_irrefl 0 hpos

lemma slice_nil (cfg : Config α ε) : slice cfg [] = some ([], none) := by
  have hdone : (⟨[], ⟨0, []⟩⟩ : SliceCtx α).done cfg := .inr (fun _ hc => by cases hc)
  have hbisect : bisect cfg [] = some (.ok (⟨[], ⟨0, []⟩⟩, none)) := by
    exact if_pos hdone
  rw [slice, hbisect]
  rfl

lemma keep_nil (elems : List α) (fixed : α → Bool) : keep elems fixed [] = elems.filter fixed := by
  rw [keep, filter_eq_map_zipIdx elems]
  congr 1
  apply filter_congr
  simp

lemma filter_eq_self_of_freeIdx (h : (freeIdx elems fixed).length = 0) :
    elems.filter fixed = elems := by
  rw [filter_eq_self]
  intro x hx
  obtain ⟨i, hi⟩ := mem_iff_getElem?.mp hx
  have hmem : (x, i) ∈ elems.zipIdx := mk_mem_zipIdx_iff_getElem?.mpr hi
  rw [freeIdx, length_map, length_eq_zero_iff, filter_eq_nil_iff] at h
  simpa using h (x, i) hmem

lemma keep_ne_nil (hidx : idx.Sublist (freeIdx elems fixed)) (hne : idx ≠ []) :
    keep elems fixed idx ≠ [] := by
  obtain ⟨i, rest, rfl⟩ := exists_cons_of_ne_nil hne
  obtain ⟨e, he, hi⟩ := mem_map.mp (hidx.subset mem_cons_self)
  have hmem := mem_of_mem_filter he
  rw [keep, ne_eq, map_eq_nil_iff, filter_eq_nil_iff]
  intro h
  refine h e hmem ?_
  simp [hi]

lemma sliceWithFixed_of_error (hfree : (freeIdx elems fixed).length ≠ 0) {result : List ℕ}
    {err : SliceError ε}
    (h : slice (extended cfg elems fixed) (freeIdx elems fixed) = some (result, some err)) :
    sliceWithFixed cfg elems fixed = some ([], some err) := by
  rw [sliceWithFixed, if_neg hfree, slice_fixedConfig, h]

/-- `SliceWithFixed` returns the error of the search on the elements that are not fixed, and the
elements of the search merged with the fixed ones; with `ErrTooManyChunks` these are still valid,
and every fixed element is there, in the order of the slice. -/
def BehavesLikeSlice (cfg : Config α ε) (elems : List α) (fixed : α → Bool) : Prop :=
  ∃ result err, slice (extended cfg elems fixed) (freeIdx elems fixed) = some (result, err) ∧
    sliceWithFixed cfg elems fixed = some (keep elems fixed result, err) ∧
    (err = some .tooManyChunks → cfg.pred (keep elems fixed result) = .ok true) ∧
    (keep elems fixed result).filter fixed = elems.filter fixed

/-- The search on the elements that are not fixed ends without an error, or with one of the
predicate while there is no fixed element that could be lost. -/
def SearchSucceeds (cfg : Config α ε) (elems : List α) (fixed : α → Bool) : Prop :=
  ∃ result err, slice (extended cfg elems fixed) (freeIdx elems fixed) = some (result, err) ∧
    (err = none ∨ err ≠ some .tooManyChunks ∧ elems.filter fixed = [])

/-- There is one result of the search. -/
lemma exists_slice_iff {β : Type} {cfg : Config β ε} {all result : List β}
    {err : Option (SliceError ε)} {P : List β → Option (SliceError ε) → Prop}
    (h : slice cfg all = some (result, err)) :
    (∃ result err, slice cfg all = some (result, err) ∧ P result err) ↔ P result err := by
  rw [h]
  constructor
  · rintro ⟨_, _, ⟨⟩, hP⟩
    exact hP
  · intro hP
    exact ⟨result, err, rfl, hP⟩

/-- The error of the search decides: with one, the elements that come with it are not returned. -/
theorem sliceWithFixed_behavesLikeSlice_iff (cfg : Config α ε) (elems : List α) (fixed : α → Bool) :
    BehavesLikeSlice cfg elems fixed ↔ SearchSucceeds cfg elems fixed := by
  unfold BehavesLikeSlice SearchSucceeds
  by_cases hfree : (freeIdx elems fixed).length = 0
  · -- all elements are fixed
    have hslice : slice (extended cfg elems fixed) (freeIdx elems fixed) = some ([], none) := by
      rw [length_eq_zero_iff.mp hfree]
      exact slice_nil _
    rw [exists_slice_iff hslice, exists_slice_iff hslice]
    refine iff_of_true ⟨?_, nofun, filter_keep elems fixed []⟩ (.inl rfl)
    rw [sliceWithFixed, if_pos hfree, keep_nil, filter_eq_self_of_freeIdx hfree]
  · rcases slice_cases (extended cfg elems fixed) (freeIdx elems fixed) with ⟨err, hslice⟩ |
      ⟨result, hslice, hsub⟩ | ⟨result, hslice, hsub, hne⟩ <;>
      rw [exists_slice_iff hslice, exists_slice_iff hslice, filter_keep]
    · -- an error of the predicate
      rw [sliceWithFixed_of_error hfree hslice, keep_nil]
      simp [eq_comm (a := [])]
    · -- no error
      refine iff_of_true ⟨?_, nofun, rfl⟩ (.inl rfl)
      rw [sliceWithFixed, if_neg hfree, slice_fixedConfig, hslice, ← convert_eq_keep hsub]
    · -- too many chunks: the elements are there but not returned
      rw [sliceWithFixed_of_error hfree hslice]
      refine iff_of_false (fun h => keep_ne_nil hsub hne ?_) (by simp)
      simpa using h.1.symm

/-- All three elements are needed and the limit is one chunk: with `ErrTooManyChunks` nothing is
returned, although the search ends with both elements that are not fixed, and the predicate holds
for all three. -/
theorem sliceWithFixed_tooManyChunks :
    slice (extended (ε := Empty)
      ⟨fun l => .ok (decide (3 ≤ l.length)), 0, 1, fun _ _ => false⟩ [5, 7, 8] (· == 5))
      (freeIdx [5, 7, 8] (· == 5)) = some ([1, 2], some .tooManyChunks) ∧
    keep [5, 7, 8] (· == 5) [1, 2] = [5, 7, 8] ∧
    sliceWithFixed (ε := Empty)
      ⟨fun l => .ok (decide (3 ≤ l.length)), 0, 1, fun _ _ => false⟩ [5, 7, 8] (· == 5) =
      some ([], some .tooManyChunks) := by
  decide

end KConfuzz.Bisect
