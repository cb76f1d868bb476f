import Mathlib.Data.Finset.Card
import KConfuzz.Prog.Context
import KConfuzz.Prog.RelatedTheorems

/-!
# Which calls a minimized program has, and where its actions run

Every program that minimization tries or returns has calls of the original one, in their order,
and the index that goes with it is the one of the target call (`keeps_minimize`). Actions are
tied to calls by index only, and `CloneForProg` does not know which calls were removed: an action
runs at its old index, so it stays with its call exactly when no call before it was removed
(`runActions_minimized`).
-/

namespace KConfuzz

open Lib.Oracle Lib.StableSort List Option

/-! ## The invariant of candidates -/

/-- `t` has the calls `t.kept` of `p`, and its index is the one of the call `target`. -/
structure Candidate.Of (p : Prog) (target : Option ℕ) (t : Candidate) : Prop where
  sorted : t.kept.Pairwise (· < ·)
  calls : t.kept.map (fun i => p.calls[i]?.map Call.callMeta) =
    t.prog.calls.map (fun c => some c.callMeta)
  target : t.callIndex.bind (t.kept[·]?) = target

variable {p : Prog} {target : Option ℕ} {t : Candidate} {calls : List Call} {i : ℕ}

namespace Candidate.Of

lemma length_kept (h : t.Of p target) : t.kept.length = t.prog.calls.length := by
  simpa using congrArg List.length h.calls

lemma mapCalls (h : t.Of p target) (f : ℕ → Call → Call)
    (hf : ∀ i c, (f i c).callMeta = c.callMeta) :
    Candidate.Of p target { t with prog := t.prog.mapCalls f hf } := by
  refine ⟨h.sorted, ?_, h.target⟩
  rw [h.calls]
  refine ext_getElem? fun i => ?_
  simp only [Prog.mapCalls, getElem?_map, getElem?_mapIdx, Option.map_map]
  cases t.prog.calls[i]? with
  | none => rfl
  | some c => simp [hf]

/-- Removing a call leaves calls of the program. -/
lemma removeCall (h : t.Of p target) {i : ℕ} (hi : t.callIndex ≠ some i) :
    (t.removeCall i).Of p target := by
  refine ⟨h.sorted.sublist (eraseIdx_sublist _ _), ?_, ?_⟩
  · have hprog : (t.removeCall i).prog.calls.map (fun c => some c.callMeta) =
        (t.prog.calls.map (fun c => some c.callMeta)).eraseIdx i := by
      rw [eraseIdx_map]
      simp [Candidate.removeCall, Prog.removeCall, Function.comp_def]
    rw [hprog, ← h.calls, eraseIdx_map]
    rfl
  · rw [← h.target]
    cases hindex : t.callIndex with
    | none => simp [Candidate.removeCall, hindex]
    | some callIndex =>
      have hne : callIndex ≠ i := fun heq => hi (heq ▸ hindex)
      simp only [Candidate.removeCall, hindex, map_some, bind_some]
      by_cases hlt : i < callIndex
      · -- the target moves to the place before
        rw [if_pos hlt, getElem?_eraseIdx_of_ge (by omega)]
        congr 1
        omega
      · rw [if_neg hlt, getElem?_eraseIdx_of_lt (by omega)]

end Candidate.Of

/-! ## Removing several calls -/

lemma removeCallsAt_append_singleton (indices : List ℕ) :
    t.removeCallsAt (indices ++ [i]) = (t.removeCall i).removeCallsAt indices := by
  simp [Candidate.removeCallsAt]

lemma length_removeCall (hi : i < t.prog.calls.length) :
    (t.removeCall i).prog.calls.length + 1 = t.prog.calls.length := by
  have hlen : (t.removeCall i).prog.calls.length = (t.prog.calls.eraseIdx i).length := by
    simp [Candidate.removeCall, Prog.removeCall]
  rw [hlen, length_eraseIdx_of_lt hi]
  omega

/-- The indices are removed from the last to the first, so those that are left to remove are
not affected by what was removed before. -/
lemma Candidate.Of.removeCallsAt (h : t.Of p target) {indices : List ℕ}
    (hsorted : indices.Pairwise (· < ·)) (hlt : ∀ i ∈ indices, i < t.prog.calls.length)
    (hindex : ∀ i ∈ indices, t.callIndex ≠ some i) :
    (t.removeCallsAt indices).Of p target ∧ (t.removeCallsAt indices).kept.Sublist t.kept ∧
      (t.removeCallsAt indices).prog.calls.length + indices.length = t.prog.calls.length := by
  induction indices using reverseRecOn generalizing t with
  | nil => exact ⟨h, Sublist.refl _, rfl⟩
  | append_singleton indices i ih =>
    rw [pairwise_append] at hsorted
    have hji : ∀ j ∈ indices, j < i := fun j hj => hsorted.2.2 j hj i (mem_singleton_self i)
    have hi := hlt i (by simp)
    have hstep := length_removeCall hi
    have hnext : ∀ j ∈ indices, (t.removeCall i).callIndex ≠ some j := by
      intro j hj
      have hj' := hindex j (mem_append_left _ hj)
      have hlt' := hji j hj
      cases hc : t.callIndex with
      | none => simp [Candidate.removeCall, hc]
      | some callIndex =>
        rw [hc, ne_eq, some.injEq] at hj'
        simp only [Candidate.removeCall, hc, map_some, ne_eq, some.injEq]
        split <;> omega
    obtain ⟨hof, hkept, hlen⟩ := ih (h.removeCall (hindex i (by simp))) hsorted.1 (fun j hj => by
      have := hji j hj
      omega) hnext
    rw [removeCallsAt_append_singleton, length_append, length_singleton]
    exact ⟨hof, hkept.trans (eraseIdx_sublist _ _), by omega⟩

/-! ## Proposals -/

namespace Candidate

def withoutTrailing (t : Candidate) : Option Candidate :=
  match t.callIndex with
  | some callIndex =>
    if callIndex + 2 < t.prog.calls.length then
      some (t.removeCallsAt
        (List.range' (callIndex + 1) (t.prog.calls.length - (callIndex + 1))))
    else none
  | none => none

def withoutUnrelated (t : Candidate) : Option Candidate :=
  match t.callIndex with
  | some callIndex =>
    let keepCalls := (relatedCalls t.prog callIndex).getD [callIndex]
    if t.prog.calls.length - keepCalls.length < 3 then none
    else some (t.removeCallsAt
      ((List.range t.prog.calls.length).filter (!keepCalls.contains ·)))
  | none => none

def without (i : ℕ) (t : Candidate) : Option Candidate :=
  if t.callIndex = some i then none else some (t.removeCall i)

/-- `c` is a candidate of the same program and target that has fewer calls than `t`. -/
structure Smaller (p : Prog) (target : Option ℕ) (t c : Candidate) : Prop where
  of : c.Of p target
  kept : c.kept.Sublist t.kept
  length : c.prog.calls.length < t.prog.calls.length

end Candidate

section Proposals

variable {c : Candidate}

variable (h : t.Of p target)

include h

lemma smaller_removeCallsAt {indices : List ℕ}
    (hsorted : indices.Pairwise (· < ·)) (hlt : ∀ i ∈ indices, i < t.prog.calls.length)
    (hindex : ∀ i ∈ indices, t.callIndex ≠ some i) (hne : indices ≠ []) :
    Candidate.Smaller p target t (t.removeCallsAt indices) := by
  obtain ⟨hof, hkept, hlen⟩ := h.removeCallsAt hsorted hlt hindex
  have hpos := length_pos_of_ne_nil hne
  exact ⟨hof, hkept, by omega⟩

/-- Dropping the calls at the end. -/
lemma smaller_withoutTrailing (hc : t.withoutTrailing = some c) :
    Candidate.Smaller p target t c := by
  unfold Candidate.withoutTrailing at hc
  split at hc
  · rename_i callIndex hindex
    split_ifs at hc with hlen
    cases hc
    apply smaller_removeCallsAt h pairwise_lt_range'
    · intro i hi
      rw [mem_range'_1] at hi
      omega
    · intro i hi
      rw [mem_range'_1] at hi
      rw [hindex, ne_eq, some.injEq]
      omega
    · rw [ne_eq, range'_eq_nil_iff]
      omega
  · cases hc

/-- Dropping unrelated calls. -/
lemma smaller_withoutUnrelated (hc : t.withoutUnrelated = some c) :
    Candidate.Smaller p target t c := by
  unfold Candidate.withoutUnrelated at hc
  split at hc
  · rename_i callIndex hindex
    dsimp only at hc
    split_ifs at hc with hlen
    cases hc
    apply smaller_removeCallsAt h (pairwise_lt_range.filter _)
    · intro i hi
      exact mem_range.mp (mem_of_mem_filter hi)
    · intro i hi heq
      -- the target is related to itself
      rw [hindex, some.injEq] at heq
      have hkeep : i ∈ (relatedCalls t.prog callIndex).getD [callIndex] :=
        heq ▸ target_mem_relatedCalls
      simp [hkeep] at hi
    · -- if all calls were related, there would be as many of them as calls
      intro hnil
      have hsub : List.range t.prog.calls.length ⊆
          (relatedCalls t.prog callIndex).getD [callIndex] := by
        intro i hi
        have hnot := filter_eq_nil_iff.mp hnil i hi
        simpa using hnot
      have hle := (nodup_range.subperm hsub).length_le
      rw [length_range] at hle
      omega
  · cases hc

lemma smaller_without (hi : i < t.prog.calls.length)
    (hc : t.without i = some c) : Candidate.Smaller p target t c := by
  unfold Candidate.without at hc
  split_ifs at hc with hindex
  cases hc
  refine ⟨h.removeCall hindex, eraseIdx_sublist _ _, ?_⟩
  have hlen := length_removeCall hi
  omega

end Proposals

/-! ## Runs -/

variable {env : MinEnv} {mode : MinimizeMode}

/-- `pred` on a proposal, if there is one. -/
def tryProposal (env : MinEnv) (t0 : Candidate) : Option Candidate → Minimizer Candidate
  | some t => tryCandidate env t0 t
  | none => pure t0

lemma removeTrailingCalls_eq (t : Candidate) :
    removeTrailingCalls env t = tryProposal env t t.withoutTrailing := by
  unfold removeTrailingCalls Candidate.withoutTrailing
  cases t.callIndex with
  | none => rfl
  | some callIndex =>
    dsimp only
    split_ifs <;> rfl

lemma removeUnrelatedCalls_eq (t : Candidate) :
    removeUnrelatedCalls env t = tryProposal env t t.withoutUnrelated := by
  unfold removeUnrelatedCalls Candidate.withoutUnrelated
  cases t.callIndex with
  | none => rfl
  | some callIndex =>
    dsimp only
    split_ifs <;> rfl

lemma removeEachCall_succ (i : ℕ) (t : Candidate) :
    removeEachCall env (i + 1) t = tryProposal env t (t.without i) >>= removeEachCall env i := by
  rw [removeEachCall]
  unfold Candidate.without
  split_ifs <;> rfl

/-- Only candidates from the program are asked about, and the result is one. -/
abbrev KeepsOf (p : Prog) (target : Option ℕ) (m : Minimizer Candidate) : Prop :=
  Keeps (Candidate.Of p target) m (Candidate.Of p target)

lemma keeps_pred (h : t.Of p target) :
    Keeps (Candidate.Of p target) (pred env t) fun r => r.2.Of p target := by
  have hfix : (t.sanitizeFix env).Of p target := h.mapCalls _ _
  exact (keeps_ask _ _ hfix).bind fun ok _ => keeps_pure hfix

lemma keeps_tryCandidate {t0 : Candidate} (h0 : t0.Of p target) (h : t.Of p target) :
    KeepsOf p target (tryCandidate env t0 t) := by
  refine (keeps_pred h).bind fun r hr => keeps_pure ?_
  split
  · exact hr
  · exact h0

lemma keeps_tryProposal {t0 : Candidate} (h0 : t0.Of p target) {proposal : Option Candidate}
    (h : ∀ c ∈ proposal, Candidate.Smaller p target t0 c) :
    KeepsOf p target (tryProposal env t0 proposal) := by
  cases proposal with
  | none => exact keeps_pure h0
  | some c => exact keeps_tryCandidate h0 (h c rfl).of

lemma keeps_removeEachCall (i : ℕ) (h : t.Of p target) :
    KeepsOf p target (removeEachCall env i t) := by
  induction i generalizing t with
  | zero => exact keeps_pure h
  | succ i ih =>
    rw [removeEachCall]
    split_ifs with hindex
    · exact (keeps_pure h).bind fun t' ht' => ih ht'
    · exact (keeps_tryCandidate h (h.removeCall hindex)).bind fun t' ht' => ih ht'

lemma keeps_removeCalls (h : t.Of p target) : KeepsOf p target (removeCalls env t) := by
  unfold removeCalls
  simp only [removeTrailingCalls_eq, removeUnrelatedCalls_eq]
  exact (keeps_tryProposal h fun _ hc => smaller_withoutTrailing h hc).bind fun _ h =>
    (keeps_tryProposal h fun _ hc => smaller_withoutUnrelated h hc).bind fun _ h =>
      keeps_removeEachCall _ h

lemma keeps_resetCallProps (h : t.Of p target) : KeepsOf p target (resetCallProps env t) := by
  unfold resetCallProps
  split_ifs
  · exact keeps_tryCandidate h (h.mapCalls _ _)
  · exact keeps_pure h

lemma keeps_minimizeCallProps (i : ℕ) (h : t.Of p target) :
    KeepsOf p target (minimizeCallProps env i t) := by
  have htry : ∀ (drop : Bool) (f : CallProps → CallProps) {t : Candidate}, t.Of p target →
      KeepsOf p target
        (if drop then tryCandidate env t { t with prog := t.prog.modifyProps i f } else pure t) := by
    intro drop f t h
    split_ifs
    · exact keeps_tryCandidate h (h.mapCalls _ _)
    · exact keeps_pure h
  exact (htry _ _ h).bind fun _ h => (htry _ _ h).bind fun _ h => htry _ _ h

lemma keeps_minimizeArgs {n : ℕ} {answers : List Bool} (h : t.Of p target) :
    KeepsOf p target (minimizeArgs env mode i n answers t) := by
  induction n generalizing answers t with
  | zero => exact keeps_pure h
  | succ n ih =>
    rw [minimizeArgs]
    split
    · exact keeps_pure h
    · exact ih (h.mapCalls _ _)
    · refine (keeps_pred (h.mapCalls _ _)).bind fun r hr => ih ?_
      split
      · exact hr
      · exact h

lemma keeps_minimizeCalls (h : t.Of p target) : KeepsOf p target (minimizeCalls env mode t) := by
  have hcall : ∀ t : Candidate, t.Of p target → ∀ i,
      KeepsOf p target (minimizeCall env mode t i) := by
    intro t h i
    unfold minimizeCall
    split_ifs
    · exact keeps_pure h
    · exact (keeps_minimizeArgs h).bind fun _ h => keeps_minimizeCallProps i h
  unfold minimizeCalls
  split_ifs
  · exact (keeps_resetCallProps h).bind fun t h => keeps_foldlM (fun t h i _ => hcall t h i) h
  · exact keeps_pure h

lemma Candidate.of_self {callIndex0 : Option ℕ} (hindex : ∀ i ∈ callIndex0, i < p.calls.length) :
    Candidate.Of p callIndex0
      { prog := p, kept := List.range p.calls.length, callIndex := callIndex0 } := by
  refine ⟨pairwise_lt_range, ?_, ?_⟩
  · refine ext_getElem (by simp) fun i hi _ => ?_
    simp only [length_map, length_range] at hi
    simp [hi]
  · cases callIndex0 with
    | none => rfl
    | some i => simpa using getElem?_range (hindex i rfl)

/-- The call of interest stays the same. -/
lemma Candidate.Of.callMeta_target (h : t.Of p target) (hsome : target.isSome) :
    (t.callIndex.bind (t.prog.calls[·]?)).map Call.callMeta =
      (target.bind (p.calls[·]?)).map Call.callMeta := by
  obtain ⟨i, hi⟩ := isSome_iff_exists.mp hsome
  have htarget := h.target
  rw [hi, bind_eq_some_iff] at htarget
  obtain ⟨callIndex, hindex, hkept⟩ := htarget
  have hget := congrArg (·[callIndex]?) h.calls
  simp only [getElem?_map, hkept, map_some] at hget
  rw [hi, hindex, bind_some, bind_some]
  cases hc : t.prog.calls[callIndex]? with
  | none =>
    rw [hc] at hget
    cases hget
  | some c =>
    rw [hc, map_some, some.injEq] at hget
    rw [hget]
    rfl

lemma keeps_minimizeFrom {callIndex0 : Option ℕ} (hindex : ∀ i ∈ callIndex0, i < p.calls.length)
    {mode : MinimizeMode} :
    Keeps (Candidate.Of p callIndex0) (minimizeFrom env p callIndex0 mode)
      fun r => ∃ t, r = .ok t ∧ t.Of p callIndex0 := by
  refine (keeps_removeCalls (Candidate.of_self hindex)).bind fun t ht => ?_
  refine (keeps_minimizeCalls ht).bind fun t ht => ?_
  rw [if_neg]
  · exact keeps_pure ⟨t, rfl, ht⟩
  · rintro ⟨hsome, hname⟩
    apply hname
    have hmeta := congrArg (Option.map Syscall.name) (ht.callMeta_target hsome)
    rwa [Option.map_map, Option.map_map] at hmeta

/-- `Minimize` asks the predicate about the program, or returns it. -/
def Minimized (env : MinEnv) (p : Prog) (callIndex0 : ℤ) (mode : MinimizeMode) (t : Candidate) :
    Prop :=
  t ∈ (minimize env p callIndex0 mode .empty).2.asked ∨
    (minimize env p callIndex0 mode .empty).1 = .ok t

/-- The target call of an index, where -1 stands for none. -/
def targetOf (callIndex0 : ℤ) : Option ℕ := if callIndex0 = -1 then none else some callIndex0.toNat

/-- Whatever is tried or returned consists of calls of the program. -/
lemma Minimized.of {callIndex0 : ℤ} (h : Minimized env p callIndex0 mode t) :
    t.Of p (targetOf callIndex0) := by
  have hrun : Keeps (Candidate.Of p (targetOf callIndex0)) (minimize env p callIndex0 mode)
      fun r => ∀ t, r = .ok t → t.Of p (targetOf callIndex0) := by
    have hfrom : (∀ i ∈ targetOf callIndex0, i < p.calls.length) →
        Keeps (Candidate.Of p (targetOf callIndex0)) (minimizeFrom env p (targetOf callIndex0) mode)
          fun r => ∀ t, r = .ok t → t.Of p (targetOf callIndex0) := by
      intro hindex log hlog
      obtain ⟨hasked, t, hr, ht⟩ := keeps_minimizeFrom hindex log hlog
      refine ⟨hasked, fun t' hr' => ?_⟩
      rw [hr] at hr'
      cases hr'
      exact ht
    unfold minimize
    unfold targetOf at hfrom ⊢
    split_ifs with hnone hbad
    · rw [if_pos hnone] at hfrom
      exact hfrom (by simp)
    · refine keeps_pure fun t ht => ?_
      cases ht
    · rw [if_neg hnone] at hfrom
      refine hfrom fun i hi => ?_
      cases hi
      omega
  obtain ⟨hasked, hresult⟩ := hrun .empty (by simp [Log.empty])
  rcases h with h | h
  · exact hasked t h
  · exact hresult t h

/-! ## Where actions run -/

/-- Before the call `b` of the original program if it is left, and else before the next one that
is left, or at the end. -/
def followPlace (kept : List ℕ) (b : ℕ) : ℕ := kept.findIdx (b ≤ ·)

/-- An action follows its call to the number of kept calls before it. -/
lemma followPlace_eq_length {kept : List ℕ} (hsorted : kept.Pairwise (· < ·)) (b : ℕ) :
    followPlace kept b = (kept.filter (· < b)).length := by
  unfold followPlace
  induction kept with
  | nil => rfl
  | cons i kept ih =>
    rw [pairwise_cons] at hsorted
    rw [findIdx_cons, filter_cons]
    by_cases hi : b ≤ i
    · -- all later indices are even larger
      have hnone : kept.filter (· < b) = [] := by
        rw [filter_eq_nil_iff]
        intro j hj
        have := hsorted.1 j hj
        rw [decide_eq_true_eq]
        omega
      simp [hi, Nat.not_lt.mpr hi, hnone]
    · simp [hi, Nat.lt_of_not_le hi, ih hsorted.2]

/-- An index keeps its place exactly when everything before it is left. -/
lemma followPlace_eq_iff {kept : List ℕ} (hsorted : kept.Pairwise (· < ·)) (b : ℕ) :
    followPlace kept b = b ↔ ∀ i < b, i ∈ kept := by
  have hnodup : (kept.filter (· < b)).Nodup := (hsorted.imp ne_of_lt).filter _
  have hset : (kept.filter (· < b)).toFinset = (Finset.range b).filter (· ∈ kept) := by
    ext i
    simp [and_comm]
  rw [followPlace_eq_length hsorted, ← toFinset_card_of_nodup hnodup, hset]
  have hcard := Finset.card_filter_eq_iff (s := Finset.range b) (p := (· ∈ kept))
  rw [Finset.card_range] at hcard
  rw [hcard]
  simp

/-- The actions that a program is executed with when it runs with a clone of the context. -/
def runActions (c : KConfuzzConfigContext) (q : Prog) : List KConfuzzConfigAction :=
  (c.cloneForProg (some q)).elim [] KConfuzzConfigContext.actions

lemma runActions_eq (c : KConfuzzConfigContext) (q : Prog) :
    runActions c q = normalizeKConfuzzConfigActions (some q) c.actions := by
  unfold runActions KConfuzzConfigContext.cloneForProg
  dsimp only
  split_ifs with h
  · rw [Bool.and_eq_true, List.isEmpty_iff] at h
    rw [h.1]
    rfl
  · rfl

/-- Every program that minimization tries or returns consists of calls of the original program.
It runs with the actions whose index it has, at their old indices; an action runs where its call
went exactly when all calls before it are left. -/
theorem runActions_minimized {callIndex0 : ℤ} {mode : MinimizeMode} {c : KConfuzzConfigContext}
    (hrange : ∀ a ∈ c.actions, a.inRange (some p)) (ht : Minimized env p callIndex0 mode t) :
    t.Of p (targetOf callIndex0) ∧
      runActions c t.prog = sliceStable actionLess
        (c.actions.filter fun a => a.beforeCall ≤ t.prog.calls.length) ∧
      ∀ a ∈ c.actions,
        (a ∈ runActions c t.prog ∧
          followPlace t.kept a.beforeCall.toNat = a.beforeCall.toNat) ↔
        ∀ i < a.beforeCall.toNat, i ∈ t.kept := by
  have hof := ht.of
  have hnonneg : ∀ a ∈ c.actions, 0 ≤ a.beforeCall := fun a ha =>
    (KConfuzzConfigAction.inRange_some_iff.1 (hrange a ha)).1
  have hactions : runActions c t.prog = sliceStable actionLess
      (c.actions.filter fun a => a.beforeCall ≤ t.prog.calls.length) := by
    rw [runActions_eq, normalizeKConfuzzConfigActions]
    congr 1
    refine filter_congr fun a ha => ?_
    simp [KConfuzzConfigAction.inRange, hnonneg a ha]
  refine ⟨hof, hactions, fun a ha => ?_⟩
  rw [← followPlace_eq_iff hof.sorted, and_iff_right_iff_imp]
  -- an action that keeps its place has as many calls before it as its index says
  intro hplace
  have hle : followPlace t.kept a.beforeCall.toNat ≤ t.kept.length := findIdx_le_length
  rw [hplace, hof.length_kept] at hle
  rw [hactions, mem_sliceStable, mem_filter, decide_eq_true_eq]
  exact ⟨ha, by omega⟩

/-! ## A program of three calls -/

/-- A predicate that accepts every program; the calls have no arguments to minimize. -/
def acceptAll : MinEnv :=
  { pred0 := fun _ => true
    progID := fun p => ",".intercalate (p.calls.map (·.callMeta.name))
    neutralize := Call.args
    argStep := fun _ _ _ _ => none
    argSteps := fun _ _ _ => 0 }

/-- The program without the call in the middle is tried. -/
lemma exists_minimized_syncProg :
    ∃ t, Minimized acceptAll syncProg 2 .minimizeCorpus t ∧ t.kept = [0, 2] := by
  have hmem : [0, 2] ∈
      (minimize acceptAll syncProg 2 .minimizeCorpus .empty).2.asked.map (·.kept) := by
    exact mem_cons_self
  obtain ⟨t, ht, hkept⟩ := mem_map.mp hmem
  exact ⟨t, .inl ht, hkept⟩

/-- A context with one action, before the call of the given index. -/
def beforeContext (i : ℤ) : KConfuzzConfigContext :=
  { strategy := "call", source := "corpus", configDependent := true, actions := [⟨i, 0, 1, 0⟩] }

/-- The action before the call in the middle runs before the last call when that one is removed. -/
theorem runActions_beforeContext :
    ∃ t, Minimized acceptAll syncProg 2 .minimizeCorpus t ∧ t.kept = [0, 2] ∧
      ∀ a ∈ (beforeContext 1).actions, a ∈ runActions (beforeContext 1) t.prog ∧
        followPlace t.kept a.beforeCall.toNat = a.beforeCall.toNat := by
  obtain ⟨t, ht, hkept⟩ := exists_minimized_syncProg
  refine ⟨t, ht, hkept, fun a ha => ?_⟩
  obtain ⟨-, -, hplace⟩ := runActions_minimized (c := beforeContext 1) (by decide) ht
  refine (hplace a ha).mpr ?_
  rw [mem_singleton.mp ha, hkept]
  decide

/-- Every action runs where its call went. -/
def FollowsCalls (c : KConfuzzConfigContext) (t : Candidate) : Prop :=
  ∀ a ∈ c.actions,
    { a with beforeCall := followPlace t.kept a.beforeCall.toNat } ∈ runActions c t.prog

/-- When the call in the middle is removed, the action before the last call runs after it. -/
theorem not_followsCalls_beforeContext :
    (∀ a ∈ (beforeContext 2).actions, a.inRange (some syncProg)) ∧
      ∃ t, Minimized acceptAll syncProg 2 .minimizeCorpus t ∧ ¬ FollowsCalls (beforeContext 2) t := by
  refine ⟨by decide, ?_⟩
  obtain ⟨t, ht, hkept⟩ := exists_minimized_syncProg
  refine ⟨t, ht, fun hfollows => ?_⟩
  have hmem := hfollows ⟨2, 0, 1, 0⟩ (mem_singleton_self _)
  rw [runActions_eq, mem_normalizeKConfuzzConfigActions, hkept] at hmem
  exact absurd hmem.1 (by decide)

end KConfuzz
