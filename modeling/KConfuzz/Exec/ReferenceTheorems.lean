import Mathlib.Data.List.Perm.Basic
import KConfuzz.Exec.RoundTrip

/-!
# References to results

In a valid program a value that a call needs is the one of a result of an earlier call or of an
argument of the same call (`exists_target_of_mem_argNodes`). So only indices that are given out are
written for references (`copyoutIdx_lt_of_written`), and `copyoutIdx_eq_last_iff` says when it is
the last one. The decoder finds as many variables as there are used results exactly when the last
used result is read (`foldl_refIdxs_eq_iff`).
-/

namespace KConfuzz

open Lib.ExceptFold Lib.StableSort ExecDecoder List Call

/-! ## References in valid programs -/

lemma passedResult_mem_subtree {u : ResultArg} : ∀ {arg : Arg},
    arg.passedResult = some u → .result u ∈ arg.subtree
  | .result r, h => by
    cases h
    exact Arg.mem_subtree_self _
  | .union _ _ _ option _, h => by
    exact mem_cons_of_mem _ (passedResult_mem_subtree h)
  | .const .., h | .pointer .., h | .data .., h | .group .., h => by
    cases h

/-- Results whose values are written are in the arguments. -/
lemma mem_argNodes_of_written {c : Call} {u : ResultArg} (h : u ∈ c.writtenResults) :
    .result u ∈ c.argNodes := by
  rcases mem_append.mp h with h | h
  · obtain ⟨visit, hvisit, hcopied⟩ := mem_filterMap.mp h
    unfold copiedResult at hcopied
    split_ifs at hcopied with hcond
    rw [result?_eq_some_iff] at hcopied
    rw [foreachArg, mem_append] at hvisit
    rcases hvisit with hret | hargs
    · -- the return value is not in memory
      cases hc : c.ret with
      | none =>
        rw [hc] at hret
        cases hret
      | some r =>
        simp only [hc, foreachArgImpl, mem_singleton] at hret
        rw [hret] at hcond
        cases hcond
    · obtain ⟨arg, harg, hmem⟩ := mem_flatMap.mp hargs
      refine mem_flatMap.mpr ⟨arg, harg, ?_⟩
      rw [← map_fst_foreachArgImpl ⟨none, 0⟩ arg, ← hcopied]
      exact mem_map_of_mem hmem
  · obtain ⟨arg, harg, hpassed⟩ := mem_filterMap.mp h
    exact mem_flatMap.mpr ⟨arg, harg, passedResult_mem_subtree hpassed⟩

section Valid

variable {calls pre post : List Call} {c : Call} (hvalid : ValidOrder (calls.flatMap Call.nodes))
  (hcalls : calls = pre ++ c :: post)

include hvalid hcalls

/-- An argument refers to a used result of an earlier call or to one of the same call. -/
lemma exists_target_of_mem_argNodes {u : ResultArg} (hu : .result u ∈ c.argNodes) {id : ArgId}
    (hres : u.res = some id) :
    ∃ r, r.id = id ∧ r.isUsed ∧ (.result r ∈ pre.flatMap nodes ∨ .result r ∈ c.argNodes) := by
  obtain ⟨before, after, hsplit⟩ := append_of_mem hu
  have horder : calls.flatMap nodes =
      (pre.flatMap nodes ++ before) ++ .result u ::
        (after ++ c.retNodes ++ post.flatMap nodes) := by
    rw [hcalls, flatMap_append, flatMap_cons, nodes, hsplit]
    simp
  obtain ⟨r, hr, hid, huses⟩ := hvalid.link _ u _ horder id hres
  refine ⟨r, hid, ?_, ?_⟩
  · have hne : r.uses ≠ [] := ne_nil_of_mem huses
    simp [ResultArg.isUsed, hne]
  · rw [hsplit]
    rw [mem_append, mem_append, mem_singleton] at hr
    rcases hr with (hr | hr) | hr
    · exact .inl hr
    · exact .inr (mem_append_left _ hr)
    · exact .inr (mem_append_right _ (mem_cons.mpr (.inl hr)))

lemma notMem_retNodes_of_written : ∀ id ∈ refs c.writtenResults, id ∉ usedIds c.retNodes := by
  intro id hid hret
  obtain ⟨u, hu, hres⟩ := mem_filterMap.mp hid
  obtain ⟨r, hr, -, hmem⟩ :=
    exists_target_of_mem_argNodes hvalid hcalls (mem_argNodes_of_written hu) hres
  have hret := usedIds_subset _ hret
  have hnodup := hvalid.nodup
  rw [hcalls, flatMap_append, flatMap_cons, nodes, map_append, map_append,
    map_append, nodup_append, nodup_append, nodup_append] at hnodup
  rcases hmem with hpre | hargs
  · exact hnodup.2.2 id (mem_map.mpr ⟨_, hpre, hr⟩) id
      (mem_append_left _ (mem_append_right _ hret)) rfl
  · exact hnodup.2.1.1.2.2 id (mem_map.mpr ⟨_, hargs, hr⟩) id hret rfl

omit hcalls in
lemma newCalls_init : NewCalls [] [] [] .init calls where
  context := .init
  rets_subset := Subset.refl _
  done_subset := Subset.refl _
  notMem := by simp
  nodup := hvalid.nodup
  not_own c hc := by
    obtain ⟨pre, post, hcalls⟩ := append_of_mem hc
    exact notMem_retNodes_of_written hvalid hcalls

end Valid

/-! ## Used results -/

lemma mem_usedResults {c : Call} {r : ResultArg} :
    r ∈ c.usedResults ↔ .result r ∈ c.nodes ∧ r.isUsed := by
  rw [usedResults, mem_filter, mem_filterMap_result?, nodes, mem_append, mem_append, or_comm]

lemma map_id_usedResults (c : Call) : c.usedResults.map (·.id) = c.usedIds := by
  rw [Call.usedIds, ← usedIds_append]
  rfl

lemma map_id_flatMap_usedResults (calls : List Call) :
    (calls.flatMap Call.usedResults).map (·.id) = calls.flatMap Call.usedIds := by
  rw [map_flatMap]
  simp only [map_id_usedResults]

/-- In a valid program no result gets two indices. -/
lemma nodup_usedIds {calls : List Call} (hvalid : ValidOrder (calls.flatMap Call.nodes)) :
    (calls.flatMap Call.usedIds).Nodup := by
  have hperm : (calls.flatMap Call.usedIds).Perm (usedIds (calls.flatMap Call.nodes)) := by
    have hcall : ∀ c ∈ calls, c.usedIds.Perm (usedIds c.nodes) := by
      intro c _
      rw [nodes, usedIds_append]
      exact perm_append_comm
    have hflat : usedIds (calls.flatMap nodes) = calls.flatMap fun c => usedIds c.nodes := by
      simp only [usedIds, filterMap_flatMap, filter_flatMap, map_flatMap]
    rw [hflat]
    exact Perm.flatMap_left calls hcall
  have hsub : (usedIds (calls.flatMap nodes)).Sublist ((calls.flatMap nodes).map Arg.id) := by
    generalize calls.flatMap nodes = l
    induction l with
    | nil => exact .slnil
    | cons arg l ih =>
      rw [← singleton_append, usedIds_append, map_append]
      refine Sublist.append ?_ ih
      cases hr : arg.result? with
      | none => simp [usedIds, hr]
      | some r =>
        rw [result?_eq_some_iff.1 hr]
        cases hused : r.isUsed <;> simp [usedIds, Arg.result?, hused]
  exact hperm.nodup_iff.mpr (hvalid.nodup.sublist hsub)

/-! ## The last index -/

/-- A running maximum that stays within a bound reaches it in some step. -/
lemma foldl_max_eq_iff {l : List ℕ} {n : ℕ} (hl : ∀ i ∈ l, i + 1 ≤ n) {m : ℕ} (hm : m ≤ n) :
    l.foldl (fun n i => max n (i + 1)) m = n ↔ m = n ∨ ∃ i ∈ l, i + 1 = n := by
  induction l generalizing m with
  | nil => simp
  | cons i l ih =>
    rw [forall_mem_cons] at hl
    have hmax : max m (i + 1) = n ↔ m = n ∨ i + 1 = n := by omega
    rw [foldl_cons, ih hl.2 (by omega), exists_mem_cons_iff, hmax, or_assoc]

/-- An index is read where a reference to its result is written. -/
lemma mem_refIdxs {done : List ArgId} {calls : List Call} {i : ℕ} :
    i ∈ refIdxs done calls ↔ ∃ pre c post, calls = pre ++ c :: post ∧
      ∃ id ∈ refs c.writtenResults, copyoutIdx (done ++ pre.flatMap Call.usedIds) id = i := by
  induction calls generalizing done with
  | nil => simp [refIdxs]
  | cons c calls ih =>
    rw [refIdxs, mem_append, ih]
    constructor
    · rintro (h | ⟨pre, c', post, rfl, id, hid, hi⟩)
      · obtain ⟨id, hid, hi⟩ := mem_map.mp h
        exact ⟨[], c, calls, rfl, id, hid, by simpa using hi⟩
      · exact ⟨c :: pre, c', post, rfl, id, hid, by simpa using hi⟩
    · rintro ⟨pre, c', post, hsplit, id, hid, hi⟩
      cases pre with
      | nil =>
        obtain ⟨rfl, rfl⟩ : c = c' ∧ calls = post := by simpa using hsplit
        exact .inl (mem_map.mpr ⟨id, hid, by simpa using hi⟩)
      | cons c'' pre =>
        obtain ⟨rfl, rfl⟩ : c = c'' ∧ calls = pre ++ c' :: post := by simpa using hsplit
        exact .inr ⟨pre, c', post, rfl, id, hid, by simpa using hi⟩

section Last

variable {calls pre post : List Call} {c : Call} (hvalid : ValidOrder (calls.flatMap Call.nodes))
  (hcalls : calls = pre ++ c :: post) {u : ResultArg} (hu : u ∈ c.writtenResults) {id : ArgId}
  (hres : u.res = some id)

include hvalid hcalls hu hres

lemma exists_used_of_written (hin : id ∉ pre.flatMap Call.usedIds) :
    ∃ r ∈ c.usedResults, r.id = id := by
  obtain ⟨r, hr, hused, hmem⟩ :=
    exists_target_of_mem_argNodes hvalid hcalls (mem_argNodes_of_written hu) hres
  rcases hmem with hpre | hargs
  · obtain ⟨c', hc', hnode⟩ := mem_flatMap.mp hpre
    refine absurd ?_ hin
    rw [← map_id_flatMap_usedResults, ← hr]
    exact mem_map_of_mem (mem_flatMap.mpr ⟨c', hc', mem_usedResults.2 ⟨hnode, hused⟩⟩)
  · exact ⟨r, mem_usedResults.2 ⟨mem_append_left _ hargs, hused⟩, hr⟩

/-- A written index is one of those that are given out. -/
lemma copyoutIdx_lt_of_written :
    copyoutIdx (pre.flatMap Call.usedIds) id + 1 ≤ (calls.flatMap Call.usedIds).length := by
  have hlen : (calls.flatMap Call.usedIds).length =
      (pre.flatMap Call.usedIds).length + (c.usedIds.length + (post.flatMap Call.usedIds).length) := by
    rw [hcalls, flatMap_append, flatMap_cons, length_append, length_append]
  by_cases hin : id ∈ pre.flatMap Call.usedIds
  · have hlt := idxOf_lt_length_iff.mpr hin
    rw [copyoutIdx, if_pos hin, hlen]
    omega
  · -- the result is one of the call, whose index is at least the zero that is written
    obtain ⟨r, hc, -⟩ := exists_used_of_written hvalid hcalls hu hres hin
    have hpos : 0 < c.usedIds.length := by
      rw [← map_id_usedResults, length_map]
      exact length_pos_of_mem hc
    rw [copyoutIdx_of_notMem hin, hlen]
    omega

/-- When the last index is written for a reference: it refers to the last used result, and either
that is one of an earlier call or the zero written instead happens to be its index. -/
lemma copyoutIdx_eq_last_iff {r : ResultArg}
    (hlast : (calls.flatMap Call.usedResults).getLast? = some r) :
    copyoutIdx (pre.flatMap Call.usedIds) id + 1 = (calls.flatMap Call.usedIds).length ↔
      id = r.id ∧ (r ∉ c.usedResults ∨ (calls.flatMap Call.usedResults).length = 1) := by
  have hnodup := nodup_usedIds hvalid
  have hids := map_id_flatMap_usedResults calls
  have hlen : (calls.flatMap Call.usedResults).length = (calls.flatMap Call.usedIds).length := by
    rw [← hids, length_map]
  obtain ⟨init, hinit⟩ := getLast?_eq_some_iff.mp hlast
  by_cases hin : id ∈ pre.flatMap Call.usedIds
  · -- an earlier result: its index is its position among all used results
    have hpos : copyoutIdx (pre.flatMap Call.usedIds) id = (calls.flatMap Call.usedIds).idxOf id := by
      rw [copyoutIdx, if_pos hin, hcalls, flatMap_append, idxOf_append_of_mem hin]
    have hlater : id = r.id → r ∉ c.usedResults := by
      intro hid hr
      rw [hcalls, flatMap_append, flatMap_cons, nodup_append] at hnodup
      refine hnodup.2.2 id hin id (mem_append_left _ ?_) rfl
      rw [← map_id_usedResults, hid]
      exact mem_map_of_mem hr
    have hmem : id ∈ calls.flatMap Call.usedIds := by
      rw [hcalls, flatMap_append]
      exact mem_append_left _ hin
    rw [hpos]
    rw [← hids, hinit, map_append, map_singleton] at hnodup hmem ⊢
    rw [nodup_append] at hnodup
    have hnew : r.id ∉ init.map (·.id) := fun h => hnodup.2.2 _ h _ (mem_singleton_self _) rfl
    constructor
    · intro hidx
      have hnot : id ∉ init.map (·.id) := by
        intro hinitMem
        have hlt := idxOf_lt_length_iff.mpr hinitMem
        rw [idxOf_append_of_mem hinitMem, length_append, length_singleton] at hidx
        omega
      have hid : id = r.id := by
        rw [mem_append, mem_singleton] at hmem
        exact hmem.resolve_left hnot
      exact ⟨hid, .inl (hlater hid)⟩
    · rintro ⟨rfl, -⟩
      rw [idxOf_append_of_notMem hnew, length_append]
      simp
  · -- a result of the call itself: zero is written
    obtain ⟨r', hc, hr'⟩ := exists_used_of_written hvalid hcalls hu hres hin
    have hmem : r' ∈ calls.flatMap usedResults := mem_flatMap.mpr ⟨c, by simp [hcalls], hc⟩
    have hmemLast : r ∈ calls.flatMap usedResults := mem_of_getLast? hlast
    rw [copyoutIdx_of_notMem hin, Nat.zero_add, ← hlen]
    constructor
    · intro hone
      obtain ⟨a, ha⟩ := length_eq_one_iff.mp hone.symm
      rw [ha, mem_singleton] at hmem hmemLast
      exact ⟨by rw [← hr', hmem, hmemLast], .inr hone.symm⟩
    · rintro ⟨hid, hcase⟩
      rcases hcase with hr | hone
      · have hsame : r' = r := by
          rw [← hids] at hnodup
          exact inj_on_of_nodup_map hnodup hmem hmemLast (hr'.trans hid)
        exact absurd (hsame ▸ hc) hr
      · exact hone.symm

end Last

/-- The results of a program that get an index, in the order of their indices. -/
def Prog.usedResults (p : Prog) : List ResultArg := p.calls.flatMap Call.usedResults

/-- The executor needs the value of the last result for some call: one after the call of the
result, or any call when there is no other result. -/
def Prog.LastResultRead (p : Prog) : Prop :=
  ∀ r, p.usedResults.getLast? = some r → ∃ c ∈ p.calls, ∃ u ∈ c.writtenResults,
    u.res = some r.id ∧ (r ∉ c.usedResults ∨ p.usedResults.length = 1)

lemma refIdxs_le {p : Prog} (hvalid : ValidOrder (p.calls.flatMap Call.nodes)) :
    ∀ i ∈ refIdxs [] p.calls, i + 1 ≤ (p.calls.flatMap Call.usedIds).length := by
  intro i hi
  obtain ⟨pre, c, post, hcalls, id, hid, rfl⟩ := mem_refIdxs.1 hi
  obtain ⟨u, hu, hres⟩ := mem_filterMap.mp hid
  exact copyoutIdx_lt_of_written hvalid hcalls hu hres

/-- The largest index that is read is the last one if the last result is read. -/
lemma foldl_refIdxs_eq_iff {p : Prog} (hvalid : ValidOrder (p.calls.flatMap nodes)) :
    (refIdxs [] p.calls).foldl (fun n i => max n (i + 1)) 0 =
      (p.calls.flatMap Call.usedIds).length ↔ p.LastResultRead := by
  rw [foldl_max_eq_iff (refIdxs_le hvalid) (Nat.zero_le _), ← map_id_flatMap_usedResults,
    length_map]
  constructor
  · intro h r hlast
    have hpos : 0 < (p.calls.flatMap usedResults).length :=
      length_pos_of_mem (mem_of_getLast? hlast)
    obtain ⟨i, hi, hidx⟩ := h.resolve_left (by omega)
    obtain ⟨pre, c, post, hcalls, id, hid, rfl⟩ := mem_refIdxs.1 hi
    obtain ⟨u, hu, hres⟩ := mem_filterMap.mp hid
    rw [← length_map, map_id_flatMap_usedResults] at hidx
    obtain ⟨rfl, hcase⟩ := (copyoutIdx_eq_last_iff hvalid hcalls hu hres hlast).mp hidx
    exact ⟨c, by simp [hcalls], u, hu, hres, hcase⟩
  · intro h
    cases hlast : (p.calls.flatMap usedResults).getLast? with
    | none =>
      rw [getLast?_eq_none_iff] at hlast
      exact .inl (by simp [hlast])
    | some r =>
      obtain ⟨c, hc, u, hu, hres, hcase⟩ := h r hlast
      obtain ⟨pre, post, hcalls⟩ := append_of_mem hc
      have hidx := (copyoutIdx_eq_last_iff hvalid hcalls hu hres hlast).mpr ⟨rfl, hcase⟩
      rw [← map_id_flatMap_usedResults p.calls, length_map] at hidx
      exact .inr ⟨_, mem_refIdxs.2 ⟨pre, c, post, hcalls, r.id,
        mem_filterMap.mpr ⟨u, hu, hres⟩, rfl⟩, hidx⟩

end KConfuzz
