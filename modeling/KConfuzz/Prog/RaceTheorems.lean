import Mathlib.Data.Finset.Max
import Mathlib.Order.Interval.Finset.Nat
import KConfuzz.Prog.CollideTheorems

/-!
# Asynchronous calls and calls that run again

`AssignRandomAsync` goes through the calls from the last to the first. The calls that it makes
asynchronous are a set in which no call feeds one that may start before it is done
(`CanBeAsync`), and every such set can come up. When the budget is used up, the calls that are
left keep their `Async`. So `AsyncSafe` says exactly when the result is as it should be, and
`RaceSafe` when the transformations that build on it give valid programs.
-/

namespace KConfuzz

open Lib.ExceptFold List
open Lib.LinkGraph

/-! ## Sets of asynchronous calls -/

/-- The call produces a resource that the other one uses, in whatever argument. -/
def Call.UsedBy (c c' : Call) : Prop :=
  ∃ r ∈ results [c], r.dir ≠ .dirIn ∧ ∃ a ∈ results [c'], a.res = some r.id

/-- The test of `AssignRandomAsync`: the other call uses a resource of the call in an argument that
is not an output. -/
def Call.Feeds (c c' : Call) : Prop :=
  ∃ r ∈ results [c], r.dir ≠ .dirIn ∧ ∃ a ∈ results [c'], a.dir ≠ .dirOut ∧ a.res = some r.id

/-- The `i`-th call feeds none of the calls after it, up to the first one that is not in the
set. -/
def Unfed (calls : List Call) (s : Finset ℕ) (i : ℕ) : Prop :=
  ∀ m c c', i < m → (∀ j, i < j → j < m → j ∈ s) → calls[i]? = some c → calls[m]? = some c' →
    ¬ c.Feeds c'

/-- The calls that can be asynchronous together; the last call never is. -/
def CanBeAsync (calls : List Call) (s : Finset ℕ) : Prop :=
  ∀ i ∈ s, i + 1 < calls.length ∧ Unfed calls s i

variable {calls : List Call} {s t : Finset ℕ} {i : ℕ}

lemma unfed_congr (h : ∀ j, i < j → (j ∈ s ↔ j ∈ t)) : Unfed calls s i ↔ Unfed calls t i := by
  have hrun : ∀ m, (∀ j, i < j → j < m → j ∈ s) ↔ ∀ j, i < j → j < m → j ∈ t := by
    intro m
    exact forall_congr' fun j => forall_congr' fun hj => by rw [h j hj]
  simp only [Unfed, hrun]

variable {c : Call} {c' : Call}

lemma mem_visitedResults_iff {r : ResultArg} : r ∈ c.visitedResults ↔ r ∈ results [c] := by
  have hvisited : c.visitedResults = c.cloneOrder := by
    rw [Call.cloneOrder, ← map_fst_foreachArg, filterMap_map]
    rfl
  rw [hvisited, ← mem_cloneOrder_iff, flatMap_singleton]

/-! ## The state of the loop -/

/-- The call uses the result. -/
def Consumed (calls : List Call) (m : ℕ) (id : ArgId) : Prop :=
  ∃ c, calls[m]? = some c ∧ ∃ a ∈ results [c], a.dir ≠ .dirOut ∧ a.res = some id

/-- What `unassigned` holds when the calls from the `k`-th on are done and `s` are the ones among
them that became asynchronous. -/
def UnassignedAt (calls : List Call) (s : Finset ℕ) (k : ℕ) :
    Option (List (Option ArgId)) → Prop
  | none => k = calls.length
  | some l => k < calls.length ∧ ∀ id, some id ∈ l ↔
    ∃ m, k ≤ m ∧ (∀ j, k ≤ j → j < m → j ∈ s) ∧ Consumed calls m id

section

variable (hc : calls[i]? = some c)

include hc

lemma mem_consumes_iff {id : ArgId} : some id ∈ consumes c ↔ Consumed calls i id := by
  simp only [consumes, mem_map, mem_filter, mem_visitedResults_iff, decide_eq_true_eq,
    Consumed, hc, Option.some.injEq, exists_eq_left', and_assoc]

/-- A call may become asynchronous when no call that may start before it is done uses its
results. -/
lemma producesUnassigned_eq_false_iff {unassigned : Option (List (Option ArgId))}
    (hstate : UnassignedAt calls s (i + 1) unassigned) :
    producesUnassigned unassigned c = false ↔ Unfed calls s i := by
  cases unassigned with
  | none =>
    -- there is no call after this one
    have hlast : ∀ m, i < m → calls[m]? = none := by
      intro m hm
      rw [getElem?_eq_none_iff]
      simp only [UnassignedAt] at hstate
      omega
    constructor
    · intro _ m c₁ c₂ hm _ _ hc₂
      rw [hlast m hm] at hc₂
      cases hc₂
    · simp [producesUnassigned]
  | some l =>
    have hmem := hstate.2
    have hany : producesUnassigned (some l) c = true ↔
        ∃ r ∈ results [c], r.dir ≠ .dirIn ∧ some r.id ∈ l := by
      simp only [producesUnassigned, any_eq_true, mem_visitedResults_iff, Option.getD_some,
        Bool.and_eq_true, decide_eq_true_eq, contains_iff_mem]
    rw [← Bool.not_eq_true, hany]
    constructor
    · intro hnot m c₁ c' hm hrun hc₁ hc' hfeeds
      rw [hc, Option.some.injEq] at hc₁
      subst hc₁
      obtain ⟨r, hr, hdir, a, ha, hadir, hares⟩ := hfeeds
      exact hnot ⟨r, hr, hdir, (hmem r.id).mpr ⟨m, hm, hrun, c', hc', a, ha, hadir, hares⟩⟩
    · rintro hunfed ⟨r, hr, hdir, hin⟩
      obtain ⟨m, hm, hrun, c', hc', a, ha, hadir, hares⟩ := (hmem r.id).mp hin
      exact hunfed m c c' hm hrun hc hc' ⟨r, hr, hdir, a, ha, hadir, hares⟩

omit hc in
/-- A run of asynchronous calls ends where it starts, or starts with one. -/
lemma exists_run_iff {P : ℕ → Prop} :
    (∃ m, i ≤ m ∧ (∀ j, i ≤ j → j < m → j ∈ s) ∧ P m) ↔
      P i ∨ i ∈ s ∧ ∃ m, i + 1 ≤ m ∧ (∀ j, i + 1 ≤ j → j < m → j ∈ s) ∧ P m := by
  constructor
  · rintro ⟨m, hm, hrun, hP⟩
    rcases Nat.eq_or_lt_of_le hm with rfl | hm
    · exact .inl hP
    · exact .inr ⟨hrun i le_rfl hm, m, hm, fun j hj => hrun j (by omega), hP⟩
  · rintro (hP | ⟨hi, m, hm, hrun, hP⟩)
    · exact ⟨i, le_rfl, fun j hj hji => by omega, hP⟩
    · refine ⟨m, by omega, fun j hj hjm => ?_, hP⟩
      rcases Nat.eq_or_lt_of_le hj with rfl | hj
      · exact hi
      · exact hrun j hj hjm

lemma unassignedAt_async {l : List (Option ArgId)}
    (hstate : UnassignedAt calls s (i + 1) (some l)) :
    UnassignedAt calls (insert i s) i (some (l ++ consumes c)) := by
  refine ⟨(List.getElem?_eq_some_iff.mp hc).1, fun id => ?_⟩
  have hinsert : ∀ j, i + 1 ≤ j → (j ∈ insert i s ↔ j ∈ s) := fun j hj => by
    rw [Finset.mem_insert, or_iff_right (by omega)]
  rw [mem_append, hstate.2, mem_consumes_iff hc, @exists_run_iff (insert i s), or_comm,
    and_iff_right (Finset.mem_insert_self i s)]
  simp +contextual only [hinsert]

lemma unassignedAt_sync (hi : i ∉ s) : UnassignedAt calls s i (some (consumes c)) := by
  refine ⟨(List.getElem?_eq_some_iff.mp hc).1, fun id => ?_⟩
  rw [mem_consumes_iff hc, exists_run_iff, or_iff_left fun h => hi h.1]

end

/-! ## The run of the loop -/

/-- The `Async` of a call after the loop, when `s` are the calls that it made asynchronous. -/
def asyncFlag (calls : List Call) (s : Finset ℕ) (i : ℕ) : Bool :=
  if (s.filter (i < ·)).card < maxAsyncPerProg then decide (i ∈ s)
  else (calls[i]?.map (·.props.async)).getD false

local instance neZero_three : NeZero 3 := ⟨by decide⟩

/-- The set of the calls that the loop makes asynchronous, from those after it for every call. -/
def IsAsyncSet (intn3 : ℕ → Fin 3) (calls : List Call) (s : Finset ℕ) (i : ℕ) : Prop :=
  i ∈ s ↔ (s.filter (i < ·)).card < maxAsyncPerProg ∧ i + 1 < calls.length ∧ intn3 i ≠ 0 ∧
    Unfed calls s i

lemma reverse_zipIdx_take_succ {k : ℕ} (hc : calls[k]? = some c) :
    (calls.take (k + 1)).zipIdx.reverse = (c, k) :: (calls.take k).zipIdx.reverse := by
  have hk := (List.getElem?_eq_some_iff.mp hc).1
  rw [take_add_one, hc, Option.toList_some, zipIdx_append, reverse_append,
    length_take, Nat.min_eq_left (Nat.le_of_lt hk)]
  simp

lemma map_async_reverse_zipIdx {k : ℕ} (hk : k ≤ calls.length) :
    (calls.take k).zipIdx.reverse.map (·.1.props.async) =
      ((List.range k).map fun i => (calls[i]?.map (·.props.async)).getD false).reverse := by
  induction k with
  | zero => rfl
  | succ k ih =>
    have hc : calls[k]? = some calls[k] := getElem?_eq_getElem hk
    rw [reverse_zipIdx_take_succ hc, map_cons, ih (by omega), range_succ,
      map_append, reverse_append, map_singleton, reverse_singleton, hc]
    rfl

section Run

variable (intn3 : ℕ → Fin 3) {k : ℕ}

/-- When the budget is used up, the calls that are left keep their `Async`. -/
lemma isAsyncSet_of_full (hk : k ≤ calls.length) (hs : ∀ i ∈ s, k ≤ i)
    (hfull : s.card = maxAsyncPerProg) :
    (∀ i < k, IsAsyncSet intn3 calls s i) ∧ (calls.take k).zipIdx.reverse.map (·.1.props.async) =
      ((List.range k).map (asyncFlag calls s)).reverse := by
  have hcard : ∀ i < k, ¬ (s.filter (i < ·)).card < maxAsyncPerProg := by
    intro i hi
    rw [Finset.filter_eq_self.mpr fun j hj => hi.trans_le (hs j hj)]
    omega
  constructor
  · intro i hi
    exact iff_of_false (fun hmem => absurd (hs i hmem) (by omega)) fun h => hcard i hi h.1
  · rw [map_async_reverse_zipIdx hk]
    congr 1
    refine map_congr_left fun i hi => ?_
    rw [asyncFlag, if_neg (hcard i (mem_range.mp hi))]

/-- The decision about the `k`-th call, after which `t` comes out. -/
lemma isAsyncSet_succ (hs : ∀ i ∈ s, k < i) (hroom : s.card < maxAsyncPerProg)
    (ht : ∀ i, k < i → (i ∈ t ↔ i ∈ s))
    (hkt : k ∈ t ↔ k + 1 < calls.length ∧ intn3 k ≠ 0 ∧ Unfed calls s k)
    (hsets : ∀ i < k, IsAsyncSet intn3 calls t i) :
    (∀ i < k + 1, IsAsyncSet intn3 calls t i) ∧
      ((List.range (k + 1)).map (asyncFlag calls t)).reverse =
        decide (k ∈ t) :: ((List.range k).map (asyncFlag calls t)).reverse := by
  have heq : t.filter (k < ·) = s := by
    ext i
    rw [Finset.mem_filter]
    exact ⟨fun hi => (ht i hi.2).mp hi.1, fun hi => ⟨(ht i (hs i hi)).mpr hi, hs i hi⟩⟩
  rw [← heq] at hroom
  refine ⟨fun i hi => ?_, ?_⟩
  · rcases Nat.lt_succ_iff_lt_or_eq.mp hi with hi | rfl
    · exact hsets i hi
    · rw [IsAsyncSet, unfed_congr ht, and_iff_right hroom]
      exact hkt
  · rw [range_succ, map_append, reverse_append, map_singleton, reverse_singleton,
      singleton_append, asyncFlag, if_pos hroom]

/-- The condition under which the loop makes the `k`-th call asynchronous. -/
lemma becomesAsync_iff (hc : calls[k]? = some c) {unassigned : Option (List (Option ArgId))}
    (hstate : UnassignedAt calls s (k + 1) unassigned) :
    (!producesUnassigned unassigned c && decide (k + 1 ≠ calls.length) &&
      decide (intn3 k ≠ 0)) = true ↔ k + 1 < calls.length ∧ intn3 k ≠ 0 ∧ Unfed calls s k := by
  have hlt := (List.getElem?_eq_some_iff.mp hc).1
  simp only [Bool.and_eq_true, Bool.not_eq_true', decide_eq_true_eq,
    producesUnassigned_eq_false_iff hc hstate]
  exact ⟨fun h => ⟨by omega, h.2, h.1.1⟩, fun h => ⟨⟨h.2.2, by omega⟩, h.2.1⟩⟩

/-- The loop from the `k`-th call down, when `s` are the calls behind it that became asynchronous:
the set `t` that comes out satisfies the rule for every call, and gives the flags. -/
lemma assignAsyncLoop_run (hk : k ≤ calls.length) (hs : ∀ i ∈ s, k ≤ i)
    {unassigned : Option (List (Option ArgId))} (hstate : UnassignedAt calls s k unassigned)
    {left : ℕ} (hleft : left + s.card = maxAsyncPerProg) :
    ∃ t, (∀ i, k ≤ i → (i ∈ t ↔ i ∈ s)) ∧ (∀ i < k, IsAsyncSet intn3 calls t i) ∧
      assignAsyncLoop intn3 calls.length unassigned left (calls.take k).zipIdx.reverse =
        .ok ((List.range k).map (asyncFlag calls t)).reverse := by
  induction k generalizing s unassigned left with
  | zero =>
    refine ⟨s, fun i _ => Iff.rfl, fun i hi => by omega, ?_⟩
    cases left <;> rfl
  | succ k ih =>
    have hc : calls[k]? = some calls[k] := getElem?_eq_getElem hk
    have hks : k ∉ s := fun h => absurd (hs k h) (by omega)
    cases left with
    | zero =>
      obtain ⟨hsets, hflags⟩ := isAsyncSet_of_full intn3 hk hs (by omega)
      exact ⟨s, fun i _ => Iff.rfl, hsets, by rw [assignAsyncLoop, hflags]⟩
    | succ left =>
      have hcond := becomesAsync_iff intn3 hc hstate
      rw [reverse_zipIdx_take_succ hc, assignAsyncLoop]
      split_ifs with hasync
      · have hall := hcond.mp hasync
        obtain ⟨l, rfl⟩ : ∃ l, unassigned = some l := by
          cases unassigned with
          | none => exact absurd hstate (Nat.ne_of_lt hall.1)
          | some l => exact ⟨l, rfl⟩
        obtain ⟨t, ht, hsets, hrun⟩ := @ih (insert k s) (by omega)
          (Finset.forall_mem_insert _ _ _ |>.mpr ⟨le_rfl, fun i hi => Nat.le_of_lt (hs i hi)⟩)
          _ (unassignedAt_async hc hstate) left
          (by rw [Finset.card_insert_of_notMem hks]; omega)
        have hkt : k ∈ t := (ht k le_rfl).mpr (Finset.mem_insert_self k s)
        have ht' : ∀ i, k < i → (i ∈ t ↔ i ∈ s) := fun i hi => by
          rw [ht i (by omega), Finset.mem_insert, or_iff_right (by omega)]
        obtain ⟨hsets', hrange⟩ := isAsyncSet_succ intn3 hs (by omega) ht'
          (iff_of_true hkt hall) hsets
        refine ⟨t, ht', hsets', ?_⟩
        rw [hrange]
        simp only [addUnassigned, bind, Except.bind, hrun, hkt, decide_true]
        rfl
      · obtain ⟨t, ht, hsets, hrun⟩ := @ih s (by omega) (fun i hi => Nat.le_of_lt (hs i hi))
          _ (unassignedAt_sync hc hks) (left + 1) hleft
        have hkt : k ∉ t := fun h => hks ((ht k le_rfl).mp h)
        have ht' : ∀ i, k < i → (i ∈ t ↔ i ∈ s) := fun i hi => ht i (by omega)
        obtain ⟨hsets', hrange⟩ := isAsyncSet_succ intn3 hs (by omega) ht'
          (iff_of_false hkt (mt hcond.mpr hasync)) hsets
        refine ⟨t, ht', hsets', ?_⟩
        rw [hrange]
        simp only [bind, Except.bind, hrun, hkt, decide_false]
        rfl

end Run

/-- The calls that become asynchronous can be asynchronous together, and there are not too many of
them. -/
lemma canBeAsync_of_isAsyncSet {intn3 : ℕ → Fin 3} (hout : ∀ i, calls.length ≤ i → i ∉ t)
    (hsets : ∀ i < calls.length, IsAsyncSet intn3 calls t i) :
    CanBeAsync calls t ∧ t.card ≤ maxAsyncPerProg := by
  have hlt : ∀ i ∈ t, i < calls.length := by
    intro i hi
    by_contra h
    exact hout i (by omega) hi
  constructor
  · intro i hi
    obtain ⟨-, hlast, -, hunfed⟩ := (hsets i (hlt i hi)).mp hi
    exact ⟨hlast, hunfed⟩
  · rcases t.eq_empty_or_nonempty with rfl | hne
    · exact Nat.zero_le _
    · -- all calls of the set but the first one come before it in the loop
      have hmin := t.min'_mem hne
      have hcard := ((hsets _ (hlt _ hmin)).mp hmin).1
      have hfilter : t.filter (t.min' hne < ·) = t.erase (t.min' hne) := by
        ext i
        rw [Finset.mem_filter, Finset.mem_erase]
        constructor
        · rintro ⟨hi, hlt⟩
          exact ⟨by omega, hi⟩
        · rintro ⟨hi, hit⟩
          exact ⟨hit, lt_of_le_of_ne (t.min'_le i hit) (Ne.symm hi)⟩
      rw [hfilter, Finset.card_erase_of_mem hmin] at hcard
      omega

lemma card_filter_lt (h : i ∈ s) : (s.filter (i < ·)).card < s.card :=
  Finset.card_lt_card (Finset.filter_ssubset.mpr ⟨i, h, lt_irrefl i⟩)

/-- Any set of calls that can be asynchronous together comes up. -/
lemma eq_of_isAsyncSet (hs : CanBeAsync calls s) (hcard : s.card ≤ maxAsyncPerProg)
    (hout : ∀ i, calls.length ≤ i → i ∉ t)
    (hsets : ∀ i < calls.length, IsAsyncSet (fun i => if i ∈ s then 1 else 0) calls t i) :
    t = s := by
  have hend : ∀ i, calls.length ≤ i → (i ∈ t ↔ i ∈ s) := by
    intro i hi
    refine ⟨fun h => absurd h (hout i hi), fun h => ?_⟩
    have := (hs i h).1
    omega
  -- by induction from the last call to the first
  have hdown : ∀ n i, calls.length ≤ i + n → (i ∈ t ↔ i ∈ s) := by
    intro n
    induction n with
    | zero => exact hend
    | succ n ih =>
      intro i hi
      rcases Nat.lt_or_ge i calls.length with hlt | hge
      · have hafter : ∀ j, i < j → (j ∈ t ↔ j ∈ s) := fun j hj => ih j (by omega)
        have hfilter : t.filter (i < ·) = s.filter (i < ·) := by
          ext j
          rw [Finset.mem_filter, Finset.mem_filter]
          exact and_congr_left fun hj => hafter j hj
        have hset : i ∈ t ↔ _ := hsets i hlt
        rw [hset, hfilter, unfed_congr hafter]
        constructor
        · rintro ⟨-, -, hintn, -⟩
          by_contra hnot
          simp [hnot] at hintn
        · intro hmem
          obtain ⟨hlast, hunfed⟩ := hs i hmem
          refine ⟨?_, hlast, by simp [hmem], hunfed⟩
          exact (card_filter_lt hmem).trans_le hcard
      · exact hend i hge
  ext i
  exact hdown calls.length i (by omega)

/-- `AssignRandomAsync` after the clone. -/
lemma assignRandomAsync_eq (intn3 : ℕ → Fin 3) {p prog : Prog} (hclone : p.clone = .ok prog) :
    ∃ t p', CanBeAsync prog.calls t ∧ t.card ≤ maxAsyncPerProg ∧
      (∀ s, CanBeAsync prog.calls s → s.card ≤ maxAsyncPerProg →
        (intn3 = fun i => if i ∈ s then 1 else 0) → t = s) ∧
      assignRandomAsync intn3 p = .ok p' ∧ p'.target = prog.target ∧
      p'.calls = prog.calls.mapIdx fun i c => c.setAsync (asyncFlag prog.calls t i) := by
  obtain ⟨t, ht, hsets, hrun⟩ := @assignAsyncLoop_run prog.calls ∅ intn3 prog.calls.length
    (le_refl _) (by simp) none rfl maxAsyncPerProg (by simp)
  have hout : ∀ i, prog.calls.length ≤ i → i ∉ t := by
    intro i hi hmem
    exact absurd ((ht i hi).mp hmem) (Finset.notMem_empty i)
  rw [take_length] at hrun
  obtain ⟨hasync, hcard⟩ := canBeAsync_of_isAsyncSet hout hsets
  refine ⟨t, prog.mapCalls (fun i c => c.setAsync (asyncFlag prog.calls t i)) fun _ _ => rfl,
    hasync, hcard, ?_, ?_, rfl, rfl⟩
  · rintro s hs hscard rfl
    exact eq_of_isAsyncSet hs hscard hout hsets
  · simp only [assignRandomAsync, hclone, bind, Except.bind, hrun, reverse_reverse]
    congr 1
    unfold Prog.mapCalls
    congr 1
    refine ext_getElem (by simp) fun i hi _ => ?_
    rw [length_mapIdx] at hi
    simp [getElem?_range hi]

/-! ## Calls that run again -/

/-- A call runs again only next to an asynchronous one. -/
lemma assignRerunLoop_sound (intn4 : ℕ → Fin 4) (intn2 : ℕ → Fin 2) (i : ℕ) (calls : List Call)
    {j : ℕ} (hc' : (assignRerunLoop intn4 intn2 i calls)[j]? = some c') :
    ∃ c, calls[j]? = some c ∧ (c' = c ∨ (∃ rerun, c' = c.setRerun rerun) ∧
      ∃ m a b, calls[m]? = some a ∧ calls[m + 1]? = some b ∧ a.props.async = true ∧
        (j = m ∨ j = m + 1)) := by
  fun_induction assignRerunLoop intn4 intn2 i calls generalizing j with
  | case1 i call next calls hskip ih =>
    cases j with
    | zero =>
      rw [getElem?_cons_zero, Option.some.injEq] at hc'
      exact ⟨call, rfl, .inl hc'.symm⟩
    | succ j =>
      obtain ⟨c, hc, heq | ⟨hrerun, m, a, b, ha, hb, hasync, hj⟩⟩ := ih hc'
      · exact ⟨c, hc, .inl heq⟩
      · exact ⟨c, hc, .inr ⟨hrerun, m + 1, a, b, ha, hb, hasync, by omega⟩⟩
  | case2 i call next calls htake rerun =>
    rename_i ih
    have hasync : call.props.async = true := by
      simp only [Bool.or_eq_true, Bool.not_eq_true', not_or, Bool.not_eq_false] at htake
      exact htake.1
    rcases j with _ | _ | j
    · rw [getElem?_cons_zero, Option.some.injEq] at hc'
      exact ⟨call, rfl, .inr ⟨⟨rerun, hc'.symm⟩, 0, call, next, rfl, rfl, hasync, .inl rfl⟩⟩
    · rw [getElem?_cons_succ, getElem?_cons_zero, Option.some.injEq] at hc'
      exact ⟨next, rfl, .inr ⟨⟨rerun, hc'.symm⟩, 0, call, next, rfl, rfl, hasync, .inr rfl⟩⟩
    · obtain ⟨c, hc, heq | ⟨hrerun, m, a, b, ha, hb, hasync, hj⟩⟩ := ih hc'
      · exact ⟨c, hc, .inl heq⟩
      · exact ⟨c, hc, .inr ⟨hrerun, m + 2, a, b, ha, hb, hasync, by omega⟩⟩
  | case3 i calls h => exact ⟨c', hc', .inl rfl⟩

/-- Any two calls of which the first one is asynchronous may run again. -/
lemma assignRerunLoop_complete {i base : ℕ} {calls : List Call} {c c' : Call} (hbase : base ≤ i)
    (hc : calls[i - base]? = some c) (hc' : calls[i - base + 1]? = some c')
    (hasync : c.props.async = true) :
    (assignRerunLoop (fun j => if j = i then 0 else 1) (fun _ => 0) base calls)[i - base]? =
      some (c.setRerun 32) ∧
    (assignRerunLoop (fun j => if j = i then 0 else 1) (fun _ => 0) base calls)[i - base + 1]? =
      some (c'.setRerun 32) := by
  fun_induction assignRerunLoop (fun j => if j = i then 0 else 1) (fun _ => 0) base calls with
  | case1 base call next calls hskip ih =>
    have hlt : base < i := by
      rcases Nat.lt_or_eq_of_le hbase with hlt | rfl
      · exact hlt
      · rw [Nat.sub_self, getElem?_cons_zero, Option.some.injEq] at hc
        simp [hc, hasync] at hskip
    have hsub : i - base = i - (base + 1) + 1 := by omega
    rw [hsub, getElem?_cons_succ] at hc hc'
    rw [hsub, getElem?_cons_succ, getElem?_cons_succ]
    exact ih (by omega) hc hc'
  | case2 base call next calls htake rerun =>
    have heq : base = i := by
      by_contra hne
      simp [hne] at htake
    subst heq
    rw [Nat.sub_self] at hc hc' ⊢
    rw [getElem?_cons_zero, Option.some.injEq] at hc
    rw [getElem?_cons_succ, getElem?_cons_zero, Option.some.injEq] at hc'
    subst hc hc'
    exact ⟨rfl, rfl⟩
  | case3 base calls h =>
    -- two calls are left, so the loop is not at its end
    exfalso
    rcases calls with _ | ⟨a, _ | ⟨b, rest⟩⟩
    · simp at hc
    · simp at hc'
    · exact h a b rest rfl

/-! ## Clones -/

section Copies

variable {g : ResultArg → ResultArg} (hg : ∀ r, g r = { r with uses := (g r).uses })

include hg

omit hg in
lemma results_copy_singleton (c : Call) : results [c.copy id g] = (results [c]).map g :=
  results_copy id g [c]

lemma same_copy (r : ResultArg) : (g r).id = r.id ∧ (g r).res = r.res ∧ (g r).dir = r.dir := by
  rw [hg r]
  exact ⟨rfl, rfl, rfl⟩

lemma feeds_copy (c c' : Call) : (c.copy id g).Feeds (c'.copy id g) ↔ c.Feeds c' := by
  simp only [Call.Feeds, results_copy_singleton, mem_map, exists_exists_and_eq_and, same_copy hg]

lemma usedBy_copy (c c' : Call) : (c.copy id g).UsedBy (c'.copy id g) ↔ c.UsedBy c' := by
  simp only [Call.UsedBy, results_copy_singleton, mem_map, exists_exists_and_eq_and, same_copy hg]

lemma unfed_copy (calls : List Call) (s : Finset ℕ) (i : ℕ) :
    Unfed (calls.map (Call.copy id g)) s i ↔ Unfed calls s i := by
  simp only [Unfed, getElem?_map, Option.map_eq_some_iff]
  constructor
  · intro h m c c' hm hrun hc hc' hfeeds
    exact h m _ _ hm hrun ⟨c, hc, rfl⟩ ⟨c', hc', rfl⟩ ((feeds_copy hg c c').mpr hfeeds)
  · rintro h m _ _ hm hrun ⟨c, hc, rfl⟩ ⟨c', hc', rfl⟩ hfeeds
    exact h m c c' hm hrun hc hc' ((feeds_copy hg c c').mp hfeeds)

lemma canBeAsync_copy (calls : List Call) (s : Finset ℕ) :
    CanBeAsync (calls.map (Call.copy id g)) s ↔ CanBeAsync calls s := by
  simp only [CanBeAsync, length_map, unfed_copy hg]

end Copies

lemma asyncFlag_copy (g : ResultArg → ResultArg) (calls : List Call) (s : Finset ℕ) (i : ℕ) :
    asyncFlag (calls.map (Call.copy id g)) s i = asyncFlag calls s i := by
  rw [asyncFlag, asyncFlag, getElem?_map, Option.map_map]
  rfl

/-- `AssignRandomAsync` on a valid program that can be cloned: the calls are copies with the flags
of some set that can be asynchronous, and every such set comes up. -/
lemma assignRandomAsync_of_valid {desc : Call → Prop} (hdesc : IsDescCheck desc) {p : Prog}
    (hvalid : Valid desc p) (hself : ∀ r ∈ results p.calls, r.res ≠ some r.id)
    (intn3 : ℕ → Fin 3) :
    ∃ g t p', (∀ r : ResultArg, g r = { r with uses := (g r).uses }) ∧ CanBeAsync p.calls t ∧
      t.card ≤ maxAsyncPerProg ∧
      (∀ s, CanBeAsync p.calls s → s.card ≤ maxAsyncPerProg →
        (intn3 = fun i => if i ∈ s then 1 else 0) → t = s) ∧
      assignRandomAsync intn3 p = .ok p' ∧ Valid desc p' ∧
      p'.calls = p.calls.mapIdx fun i c => (c.copy id g).setAsync (asyncFlag p.calls t i) := by
  obtain ⟨prog, g, hclone, hcalls, hg, hvalid'⟩ := clone_of_valid hdesc hvalid hself
  obtain ⟨t, p', ht, hcard, hset, hok, htarget, hcalls'⟩ := assignRandomAsync_eq intn3 hclone
  simp only [hcalls, canBeAsync_copy hg, asyncFlag_copy] at ht hset hcalls'
  refine ⟨g, t, p', hg, ht, hcard, hset, hok, ?_, ?_⟩
  · refine valid_of_async hdesc hvalid' htarget ?_
    rw [SameButAsync, hcalls, hcalls', forall₂_iff_get]
    refine ⟨by simp, fun i h₁ h₂ => ?_⟩
    simp only [get_eq_getElem, getElem_mapIdx]
    exact ⟨_, rfl⟩
  · rw [hcalls']
    exact ext_getElem (by simp) fun i _ _ => by simp

/-! ## Distances -/

/-- Not too many calls are asynchronous, the last one is not, and there is one that is not strictly
between an asynchronous call and a later one that uses a resource of it. -/
structure Spaced (p : Prog) : Prop where
  count : (p.calls.filter (·.props.async)).length ≤ maxAsyncPerProg
  last : ∀ c ∈ p.calls.getLast?, c.props.async = false
  distance : ∀ (i j : ℕ) (c c' : Call), i < j → p.calls[i]? = some c → p.calls[j]? = some c' →
    c.props.async = true → c.UsedBy c' →
    ∃ (k : ℕ) (d : Call), i < k ∧ k < j ∧ p.calls[k]? = some d ∧ d.props.async = false

/-- The same of flags for the calls. -/
structure FlagsSpaced (calls : List Call) (flag : ℕ → Bool) : Prop where
  count : ((List.range calls.length).filter flag).length ≤ maxAsyncPerProg
  last : ∀ i, i + 1 = calls.length → flag i = false
  distance : ∀ (i j : ℕ) (c c' : Call), i < j → calls[i]? = some c → calls[j]? = some c' →
    flag i = true → c.UsedBy c' → ∃ k, i < k ∧ k < j ∧ flag k = false

/-- Spacing depends on the flags only. -/
lemma spaced_iff {p : Prog} {flag : ℕ → Bool} {g : ResultArg → ResultArg}
    (hg : ∀ r, g r = { r with uses := (g r).uses })
    (hcalls : p.calls = calls.mapIdx fun i c => (c.copy id g).setAsync (flag i)) :
    Spaced p ↔ FlagsSpaced calls flag := by
  have hget : ∀ {i : ℕ} {c : Call}, p.calls[i]? = some c ↔
      ∃ c₀, calls[i]? = some c₀ ∧ (c₀.copy id g).setAsync (flag i) = c := by
    intro i c
    rw [hcalls, getElem?_mapIdx, Option.map_eq_some_iff]
  have hlength : p.calls.length = calls.length := by rw [hcalls, length_mapIdx]
  have hcount : (p.calls.filter (·.props.async)).length =
      ((List.range calls.length).filter flag).length := by
    rw [hcalls, mapIdx_eq_zipIdx_map, range_eq_range', ← zipIdx_map_snd, filter_map, filter_map,
      length_map, length_map]
    rfl
  constructor
  · intro h
    refine ⟨hcount ▸ h.count, fun i hi => ?_, fun i j c c' hij hc hc' hflag huses => ?_⟩
    · have hlt : i < calls.length := by omega
      refine h.last ((calls[i].copy id g).setAsync (flag i)) ?_
      rw [getLast?_eq_getElem?, hlength, ← hi, Nat.add_sub_cancel]
      exact hget.mpr ⟨_, getElem?_eq_getElem hlt, rfl⟩
    · obtain ⟨k, d, hik, hkj, hd, hsync⟩ := h.distance i j _ _ hij (hget.mpr ⟨c, hc, rfl⟩)
        (hget.mpr ⟨c', hc', rfl⟩) hflag ((usedBy_copy hg c c').mpr huses)
      obtain ⟨d₀, -, rfl⟩ := hget.mp hd
      exact ⟨k, hik, hkj, hsync⟩
  · intro h
    refine ⟨hcount ▸ h.count, fun c hc => ?_, fun i j c c' hij hc hc' hflag huses => ?_⟩
    · rw [getLast?_eq_getElem?] at hc
      obtain ⟨c₀, hc₀, rfl⟩ := hget.mp hc
      have hlt := (List.getElem?_eq_some_iff.mp hc₀).1
      exact h.last _ (by omega)
    · obtain ⟨c₀, hc₀, rfl⟩ := hget.mp hc
      obtain ⟨c₁, hc₁, rfl⟩ := hget.mp hc'
      obtain ⟨k, hik, hkj, hsync⟩ :=
        h.distance i j c₀ c₁ hij hc₀ hc₁ hflag ((usedBy_copy hg c₀ c₁).mp huses)
      have hlt : k < calls.length := hkj.trans (List.getElem?_eq_some_iff.mp hc₁).1
      exact ⟨k, _, hik, hkj, hget.mpr ⟨_, getElem?_eq_getElem hlt, rfl⟩, hsync⟩

/-- What `AssignRandomAsync` cannot cope with is not there: an argument that refers to itself, an
asynchronous call in front of calls that can use up the budget, and a call whose resource is used
in an output by a call that can follow it at once. -/
structure AsyncSafe (p : Prog) : Prop where
  self : ∀ r ∈ results p.calls, r.res ≠ some r.id
  budget : ∀ s : Finset ℕ, s.card = maxAsyncPerProg → CanBeAsync p.calls s →
    ∀ i c, p.calls[i]? = some c → (∀ k ∈ s, i < k) → c.props.async = false
  outputs : ∀ i j c c', i < j → j - i ≤ maxAsyncPerProg → p.calls[i]? = some c →
    p.calls[j]? = some c' → CanBeAsync p.calls (Finset.Ico i j) → ¬ c.UsedBy c'

lemma CanBeAsync.mono (ht : CanBeAsync calls t) (hst : s ⊆ t) : CanBeAsync calls s := by
  intro i hi
  obtain ⟨hlast, hunfed⟩ := ht i (hst hi)
  exact ⟨hlast, fun m c c' hm hrun => hunfed m c c' hm fun j hj hjm => hst (hrun j hj hjm)⟩

/-- With no asynchronous call in front, exactly the calls of the set are asynchronous. -/
lemma AsyncSafe.asyncFlag_eq {p : Prog} (hsafe : AsyncSafe p) (ht : CanBeAsync p.calls t)
    (hcard : t.card ≤ maxAsyncPerProg) (i : ℕ) : asyncFlag p.calls t i = decide (i ∈ t) := by
  unfold asyncFlag
  split_ifs with hlt
  · rfl
  · have hnot : i ∉ t := fun hmem => hlt ((card_filter_lt hmem).trans_le hcard)
    -- the whole set is behind the call
    have hfilter : t.filter (i < ·) = t :=
      Finset.eq_of_subset_of_card_le (Finset.filter_subset ..) (by omega)
    rw [decide_eq_false hnot]
    cases hc : p.calls[i]? with
    | none => rfl
    | some c =>
      refine hsafe.budget t (by rw [hfilter] at hlt; omega) ht i c hc fun k hk => ?_
      rw [← hfilter, Finset.mem_filter] at hk
      exact hk.2

/-- For a safe program every choice is spaced. -/
lemma AsyncSafe.flagsSpaced {p : Prog} (hsafe : AsyncSafe p) (ht : CanBeAsync p.calls t)
    (hcard : t.card ≤ maxAsyncPerProg) : FlagsSpaced p.calls (asyncFlag p.calls t) := by
  have hflag := hsafe.asyncFlag_eq ht hcard
  refine ⟨?_, fun i hi => ?_, fun i j c c' hij hc hc' hasync huses => ?_⟩
  · rw [← toFinset_card_of_nodup (nodup_range.filter _)]
    refine (Finset.card_le_card fun i hi => ?_).trans hcard
    have hmem := (mem_filter.mp (mem_toFinset.mp hi)).2
    rw [hflag] at hmem
    exact of_decide_eq_true hmem
  · rw [hflag]
    exact decide_eq_false fun hmem => absurd (ht i hmem).1 (by omega)
  · rw [hflag, decide_eq_true_eq] at hasync
    by_contra hnone
    have hrun : Finset.Ico i j ⊆ t := by
      intro k hk
      rw [Finset.mem_Ico] at hk
      rcases Nat.eq_or_lt_of_le hk.1 with rfl | hik
      · exact hasync
      · by_contra hkt
        exact hnone ⟨k, hik, hk.2, by rw [hflag]; exact decide_eq_false hkt⟩
    have hle := (Finset.card_le_card hrun).trans hcard
    rw [Nat.card_Ico] at hle
    exact hsafe.outputs i j c c' hij hle hc hc' (ht.mono hrun) huses

/-- An asynchronous call in front of a set that uses up the budget is one too many. -/
lemma not_flagsSpaced_of_budget (hcard : s.card = maxAsyncPerProg) (hs : CanBeAsync calls s)
    (hc : calls[i]? = some c) (hlt : ∀ k ∈ s, i < k) (hasync : c.props.async = true) :
    ¬ FlagsSpaced calls (asyncFlag calls s) := by
  intro h
  have hflag : asyncFlag calls s i = true := by
    rw [asyncFlag, Finset.filter_eq_self.mpr hlt, if_neg (by omega), hc]
    exact hasync
  have hsub : insert i s ⊆ ((List.range calls.length).filter (asyncFlag calls s)).toFinset := by
    intro k hk
    rw [mem_toFinset, mem_filter, mem_range]
    rcases Finset.mem_insert.mp hk with rfl | hk
    · exact ⟨(List.getElem?_eq_some_iff.mp hc).1, hflag⟩
    · refine ⟨Nat.lt_of_succ_lt (hs k hk).1, ?_⟩
      rw [asyncFlag, if_pos ((card_filter_lt hk).trans_le hcard.le)]
      exact decide_eq_true hk
  have hle := Finset.card_le_card hsub
  rw [toFinset_card_of_nodup (nodup_range.filter _), Finset.card_insert_of_notMem
    fun hi => absurd (hlt i hi) (lt_irrefl i)] at hle
  have hcount := h.count
  omega

/-- The program that comes out of `AssignRandomAsync` is spaced, for every random stream, exactly
when there is nothing that it cannot cope with. -/
theorem assignRandomAsync_spaced_iff {p : Prog} (hvalid : p.validate = .ok ()) :
    (∀ intn3, ∃ p', assignRandomAsync intn3 p = .ok p' ∧ Spaced p') ↔ AsyncSafe p := by
  have hvalid' : Valid (fun _ => True) p := ⟨hvalid, fun _ _ => trivial⟩
  constructor
  · intro h
    have hself : ∀ r ∈ results p.calls, r.res ≠ some r.id := by
      obtain ⟨p', hok, -⟩ := h fun _ => 0
      obtain ⟨prog, hclone, -⟩ := bind_eq_ok_iff.1 hok
      exact (clone_isOk_iff hvalid).mp ⟨prog, hclone⟩
    -- every set that can be asynchronous comes up
    have hspaced : ∀ s, CanBeAsync p.calls s → s.card ≤ maxAsyncPerProg →
        FlagsSpaced p.calls (asyncFlag p.calls s) := by
      intro s hs hcard
      obtain ⟨p', hok, hp'⟩ := h fun i => if i ∈ s then 1 else 0
      obtain ⟨g, t, p₁, hg, -, -, hset, hok₁, -, hcalls⟩ :=
        assignRandomAsync_of_valid (fun _ _ _ _ => trivial) hvalid' hself _
      obtain rfl := hset s hs hcard rfl
      obtain rfl := Except.ok.inj (hok.symm.trans hok₁)
      exact (spaced_iff hg hcalls).mp hp'
    refine ⟨hself, fun s hcard hs i c hc hlt => ?_, fun i j c c' hij hle hc hc' hs huses => ?_⟩
    · by_contra hasync
      exact not_flagsSpaced_of_budget hcard hs hc hlt (by simpa using hasync)
        (hspaced s hs hcard.le)
    · have hcard : (Finset.Ico i j).card ≤ maxAsyncPerProg := by rwa [Nat.card_Ico]
      have hflag : ∀ k ∈ Finset.Ico i j, asyncFlag p.calls (Finset.Ico i j) k = true := by
        intro k hk
        rw [asyncFlag, if_pos ((card_filter_lt hk).trans_le hcard)]
        exact decide_eq_true hk
      obtain ⟨k, hik, hkj, hfalse⟩ := (hspaced _ hs hcard).distance i j c c' hij hc hc'
        (hflag i (Finset.left_mem_Ico.mpr hij)) huses
      rw [hflag k (Finset.mem_Ico.mpr ⟨hik.le, hkj⟩)] at hfalse
      cases hfalse
  · intro hsafe intn3
    obtain ⟨g, t, p', hg, ht, hcard, -, hok, -, hcalls⟩ :=
      assignRandomAsync_of_valid (fun _ _ _ _ => trivial) hvalid' hsafe.self intn3
    exact ⟨p', hok, (spaced_iff hg hcalls).mpr (hsafe.flagsSpaced ht hcard)⟩

/-! ## Valid results -/

/-- The transformations have nothing to trip over: no argument refers to itself; no call that may
be duplicated reads its own results; and no two calls that may run again have fault injection.
These are an asynchronous call and the next one. A call can become asynchronous if it does not
feed the next one, and stays so if the budget can be used up before it. -/
structure RaceSafe (p : Prog) : Prop where
  self : ∀ r ∈ results p.calls, r.res ≠ some r.id
  own : 2 ≤ p.calls.length → p.calls.length < maxCalls → ∀ c ∈ p.calls, ¬ c.ReadsOwn
  faults : ∀ i c c', p.calls[i]? = some c → p.calls[i + 1]? = some c' →
    (¬ c.Feeds c' ∨ c.props.async = true ∧
      ∃ s : Finset ℕ, s.card = maxAsyncPerProg ∧ (∀ k ∈ s, i < k) ∧ CanBeAsync p.calls s) →
    c.props.failNth ≤ 0 ∧ c'.props.failNth ≤ 0

/-- A transformation does not panic, and returns an error or a valid program that is not too
long. -/
def Acceptable (desc : Call → Prop) (r : Except String (Except String Prog)) : Prop :=
  ∃ res, r = .ok res ∧ ∀ p', res = .ok p' → Valid desc p' ∧ p'.calls.length ≤ maxCalls

/-- `AssignRandomAsync` followed by `AssignRandomRerun`. -/
def assignRandomProps (intn3 : ℕ → Fin 3) (intn4 : ℕ → Fin 4) (intn2 : ℕ → Fin 2) (p : Prog) :
    Except String (Except String Prog) := do
  let p ← assignRandomAsync intn3 p
  return .ok (assignRandomRerun intn4 intn2 p)

section Transformations

variable {desc : Call → Prop} (hdesc : IsDescCheck desc) {p : Prog} (hvalid : Valid desc p)

include hdesc hvalid

lemma acceptable_doubleExecCollide (hsafe : RaceSafe p) :
    Acceptable desc (doubleExecCollide p) := by
  by_cases hsize : p.calls.length * 2 > maxCalls
  · exact ⟨_, by rw [doubleExecCollide, if_pos hsize], fun p' h => by cases h⟩
  · obtain ⟨p', hok, hvalid', hlength⟩ :=
      doubleExecCollide_valid hdesc hvalid hsafe.self hsize
    refine ⟨.ok p', hok, fun p'' h => ?_⟩
    cases h
    exact ⟨hvalid', hlength⟩

/-- For a safe program, running some calls twice is acceptable. -/
lemma acceptable_dupCallCollide (hsize : p.calls.length ≤ maxCalls) (hsafe : RaceSafe p)
    (perm : List ℕ) : Acceptable desc (dupCallCollide perm p) := by
  by_cases hsmall : p.calls.length < 2
  · exact ⟨_, by rw [dupCallCollide, if_pos hsmall], fun p' h => by cases h⟩
  by_cases hbig : p.calls.length < maxCalls
  · obtain ⟨prog, g, hclone, hcalls, hg, hvalid'⟩ := clone_of_valid hdesc hvalid hsafe.self
    obtain ⟨p', hok, htarget, hcalls'⟩ := @dupCallCollide_eq p perm prog hclone (by omega) hbig
    have hown : ∀ c ∈ prog.calls, ¬ c.ReadsOwn := by
      intro c hc
      rw [hcalls] at hc
      obtain ⟨c', hc', rfl⟩ := mem_map.mp hc
      rw [readsOwn_copy hg]
      exact hsafe.own (by omega) hbig c' hc'
    refine ⟨.ok p', hok, fun p'' h => ?_⟩
    cases h
    refine ⟨dupCallCollide_valid hdesc hvalid' hown htarget hcalls', ?_⟩
    have hlength : prog.calls.length = p.calls.length := by rw [hcalls, length_map]
    have hcopies := length_filter_zipIdx_le prog.calls (perm.take (dupInsert p.calls.length))
    have htake : (perm.take (dupInsert p.calls.length)).length ≤ dupInsert p.calls.length :=
      length_take_le ..
    have hle := add_dupInsert_le hsize
    rw [hcalls', (perm_insertCopies ..).length_eq, length_append, length_map,
      length_map, length_map, length_map, length_zipIdx, hlength]
    omega
  · have hzero : dupInsert p.calls.length = 0 := (dupInsert_eq_zero_iff _).mpr (by omega)
    exact ⟨_, by rw [dupCallCollide, if_neg hsmall, if_pos hzero], fun p' h => by cases h⟩

omit hdesc hvalid in
/-- How a call can come to be asynchronous. -/
lemma mayRerun_of_asyncFlag (ht : CanBeAsync calls t) (hcard : t.card ≤ maxAsyncPerProg)
    (hc : calls[i]? = some c) (hc' : calls[i + 1]? = some c')
    (hflag : asyncFlag calls t i = true) :
    ¬ c.Feeds c' ∨ c.props.async = true ∧
      ∃ s : Finset ℕ, s.card = maxAsyncPerProg ∧ (∀ k ∈ s, i < k) ∧ CanBeAsync calls s := by
  unfold asyncFlag at hflag
  split at hflag
  · have hmem : i ∈ t := by simpa using hflag
    exact .inl ((ht i hmem).2 (i + 1) c c' (by omega) (fun j hj hj' => by omega) hc hc')
  · rename_i hfull
    -- the whole set is behind the call
    have hfilter : t.filter (i < ·) = t :=
      Finset.eq_of_subset_of_card_le (Finset.filter_subset ..) (by omega)
    refine .inr ⟨by simpa [hc] using hflag, t, ?_, ?_, ht⟩
    · rw [hfilter] at hfull
      omega
    · intro k hk
      rw [← hfilter, Finset.mem_filter] at hk
      exact hk.2

/-- For a safe program, assigning random properties is acceptable. -/
lemma acceptable_assignRandomProps (hsize : p.calls.length ≤ maxCalls) (hsafe : RaceSafe p)
    (intn3 : ℕ → Fin 3) (intn4 : ℕ → Fin 4) (intn2 : ℕ → Fin 2) :
    Acceptable desc (assignRandomProps intn3 intn4 intn2 p) := by
  obtain ⟨g, t, p₁, hg, ht, hcard, -, hasync, hvalid₁, hcalls₁⟩ :=
    assignRandomAsync_of_valid hdesc hvalid hsafe.self intn3
  -- a call in the result of `AssignRandomAsync` and in the original program
  have hget : ∀ {j : ℕ} {c : Call}, p₁.calls[j]? = some c → ∃ c₀ : Call, p.calls[j]? = some c₀ ∧
      c = (c₀.copy id g).setAsync (asyncFlag p.calls t j) := by
    intro j c hc
    rw [hcalls₁, getElem?_mapIdx, Option.map_eq_some_iff] at hc
    obtain ⟨c₀, hc₀, rfl⟩ := hc
    exact ⟨c₀, hc₀, rfl⟩
  refine ⟨.ok (assignRandomRerun intn4 intn2 p₁), ?_, fun p' h => ?_⟩
  · simp only [assignRandomProps, hasync]
    rfl
  cases h
  have hsame := forall₂_assignRerunLoop intn4 intn2 0 p₁.calls
  have hprops : SameButProps p₁.calls (assignRandomRerun intn4 intn2 p₁).calls := by
    refine hsame.imp fun c c' heq => ?_
    rw [heq]
  have htarget₂ : (assignRandomRerun intn4 intn2 p₁).target = p₁.target := rfl
  constructor
  · rw [valid_iff_of_props hdesc hvalid₁ htarget₂ hprops]
    intro c' hc'
    obtain ⟨j, hj⟩ := mem_iff_getElem?.mp hc'
    obtain ⟨c, hc, rfl | ⟨⟨rerun, rfl⟩, m, a, b, ha, hb, haasync, hjm⟩⟩ :=
      assignRerunLoop_sound intn4 intn2 0 p₁.calls hj
    · exact ((validate_eq_ok_iff.1 hvalid₁.validate).1 _
        (mem_iff_getElem?.mpr ⟨j, hc⟩)).props
    · obtain ⟨a₀, ha₀, rfl⟩ := hget ha
      obtain ⟨b₀, hb₀, rfl⟩ := hget hb
      obtain ⟨c₀, hc₀, rfl⟩ := hget hc
      obtain ⟨hfault, hfault'⟩ := hsafe.faults m a₀ b₀ ha₀ hb₀
        (mayRerun_of_asyncFlag ht hcard ha₀ hb₀ haasync)
      rintro ⟨-, hpos⟩
      change c₀.props.failNth > 0 at hpos
      rcases hjm with rfl | rfl
      · rw [ha₀, Option.some.injEq] at hc₀
        rw [← hc₀] at hpos
        omega
      · rw [hb₀, Option.some.injEq] at hc₀
        rw [← hc₀] at hpos
        omega
  · show (assignRerunLoop intn4 intn2 0 p₁.calls).length ≤ maxCalls
    rw [← hsame.length_eq, hcalls₁, length_mapIdx]
    exact hsize

omit hdesc in
/-- The clone of `AssignRandomAsync` does not panic. -/
lemma self_of_acceptable
    (hok : Acceptable desc (assignRandomProps (fun _ => 0) (fun _ => 0) (fun _ => 0) p)) :
    ∀ r ∈ results p.calls, r.res ≠ some r.id := by
  obtain ⟨res, hres, -⟩ := hok
  simp only [assignRandomProps, assignRandomAsync, bind_eq_ok_iff] at hres
  obtain ⟨_, ⟨prog, hclone, -⟩, -⟩ := hres
  exact (clone_isOk_iff hvalid.validate).mp ⟨prog, hclone⟩

/-- Every call can be picked by `DupCallCollide`. -/
lemma own_of_acceptable (hself : ∀ r ∈ results p.calls, r.res ≠ some r.id)
    (hok : ∀ perm : List ℕ, perm.Perm (List.range p.calls.length) →
      Acceptable desc (dupCallCollide perm p)) (hsmall : 2 ≤ p.calls.length)
    (hbig : p.calls.length < maxCalls) (hc : c ∈ p.calls) : ¬ c.ReadsOwn := by
  intro hown
  obtain ⟨prog, g, hclone, hcalls, hg, -⟩ := clone_of_valid hdesc hvalid hself
  obtain ⟨i, hi⟩ := mem_iff_getElem?.mp hc
  have hlt : i < p.calls.length := (List.getElem?_eq_some_iff.mp hi).1
  let perm := i :: (List.range p.calls.length).erase i
  have hperm : perm.Perm (List.range p.calls.length) :=
    (perm_cons_erase (mem_range.mpr hlt)).symm
  obtain ⟨p', hdup, -, hcalls'⟩ := @dupCallCollide_eq p perm prog hclone hsmall hbig
  obtain ⟨res, hres, hvalidRes⟩ := hok _ hperm
  rw [hdup, Except.ok.injEq] at hres
  have hci : (c.copy id g, i) ∈ prog.calls.zipIdx := by
    rw [mem_zipIdx_iff_getElem?, hcalls, getElem?_map, hi]
    rfl
  have hpick : i ∈ perm.take (dupInsert p.calls.length) := by
    have hpos : dupInsert p.calls.length ≠ 0 := by
      rw [Ne, dupInsert_eq_zero_iff]
      omega
    obtain ⟨n, hn⟩ := Nat.exists_eq_succ_of_ne_zero hpos
    rw [hn, take_succ_cons]
    exact mem_cons_self
  exact not_validate_of_readsOwn hcalls' hci hpick
    ((readsOwn_copy hg c).mpr hown) (hvalidRes p' hres.symm).1.validate

omit hdesc hvalid in
/-- One call that does not feed the next can be async. -/
lemma canBeAsync_singleton (hc : calls[i]? = some c) (hc' : calls[i + 1]? = some c')
    (hfeeds : ¬ c.Feeds c') : CanBeAsync calls {i} := by
  intro k hk
  rw [Finset.mem_singleton] at hk
  subst hk
  refine ⟨(List.getElem?_eq_some_iff.mp hc').1, fun m c₁ c₂ hm hrun hc₁ hc₂ => ?_⟩
  have hnext : m = k + 1 := by
    by_contra hne
    have := hrun (k + 1) (by omega) (by omega)
    rw [Finset.mem_singleton] at this
    omega
  subst hnext
  rw [hc, Option.some.injEq] at hc₁
  rw [hc', Option.some.injEq] at hc₂
  rwa [← hc₁, ← hc₂]

/-- Calls that may run again have no fault injection. -/
lemma faults_of_acceptable (hself : ∀ r ∈ results p.calls, r.res ≠ some r.id)
    (hok : ∀ intn3 intn4 intn2, Acceptable desc (assignRandomProps intn3 intn4 intn2 p))
    (hc : p.calls[i]? = some c) (hc' : p.calls[i + 1]? = some c')
    (hcond : ¬ c.Feeds c' ∨ c.props.async = true ∧
      ∃ s : Finset ℕ, s.card = maxAsyncPerProg ∧ (∀ k ∈ s, i < k) ∧ CanBeAsync p.calls s) :
    c.props.failNth ≤ 0 ∧ c'.props.failNth ≤ 0 := by
  -- a set of asynchronous calls after which the call is asynchronous
  obtain ⟨s, hs, hcard, hflag⟩ : ∃ s, CanBeAsync p.calls s ∧ s.card ≤ maxAsyncPerProg ∧
      asyncFlag p.calls s i = true := by
    rcases hcond with hfeeds | ⟨hasync, s, hcard, hlt, hs⟩
    · refine ⟨{i}, canBeAsync_singleton hc hc' hfeeds, by simp [maxAsyncPerProg], ?_⟩
      have hempty : ({i} : Finset ℕ).filter (i < ·) = ∅ := by
        rw [Finset.filter_eq_empty_iff]
        intro j hj
        rw [Finset.mem_singleton] at hj
        omega
      rw [asyncFlag, hempty, if_pos (by decide)]
      simp
    · refine ⟨s, hs, by omega, ?_⟩
      have hfilter : s.filter (i < ·) = s := Finset.filter_eq_self.mpr hlt
      rw [asyncFlag, hfilter, if_neg (by omega), hc]
      exact hasync
  obtain ⟨g, t, p₁, -, -, -, hset, hasync, -, hcalls₁⟩ :=
    assignRandomAsync_of_valid hdesc hvalid hself fun i => if i ∈ s then 1 else 0
  obtain rfl := hset s hs hcard rfl
  have hget : ∀ {j : ℕ} {c₀ : Call}, p.calls[j]? = some c₀ → p₁.calls[j]? =
      some ((c₀.copy id g).setAsync (asyncFlag p.calls t j)) := by
    intro j c₀ hc₀
    rw [hcalls₁, getElem?_mapIdx, hc₀]
    rfl
  obtain ⟨hrerun, hrerun'⟩ := @assignRerunLoop_complete i 0 p₁.calls _ _ (Nat.zero_le i)
    (hget hc) (hget hc') hflag
  obtain ⟨res, hres, hvalidRes⟩ := hok (fun i => if i ∈ t then 1 else 0)
    (fun j => if j = i then 0 else 1) (fun _ => 0)
  simp only [assignRandomProps, hasync] at hres
  obtain ⟨hvalid₂, -⟩ := hvalidRes _ (Except.ok.inj hres).symm
  have hprops := fun c hc => ((validate_eq_ok_iff.1 hvalid₂.validate).1 c hc).props
  have h := hprops _ (mem_iff_getElem?.mpr ⟨_, hrerun⟩)
  have h' := hprops _ (mem_iff_getElem?.mpr ⟨_, hrerun'⟩)
  constructor
  · by_contra hpos
    exact h ⟨show (32 : ℤ) > 0 by decide, not_le.mp hpos⟩
  · by_contra hpos
    exact h' ⟨show (32 : ℤ) > 0 by decide, not_le.mp hpos⟩

/-- The transformations return errors or valid programs exactly for the programs in which there
is nothing to trip over. -/
theorem acceptable_iff_raceSafe (hsize : p.calls.length ≤ maxCalls) :
    (Acceptable desc (doubleExecCollide p) ∧
      (∀ perm : List ℕ, perm.Perm (List.range p.calls.length) →
        Acceptable desc (dupCallCollide perm p)) ∧
      ∀ intn3 intn4 intn2, Acceptable desc (assignRandomProps intn3 intn4 intn2 p)) ↔
    RaceSafe p := by
  constructor
  · rintro ⟨-, hdup, hprops⟩
    have hself := self_of_acceptable hvalid (hprops _ _ _)
    exact ⟨hself, fun hsmall hbig c hc => own_of_acceptable hdesc hvalid hself hdup hsmall hbig hc,
      fun i c c' hc hc' hcond => faults_of_acceptable hdesc hvalid hself hprops hc hc' hcond⟩
  · intro hsafe
    exact ⟨acceptable_doubleExecCollide hdesc hvalid hsafe,
      fun perm _ => acceptable_dupCallCollide hdesc hvalid hsize hsafe perm,
      fun intn3 intn4 intn2 =>
        acceptable_assignRandomProps hdesc hvalid hsize hsafe intn3 intn4 intn2⟩

end Transformations

/-! A program `dup(0x0) (fail_nth: n)`, `dup(0x0)`, and one whose second call reads what it is to
fill in. -/

def raceTarget : Target :=
  { syscalls := [{ id := 0, name := "dup" }, { id := 1, name := "pipe" }]
    dataOffset := 0x20000000, specialPointers := [] }

lemma race_values_ne_nil : [(0xffffffffffffffff : UInt64)] ≠ [] := by simp

def raceFd (id : ArgId) (dir : Dir) (res : Option ArgId) (uses : List ArgId) : ResultArg :=
  { id, dir, res, opDiv := 0, opAdd := 0, val := 0, uses
    typ := { typeName := "fd", typeSize := 4, argFormat := .formatNative
             desc := ⟨"fd", [0xffffffffffffffff], race_values_ne_nil⟩ } }

def raceDup (id : ArgId) (res : Option ArgId) (uses : List ArgId) (failNth : ℤ) : Call :=
  { callMeta := { id := 0, name := "dup" }, args := [.result (raceFd id .dirIn res [])]
    ret := some (raceFd (id + 1) .dirOut none uses), props := { CallProps.zero with failNth } }

def raceProg (failNth : ℤ) : Prog :=
  { target := raceTarget
    calls := [raceDup 0 none [] failNth, raceDup 2 none [] 0]
    callMeta_mem := by
      simp only [forall_mem_cons]
      have hmem : ({ id := 0, name := "dup" } : Syscall) ∈ raceTarget.syscalls := by decide
      exact ⟨hmem, hmem, by simp⟩ }

def pipeProg : Prog :=
  { target := raceTarget
    calls := [raceDup 0 none [] 0,
      { callMeta := { id := 1, name := "pipe" }, ret := none, props := .zero
        args := [.pointer 2 .dirIn (.ptr ⟨"ptr", 8⟩) 0 0 (some (.group 3 .dirInOut
          (.struct { typeName := "pipefd", typeSize := 8, isVarlen := false
                     fields := ["rfd", "wfd"], alignAttr := 0, overlayField := 0 })
          [.result (raceFd 4 .dirOut none [5]), .result (raceFd 5 .dirIn (some 4) [])]))] }]
    callMeta_mem := by decide }

theorem acceptable_raceProg :
    Acceptable (fun _ => True) (doubleExecCollide (raceProg 0)) ∧
      Acceptable (fun _ => True) (dupCallCollide [1, 0] (raceProg 0)) ∧
      Acceptable (fun _ => True)
        (assignRandomProps (fun _ => 1) (fun _ => 0) (fun _ => 0) (raceProg 0)) := by
  have hvalid : Valid (fun _ => True) (raceProg 0) := ⟨by decide +kernel, fun _ _ => trivial⟩
  have hsafe : RaceSafe (raceProg 0) := by
    have hcalls : ∀ c ∈ (raceProg 0).calls, ¬ c.ReadsOwn ∧ c.props.failNth = 0 := by
      unfold Call.ReadsOwn
      decide
    refine ⟨by decide, fun _ _ c hc => (hcalls c hc).1, fun i c c' hc hc' _ => ?_⟩
    rw [(hcalls c (mem_of_getElem? hc)).2, (hcalls c' (mem_of_getElem? hc')).2]
    exact ⟨le_refl 0, le_refl 0⟩
  obtain ⟨hdouble, hdup, hprops⟩ :=
    (acceptable_iff_raceSafe (fun _ _ _ _ => trivial) hvalid (by decide)).mpr hsafe
  exact ⟨hdouble, hdup [1, 0] (by decide), hprops _ _ _⟩

/-- A call with fault injection runs again, and a copy of a call refers to a result behind it. -/
theorem not_acceptable_raceProg :
    (raceProg 1).validate = .ok () ∧ pipeProg.validate = .ok () ∧
      (∃ p', assignRandomProps (fun _ => 1) (fun _ => 0) (fun _ => 0) (raceProg 1) = .ok (.ok p') ∧
        p'.validate = .error "rerun > 0 && fail_nth > 0") ∧
      ∃ p', dupCallCollide [1, 0] pipeProg = .ok (.ok p') ∧
        p'.validate = .error "result arg references out-of-tree result" := by
  refine ⟨by decide +kernel, by decide +kernel, ⟨_, rfl, by decide +kernel⟩,
    ⟨_, rfl, by decide +kernel⟩⟩

/-- Two calls that are asynchronous before: there are too few of them to use up the budget. -/
theorem spaced_raceProg :
    ∃ p', assignRandomAsync (fun _ => 1) ((raceProg 0).mapCalls (fun _ => Call.setAsync true)
      fun _ _ => rfl) = .ok p' ∧ Spaced p' := by
  refine (assignRandomAsync_spaced_iff (by decide +kernel)).mpr ⟨by decide, ?_, ?_⟩ fun _ => 1
  · intro s hcard hs
    have hsub : s ⊆ Finset.range 2 := fun i hi => Finset.mem_range.mpr (Nat.lt_of_succ_lt (hs i hi).1)
    have hle := Finset.card_le_card hsub
    rw [hcard] at hle
    exact absurd hle (by decide)
  · have hunused : ∀ c ∈ ((raceProg 0).mapCalls (fun _ => Call.setAsync true) fun _ _ => rfl).calls,
        ∀ a ∈ results [c], a.res = none := by
      decide
    rintro i j c c' - - - hc' - ⟨r, -, -, a, ha, hres⟩
    rw [hunused c' (mem_of_getElem? hc') a ha] at hres
    cases hres

/-- A program of asynchronous calls, one of which the loop does not get to. -/
def asyncProg : Prog :=
  { target := raceTarget
    calls := (List.range 26).map fun i => (raceDup (2 * i) none [] 0).setAsync true
    callMeta_mem := by decide }

theorem assignRandomAsync_asyncProg : asyncProg.validate = .ok () ∧
    ∃ p', assignRandomAsync (fun _ => 1) asyncProg = .ok p' ∧
      (p'.calls.filter (·.props.async)).length = maxAsyncPerProg + 1 := by
  refine ⟨by decide +kernel, _, rfl, by decide +kernel⟩

end KConfuzz
