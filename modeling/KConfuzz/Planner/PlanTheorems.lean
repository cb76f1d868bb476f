import KConfuzz.Planner.Plan
import Mathlib.Data.List.Iterate
import Mathlib.Data.List.Perm.Basic
import Mathlib.Data.Nat.ModEq

/-!
# What a plan contains

Each loop of the planner appends actions for parameters that were not used before, and enters
them into the set of used ones (`Adds`). There is one spec lemma for each loop; from them
`mem_plan_cases` says where every action of a plan comes from, and `plan_eq_nil_iff` when there
is none.
-/

namespace KConfuzz

open Lib.StableSort List

variable {R : Registry}

/-! ## The random walk -/

variable {n step : ℕ}

/-- The bound of `findStep` is not reached: the search comes back to 1, which is coprime to
everything, in fewer rounds. -/
lemma coprime_findStep {fuel : ℕ} (hstep : 1 ≤ step) (hn : step < n)
    (hfuel : n - step ≤ fuel ∨ step = 1) : Nat.gcd (findStep n fuel step) n = 1 := by
  induction fuel generalizing step with
  | zero =>
    obtain rfl : step = 1 := by omega
    rw [findStep, Nat.gcd_one_left]
  | succ fuel ih =>
    rw [findStep]
    split
    · assumption
    · next hgcd =>
      have hne : step ≠ 1 := by
        rintro rfl
        exact hgcd (Nat.gcd_one_left n)
      split
      · exact ih le_rfl (by omega) (.inr rfl)
      · exact ih (by omega) (by omega) (.inl (by omega))

lemma coprime_walkStep (n : ℕ) (seed : UInt64) : Nat.Coprime (walkStep n seed) n := by
  unfold walkStep
  split
  · have hlt : seed.toNat % (n - 1) < n - 1 := Nat.mod_lt _ (by omega)
    exact coprime_findStep (by omega) (by omega) (.inl (by omega))
  · exact Nat.coprime_one_left n

/-- The next index of the walk. -/
def walkNext (n step index : ℕ) : ℕ := (index + step) % n

lemma iterate_walkNext {start : ℕ} (hstart : start < n) (k : ℕ) :
    (walkNext n step)^[k] start = (start + k * step) % n := by
  induction k with
  | zero => rw [Function.iterate_zero_apply, Nat.zero_mul, Nat.add_zero, Nat.mod_eq_of_lt hstart]
  | succ k ih =>
    rw [Function.iterate_succ_apply', ih, walkNext, Nat.mod_add_mod, Nat.succ_mul, Nat.add_assoc]

/-- A walk with a coprime step visits every index once. -/
lemma iterate_walkNext_perm {start : ℕ} (hcop : Nat.Coprime step n) (hstart : start < n) :
    (List.iterate (walkNext n step) start n).Perm (List.range n) := by
  rw [← range_map_iterate]
  have hnodup : ((List.range n).map fun k => (walkNext n step)^[k] start).Nodup := by
    refine Nodup.map_on (fun i hi j hj heq => ?_) nodup_range
    rw [iterate_walkNext hstart, iterate_walkNext hstart] at heq
    have hmul : i * step ≡ j * step [MOD n] := Nat.ModEq.add_left_cancel' start heq
    have hmod : i ≡ j [MOD n] := Nat.ModEq.cancel_right_of_coprime (Nat.coprime_comm.mp hcop) hmul
    exact hmod.eq_of_lt_of_lt (mem_range.mp hi) (mem_range.mp hj)
  refine (subperm_of_subset hnodup fun i hi => ?_).perm_of_length_le (by simp)
  obtain ⟨k, -, rfl⟩ := mem_map.mp hi
  rw [iterate_walkNext hstart]
  exact mem_range.mpr (Nat.mod_lt _ (by omega))

/-! ## Adding actions -/

/-- An action planned for `param`, before the call `index`. -/
def ActionFor (param : ConfigParam) (index : ℕ) (a : KConfuzzConfigAction) : Prop :=
  ∃ seed, a = configActionWithSeed index seed param

variable {param : ConfigParam}

lemma ActionFor.paramID_eq {index : ℕ} {a : KConfuzzConfigAction} (h : ActionFor param index a) :
    a.paramID = param.id := by
  obtain ⟨seed, rfl⟩ := h
  rfl

/-- The actions `new` are for different parameters, none of them used before, and all of them
used afterwards. -/
structure Adds (used used' : List UInt64) (new : List KConfuzzConfigAction) : Prop where
  mem_iff : ∀ id, id ∈ used' ↔ id ∈ used ∨ id ∈ new.map (·.paramID)
  nodup : (new.map (·.paramID)).Nodup
  fresh : ∀ a ∈ new, a.paramID ∉ used

variable {limit : ℤ} {a : KConfuzzConfigAction} {new : List KConfuzzConfigAction}
  {skip used used' : List UInt64} {params : List ConfigParam}

lemma Adds.refl (used : List UInt64) : Adds used used [] := ⟨by simp, by simp, by simp⟩

lemma ActionFor.adds {index : ℕ} (ha : ActionFor param index a) (h : param.id ∉ used) :
    Adds used (param.id :: used) [a] := by
  rw [← ha.paramID_eq] at h ⊢
  exact ⟨by simp [or_comm], by simp, by simpa using h⟩

lemma Adds.trans {used'' : List UInt64} {new' : List KConfuzzConfigAction}
    (h : Adds used used' new) (h' : Adds used' used'' new') : Adds used used'' (new ++ new') where
  mem_iff id := by
    rw [h'.mem_iff, h.mem_iff, map_append, mem_append, or_assoc]
  nodup := by
    rw [map_append, nodup_append']
    refine ⟨h.nodup, h'.nodup, fun id hid hid' => ?_⟩
    obtain ⟨a, ha, rfl⟩ := mem_map.mp hid'
    exact h'.fresh a ha ((h.mem_iff _).mpr (.inr hid))
  fresh a ha := by
    rcases mem_append.mp ha with ha | ha
    · exact h.fresh a ha
    · exact fun hused => h'.fresh a ha ((h.mem_iff _).mpr (.inl hused))

/-- The parameters of `l` that are not used yet. -/
def unused (skip : List UInt64) (l : List ConfigParam) : List ConfigParam :=
  l.filter fun param => !skip.contains param.id

lemma unused_cons_of_notMem {l : List ConfigParam} (h : param.id ∉ l.map ConfigParam.id) :
    unused (param.id :: skip) l = unused skip l := by
  refine filter_congr fun q hq => ?_
  have hne : q.id ≠ param.id := fun heq => h (heq ▸ mem_map_of_mem hq)
  simp [hne]

/-- The walk plans the first unused parameters that it visits. -/
lemma randomWalk_spec {params : List ConfigParam} {step rounds index : ℕ} {base : UInt64}
    {actions : List KConfuzzConfigAction} {visited : List ConfigParam}
    (hvisited : (List.iterate (walkNext params.length step) index rounds).map (params[·]?) =
      visited.map some) (hnodup : (visited.map ConfigParam.id).Nodup) :
    ∃ new used, randomWalk params limit step base rounds index actions skip =
        (actions ++ new, used) ∧ Adds skip used new ∧
      (∀ a ∈ new, ∃ param ∈ visited, ActionFor param 0 a) ∧
      new.length = min (limit.toNat - actions.length) (unused skip visited).length := by
  induction rounds generalizing index actions skip visited with
  | zero =>
    obtain rfl : visited = [] := by simpa using hvisited.symm
    exact ⟨[], skip, by simp [randomWalk], Adds.refl _, by simp, by simp [unused]⟩
  | succ rounds ih =>
    cases visited with
    | nil => simp at hvisited
    | cons param visited =>
      rw [iterate, map_cons, map_cons, List.cons.injEq] at hvisited
      rw [map_cons, nodup_cons] at hnodup
      rw [randomWalk, hvisited.1]
      by_cases hlimit : (actions.length : ℤ) < limit
      · rw [if_pos hlimit]
        dsimp only
        by_cases hskip : param.id ∈ skip
        · have hdrop : unused skip (param :: visited) = unused skip visited := by
            simp [unused, hskip]
          rw [if_pos (by simpa using hskip), hdrop]
          obtain ⟨new, used, hwalk, hadds, hfor, hlen⟩ := ih hvisited.2 hnodup.2
          refine ⟨new, used, hwalk, hadds, fun a ha => ?_, hlen⟩
          obtain ⟨q, hq, haction⟩ := hfor a ha
          exact ⟨q, mem_cons_of_mem _ hq, haction⟩
        · have haction : ActionFor param 0
              (configActionWithSeed 0 (valueSeed base actions.length 0 param) param) := ⟨_, rfl⟩
          rw [if_neg (by simpa using hskip)]
          generalize configActionWithSeed _ _ _ = action at haction
          obtain ⟨new, used, hwalk, hadds, hfor, hlen⟩ :=
            @ih (param.id :: skip) _ (actions ++ [action]) visited hvisited.2 hnodup.2
          have hkeep : unused skip (param :: visited) = param :: unused skip visited := by
            simp [unused, hskip]
          rw [append_assoc] at hwalk
          refine ⟨action :: new, used, hwalk, (haction.adds hskip).trans hadds, ?_, ?_⟩
          · intro a ha
            rcases mem_cons.mp ha with rfl | ha
            · exact ⟨param, mem_cons_self, haction⟩
            · obtain ⟨q, hq, haction⟩ := hfor a ha
              exact ⟨q, mem_cons_of_mem _ hq, haction⟩
          · rw [unused_cons_of_notMem hnodup.1, length_append, length_singleton] at hlen
            rw [hkeep, length_cons, length_cons]
            omega
      · rw [if_neg hlimit]
        exact ⟨[], skip, by simp, Adds.refl _, by simp, by rw [length_nil]; omega⟩

lemma randomActions_of_nothing {seed : UInt64} (h : limit ≤ 0 ∨ params = []) :
    randomActions params seed limit skip = ([], skip) := by
  rw [randomActions, if_pos (by simpa using h)]

/-- The walk takes as many unused candidates as it may. -/
lemma randomActions_spec (hnodup : (params.map ConfigParam.id).Nodup) (seed : UInt64) (limit : ℤ)
    (skip : List UInt64) :
    ∃ new used, randomActions params seed limit skip = (new, used) ∧ Adds skip used new ∧
      (∀ a ∈ new, ∃ param ∈ params, ActionFor param 0 a) ∧
      new.length = min limit.toNat (unused skip params).length := by
  by_cases hnothing : limit ≤ 0 ∨ params = []
  · refine ⟨[], skip, randomActions_of_nothing hnothing, Adds.refl _, by simp, ?_⟩
    rcases hnothing with hle | rfl
    · rw [Int.toNat_of_nonpos hle, Nat.zero_min, length_nil]
    · simp [unused]
  · have hlen : seed.toNat % params.length < params.length := by
      refine Nat.mod_lt _ (length_pos_iff.mpr fun hnil => hnothing (.inr hnil))
    -- the parameters in the order of the walk
    have hperm := (iterate_walkNext_perm (coprime_walkStep params.length seed) hlen).map (params[·]?)
    have hrange : (List.range params.length).map (params[·]?) = params.map some := by
      ext1 i
      by_cases hi : i < params.length <;> simp [hi]
    rw [hrange] at hperm
    obtain ⟨visited, hwalked, hvisited⟩ := (congrFun₂ (eq_map_comp_perm some) _ _).mpr hperm
    obtain ⟨new, used, hwalk, hadds, hfor, hlen⟩ := @randomWalk_spec limit skip params _ _ _
      (seed % 1000000) [] visited hwalked ((hvisited.map _).nodup_iff.mpr hnodup)
    have hunused : (unused skip visited).length = (unused skip params).length :=
      (hvisited.filter _).length_eq
    rw [randomActions, if_neg (by simpa using hnothing)]
    refine ⟨new, used, hwalk, hadds, fun a ha => ?_, by rw [hlen, hunused]; rfl⟩
    obtain ⟨param, hparam, haction⟩ := hfor a ha
    exact ⟨param, hvisited.subset hparam, haction⟩

variable {prg : Prog} {serialize : Prog → List UInt8} {opts : Options}

lemma mem_randomCandidateParams :
    param ∈ randomCandidateParams R ↔ param ∈ R.params ∧ safeRandomParam param := by
  rw [randomCandidateParams, sortedParams, mem_sliceStable, mem_filter]

lemma nodup_randomCandidateParams : ((randomCandidateParams R).map ConfigParam.id).Nodup := by
  rw [randomCandidateParams, sortedParams, ((sliceStable_perm _ _).map _).nodup_iff]
  exact R.ids_nodup.sublist (filter_sublist.map _)

lemma planRandomLevel_spec (R : Registry) (serialize : Prog → List UInt8) (prg : Prog)
    (limit : ℤ) (skip : List UInt64) :
    ∃ new used, planRandomLevel R serialize prg limit skip = (new, used) ∧ Adds skip used new ∧
      (∀ a ∈ new, ∃ param ∈ randomCandidateParams R, ActionFor param 0 a) ∧
      new.length = min limit.toNat (unused skip (randomCandidateParams R)).length :=
  randomActions_spec nodup_randomCandidateParams _ _ _

namespace Planner

variable (p : Planner R)

/-- A related action stands for a parameter that the table relates to a call of the program. -/
def RelatedAction (prg : Prog) (a : KConfuzzConfigAction) : Prop :=
  ∃ i ≤ prg.calls.length, ∃ call ∈ prg.calls, ∃ param ∈ p.callParams call, ActionFor param i a

lemma limited_and_iff {limit : ℤ} {c : Prop} [Decidable c] :
    (!isUnlimited limit && decide c) = true ↔ 0 ≤ limit ∧ c := by
  simp [isUnlimited]

/-! ## The call level -/

/-- The limits of the loop over the parameters of a call, and what it leaves out. -/
structure CallLimits (opts : Options) (params : List ConfigParam) (added : ℕ)
    (actions new : List KConfuzzConfigAction) (seen : List UInt64) (full : Bool) : Prop where
  perCall : new.length ≤ max 1 (opts.maxActionsPerCall - added)
  program : 0 ≤ opts.maxActionsPerProgram →
    new.length ≤ max 1 (opts.maxActionsPerProgram - actions.length)
  room : full = false → 0 ≤ opts.maxActionsPerProgram →
    actions.length < opts.maxActionsPerProgram →
      actions.length + new.length < opts.maxActionsPerProgram
  all_seen : new = [] → full = false ∧ ∀ param ∈ params, param.id ∈ seen

/-- The related actions of one call. -/
lemma planCallParams_spec (opts : Options) (seed : UInt64) (index : ℕ) (params : List ConfigParam)
    (added : ℕ) (actions : List KConfuzzConfigAction) (seen : List UInt64) :
    ∃ full new seen', planCallParams opts seed index params added actions seen =
        (full, actions ++ new, seen') ∧ Adds seen seen' new ∧
      (∀ a ∈ new, ∃ param ∈ params, ActionFor param index a) ∧
      CallLimits opts params added actions new seen full := by
  induction params generalizing added actions seen with
  | nil =>
    refine ⟨false, [], seen, by simp [planCallParams], Adds.refl _, by simp, ?_, ?_, ?_, by simp⟩
    all_goals
      rw [length_nil]
      omega
  | cons param params ih =>
    rw [planCallParams]
    by_cases hseen : param.id ∈ seen
    · obtain ⟨full, new, seen', hloop, hadds, hfor, hlimits⟩ := ih added actions seen
      refine ⟨full, new, seen', ?_, hadds, fun a ha => ?_, hlimits.1, hlimits.2, hlimits.3, ?_⟩
      · rw [if_pos (by simpa using hseen), hloop]
      · obtain ⟨q, hq, haction⟩ := hfor a ha
        exact ⟨q, mem_cons_of_mem _ hq, haction⟩
      · intro hnil
        obtain ⟨hfull, hall⟩ := hlimits.all_seen hnil
        exact ⟨hfull, forall_mem_cons.mpr ⟨hseen, hall⟩⟩
    · have haction : ActionFor param index (configActionWithSeed index
          (valueSeed seed actions.length index param) param) := ⟨_, rfl⟩
      rw [if_neg (by simpa using hseen)]
      generalize configActionWithSeed _ _ _ = action at haction
      have hadds := haction.adds hseen
      have hone : ∀ a ∈ [action], ∃ q ∈ param :: params, ActionFor q index a := by
        simpa using .inl haction
      simp only [limited_and_iff, length_append, length_singleton]
      split_ifs with hfull hcall
      · refine ⟨true, [action], _, rfl, hadds, hone, ?_, ?_, nofun, nofun⟩
        all_goals
          rw [length_singleton]
          omega
      · refine ⟨false, [action], _, rfl, hadds, hone, ?_, ?_, ?_, nofun⟩
        all_goals
          rw [length_singleton]
          omega
      · obtain ⟨full, new, seen', hloop, hadds', hfor, hcalls, hprogram, hroom, -⟩ :=
          ih (added + 1) (actions ++ [action]) (param.id :: seen)
        rw [append_assoc] at hloop
        rw [length_append, length_singleton] at hprogram hroom
        refine ⟨full, action :: new, seen', hloop, hadds.trans hadds', ?_, ?_, ?_, ?_, nofun⟩
        · refine forall_mem_cons.mpr ⟨⟨param, mem_cons_self, haction⟩, fun a ha => ?_⟩
          obtain ⟨q, hq, haction⟩ := hfor a ha
          exact ⟨q, mem_cons_of_mem _ hq, haction⟩
        · rw [length_cons]
          omega
        · rw [length_cons]
          omega
        · intro hmore
          have := hroom hmore
          rw [length_cons]
          omega

/-- The program's limit, at most `MaxActionsPerCall` actions for each call, and nothing left out if
there are no actions. -/
lemma planCalls_spec (opts : Options) (seed : UInt64) (index : ℕ) (calls : List Call)
    (actions : List KConfuzzConfigAction) (seen : List UInt64) :
    ∃ new seen', p.planCalls opts seed index calls actions seen = actions ++ new ∧
      Adds seen seen' new ∧
      (∀ a ∈ new, ∃ k call, calls[k]? = some call ∧ ∃ param ∈ p.callParams call,
        ActionFor param (index + k) a) ∧
      (∀ i : ℤ, (new.countP (·.beforeCall = i) : ℤ) ≤ max 1 opts.maxActionsPerCall) ∧
      (0 ≤ opts.maxActionsPerProgram → actions.length < opts.maxActionsPerProgram →
        actions.length + new.length ≤ opts.maxActionsPerProgram) ∧
      (new = [] → ∀ call ∈ calls, ∀ param ∈ p.callParams call, param.id ∈ seen) := by
  induction calls generalizing index actions seen with
  | nil =>
    refine ⟨[], seen, by simp [planCalls], Adds.refl _, by simp, by simp, ?_, by simp⟩
    rw [length_nil]
    omega
  | cons call calls ih =>
    obtain ⟨full, new, seen', hloop, hadds, hfor, hcount, hprogram, hroom, hseen⟩ :=
      planCallParams_spec opts seed index
        (shuffledParamSlice (p.callParams call) (mix64 (seed ^^^ UInt64.ofNat (index + 1)))) 0
        actions seen
    simp only [shuffledParamSlice, mem_sliceStable] at hfor hseen
    have hown : ∀ a ∈ new, ∃ k c, (call :: calls)[k]? = some c ∧ ∃ param ∈ p.callParams c,
        ActionFor param (index + k) a := fun a ha => ⟨0, call, rfl, hfor a ha⟩
    have hindex : ∀ a ∈ new, a.beforeCall = index := by
      intro a ha
      obtain ⟨param, -, seed, rfl⟩ := hfor a ha
      rfl
    have hle : ∀ i : ℤ, new.countP (·.beforeCall = i) ≤ new.length := fun _ => countP_le_length
    rw [planCalls, hloop]
    cases full with
    | true =>
      refine ⟨new, seen', rfl, hadds, hown, fun i => ?_, by omega, fun hnil => ?_⟩
      · have := hle i
        omega
      · cases (hseen hnil).1
    | false =>
      obtain ⟨rest, seen'', hrest, hadds', hfor', hcount', hprogram', hnone'⟩ :=
        ih (index + 1) (actions ++ new) seen'
      rw [append_assoc] at hrest
      rw [length_append] at hprogram'
      refine ⟨new ++ rest, seen'', hrest, hadds.trans hadds', ?_, fun i => ?_, ?_, fun hnil => ?_⟩
      · refine forall_mem_append.mpr ⟨hown, fun a ha => ?_⟩
        obtain ⟨k, c, hc, param, hparam, haction⟩ := hfor' a ha
        exact ⟨k + 1, c, hc, param, hparam, by rwa [Nat.add_right_comm, Nat.add_assoc] at haction⟩
      · -- the later actions are for later calls
        rw [countP_append]
        by_cases hi : i = index
        · have hzero : rest.countP (·.beforeCall = i) = 0 := by
            rw [countP_eq_zero]
            intro a ha
            obtain ⟨k, c, -, param, -, seed, rfl⟩ := hfor' a ha
            simp [configActionWithSeed, hi]
            omega
          have := hle i
          omega
        · have hzero : new.countP (·.beforeCall = i) = 0 := by
            rw [countP_eq_zero]
            intro a ha
            rw [hindex a ha]
            simpa using Ne.symm hi
          have := hcount' i
          omega
      · have := hroom rfl
        rw [length_append]
        omega
      · obtain ⟨rfl, rfl⟩ := append_eq_nil_iff.mp hnil
        refine forall_mem_cons.mpr ⟨(hseen rfl).2, fun c hc param hparam => ?_⟩
        simpa using (hadds.mem_iff _).mp (hnone' rfl c hc param hparam)

/-! ## The sequence level -/

lemma map_id_insertParam (param : ConfigParam) (params : List ConfigParam) :
    (insertParam param params).map ConfigParam.id =
      if param.id ∈ params.map ConfigParam.id then params.map ConfigParam.id
      else params.map ConfigParam.id ++ [param.id] := by
  have hany : params.any (·.id == param.id) = true ↔ param.id ∈ params.map ConfigParam.id := by
    simp only [any_eq_true, beq_iff_eq, mem_map]
  unfold insertParam
  by_cases h : param.id ∈ params.map ConfigParam.id
  · rw [if_pos (hany.mpr h), if_pos h, map_map]
    refine map_congr_left fun q _ => ?_
    by_cases hq : q.id = param.id <;> simp [hq]
  · rw [if_neg (fun hin => h (hany.mp hin)), if_neg h, map_append, map_singleton]

/-- Inserting parameters keeps one for each identifier. -/
lemma foldl_insertParam_spec (l seen : List ConfigParam)
    (hnodup : (seen.map ConfigParam.id).Nodup) :
    let r := l.foldl (fun seen param => insertParam param seen) seen
    (r.map ConfigParam.id).Nodup ∧ (∀ q ∈ r, q ∈ seen ∨ q ∈ l) ∧
      ∀ id, id ∈ r.map ConfigParam.id ↔ id ∈ seen.map ConfigParam.id ∨ id ∈ l.map ConfigParam.id := by
  induction l generalizing seen with
  | nil => simpa using hnodup
  | cons param l ih =>
    have hids := map_id_insertParam param seen
    obtain ⟨hr, hfrom, hall⟩ := ih (insertParam param seen) (by
      rw [hids]
      split_ifs with hin
      · exact hnodup
      · exact nodup_append'.mpr ⟨hnodup, nodup_singleton _, by simpa using hin⟩)
    refine ⟨hr, fun q hq => ?_, fun id => ?_⟩
    · rcases hfrom q hq with hseen | hl
      · rcases mem_of_mem_insertParam hseen with rfl | hseen
        · exact .inr mem_cons_self
        · exact .inl hseen
      · exact .inr (mem_cons_of_mem _ hl)
    · rw [foldl_cons, hall, hids, map_cons, mem_cons, ← or_assoc]
      refine or_congr_left ?_
      split_ifs with hin
      · exact (or_iff_left_of_imp fun heq => heq ▸ hin).symm
      · rw [mem_append, mem_singleton]

/-- The parameters of the calls, without those to skip. -/
lemma seenParams_spec (prg : Prog) (skip : List UInt64) :
    ((p.seenParams prg skip).map ConfigParam.id).Nodup ∧
      (∀ param ∈ p.seenParams prg skip,
        (∃ call ∈ prg.calls, param ∈ p.callParams call) ∧ param.id ∉ skip) ∧
      ∀ call ∈ prg.calls, ∀ param ∈ p.callParams call,
        param.id ∈ skip ∨ param.id ∈ (p.seenParams prg skip).map ConfigParam.id := by
  have hfold : p.seenParams prg skip = (unused skip (prg.calls.flatMap p.callParams)).foldl
      (fun seen param => insertParam param seen) [] := by
    rw [unused, foldl_filter, seenParams]
    simp
  obtain ⟨hnodup, hfrom, hall⟩ :=
    foldl_insertParam_spec (unused skip (prg.calls.flatMap p.callParams)) [] (by simp)
  rw [← hfold] at hnodup hfrom hall
  refine ⟨hnodup, fun param hparam => ?_, fun call hcall param hparam => ?_⟩
  · obtain ⟨hmem, hskip⟩ := mem_filter.mp ((hfrom param hparam).resolve_left (by simp))
    exact ⟨mem_flatMap.mp hmem, by simpa using hskip⟩
  · by_cases hskip : param.id ∈ skip
    · exact .inl hskip
    · refine .inr ((hall _).mpr (.inr (mem_map_of_mem (mem_filter.mpr ⟨?_, by simpa using hskip⟩))))
      exact mem_flatMap.mpr ⟨call, hcall, hparam⟩

section

variable (serialize : Prog → List UInt8) (prg : Prog) (opts : Options) (skip : List UInt64)

/-- The sequence level uses every related parameter, unless the limit stops it. -/
lemma planSequenceLevel_spec :
    ∃ new used, p.planSequenceLevel serialize prg opts skip = (new, used) ∧ Adds skip used new ∧
      (∀ a ∈ new, ∃ call ∈ prg.calls, ∃ param ∈ p.callParams call, ActionFor param 0 a) ∧
      (0 ≤ opts.maxActionsPerProgram → new.length ≤ opts.maxActionsPerProgram) ∧
      (opts.maxActionsPerProgram < 0 ∨ new.length < opts.maxActionsPerProgram →
        ∀ call ∈ prg.calls, ∀ param ∈ p.callParams call, param.id ∈ used) := by
  obtain ⟨hnodup, hfrom, hall⟩ := p.seenParams_spec prg skip
  have hperm : (shuffledParamSlice (sortedParams (p.seenParams prg skip))
      (planSeed serialize prg)).Perm (p.seenParams prg skip) :=
    (sliceStable_perm _ _).trans (sliceStable_perm _ _)
  unfold planSequenceLevel sequenceParams
  simp only [limited_and_iff]
  generalize shuffledParamSlice _ _ = all at hperm
  obtain ⟨n, hn, hle⟩ : ∃ n, (if 0 ≤ opts.maxActionsPerProgram ∧ opts.maxActionsPerProgram < all.length
      then all.take opts.maxActionsPerProgram.toNat else all) = all.take n ∧
      (0 ≤ opts.maxActionsPerProgram → min n all.length ≤ opts.maxActionsPerProgram) ∧
      (opts.maxActionsPerProgram < 0 ∨ min n all.length < opts.maxActionsPerProgram →
        all.length ≤ n) := by
    split
    · exact ⟨_, rfl, by omega, by omega⟩
    · exact ⟨all.length, take_length.symm, by omega, by omega⟩
  rw [hn]
  have hids : ∀ params : List ConfigParam, (params.mapIdx fun i param => configActionWithSeed 0
      (valueSeed (planSeed serialize prg) i 0 param) param).map (·.paramID) =
      params.map ConfigParam.id := by
    intro params
    apply ext_getElem?
    simp [getElem?_mapIdx, configActionWithSeed, Function.comp_def]
  refine ⟨_, _, rfl, ⟨fun id => ?_, ?_, ?_⟩, ?_, ?_, ?_⟩
  · rw [hids, mem_append, or_comm]
  · rw [hids]
    exact ((hperm.map _).nodup_iff.mpr hnodup).sublist ((take_sublist _ _).map _)
  · intro a ha
    obtain ⟨i, hi, rfl⟩ := mem_mapIdx.mp ha
    exact (hfrom _ (hperm.subset (mem_of_mem_take (getElem_mem hi)))).2
  · intro a ha
    obtain ⟨i, hi, rfl⟩ := mem_mapIdx.mp ha
    obtain ⟨call, hcall, hparam⟩ := (hfrom _ (hperm.subset (mem_of_mem_take (getElem_mem hi)))).1
    exact ⟨call, hcall, _, hparam, _, rfl⟩
  · rw [length_mapIdx, length_take]
    exact hle.1
  · intro hroom call hcall param hparam
    rw [length_mapIdx, length_take] at hroom
    rw [take_of_length_le (hle.2 hroom), mem_append]
    rcases hall call hcall param hparam with hskip | hseen
    · exact .inr hskip
    · exact .inl ((hperm.map _).mem_iff.mpr hseen)

/-- After the sequence level there is nothing left for the call level. -/
lemma planBothLevels_eq :
    p.planBothLevels serialize prg opts skip = (p.planSequenceLevel serialize prg opts skip).1 := by
  obtain ⟨new, used, hseq, -, -, -, hall⟩ := p.planSequenceLevel_spec serialize prg opts skip
  unfold planBothLevels
  rw [hseq]
  dsimp only
  split_ifs with hfull
  · rfl
  · have hroom : opts.maxActionsPerProgram < 0 ∨ new.length < opts.maxActionsPerProgram := by
      rw [limited_and_iff] at hfull
      omega
    have hnone : ∀ opts, p.planCallLevel serialize prg opts used = [] := by
      intro opts
      obtain ⟨added, _, hcalls, hadds, hfor, -⟩ := p.planCalls_spec opts (planSeed serialize prg)
        0 prg.calls [] used
      rw [planCallLevel, hcalls, nil_append]
      refine eq_nil_iff_forall_not_mem.mpr fun a ha => hadds.fresh a ha ?_
      obtain ⟨k, call, hcall, param, hparam, haction⟩ := hfor a ha
      rw [haction.paramID_eq]
      exact hall hroom call (mem_of_getElem? hcall) param hparam
    rw [hnone]
    rfl

/-! ## The plan -/

lemma planRelated_eq :
    p.planRelated serialize prg opts skip =
      if opts.strategy = .strategyCall then p.planCallLevel serialize prg opts skip
      else (p.planSequenceLevel serialize prg opts skip).1 := by
  unfold planRelated
  split
  · next h => rw [if_pos h]
  · next h => rw [if_neg (by simp [h]), planBothLevels_eq]
  · next h => rw [if_neg (by simp [h])]

end

lemma mem_planRelated (h : a ∈ p.planRelated serialize prg opts skip) : p.RelatedAction prg a := by
  rw [planRelated_eq] at h
  split_ifs at h
  · obtain ⟨new, -, hcalls, -, hfor, -⟩ :=
      p.planCalls_spec opts (planSeed serialize prg) 0 prg.calls [] skip
    rw [planCallLevel, hcalls] at h
    obtain ⟨k, call, hcall, hparam⟩ := hfor a h
    rw [Nat.zero_add] at hparam
    obtain ⟨hk, -⟩ := List.getElem?_eq_some_iff.mp hcall
    exact ⟨k, hk.le, call, mem_of_getElem? hcall, hparam⟩
  · obtain ⟨new, used, hseq, -, hfor, -⟩ := p.planSequenceLevel_spec serialize prg opts skip
    rw [hseq] at h
    exact ⟨0, Nat.zero_le _, hfor a h⟩

/-- Every action of a plan is one for a random candidate, at the front of the program, or one
for a parameter that the table relates to a call of the program. -/
lemma mem_plan_cases (h : a ∈ p.plan serialize prg opts) :
    (∃ param ∈ R.params, safeRandomParam param ∧ ActionFor param 0 a) ∨ p.RelatedAction prg a := by
  have hrandom : ∀ {limit}, a ∈ (planRandomLevel R serialize prg limit []).1 →
      ∃ param ∈ R.params, safeRandomParam param ∧ ActionFor param 0 a := by
    intro limit ha
    obtain ⟨new, used, hlevel, -, hfor, -⟩ := planRandomLevel_spec R serialize prg limit []
    rw [hlevel] at ha
    obtain ⟨param, hparam, haction⟩ := hfor a ha
    obtain ⟨hmem, hsafe⟩ := mem_randomCandidateParams.1 hparam
    exact ⟨param, hmem, hsafe, haction⟩
  unfold plan at h
  dsimp only at h
  split at h
  · exact .inl (hrandom h)
  · rcases mem_append.mp h with h | h
    · exact .inl (hrandom h)
    · exact .inr (p.mem_planRelated h)

lemma allowed_callParams {call : Call} (h : param ∈ p.callParams call) : Allowed R param := by
  unfold callParams paramsOf at h
  cases hlookup : p.callToParams.lookup call.callMeta.name with
  | none =>
    rw [hlookup] at h
    cases h
  | some params =>
    rw [hlookup] at h
    obtain ⟨l₁, l₂, hsplit, -⟩ := lookup_eq_some_iff.mp hlookup
    exact p.allowed (call.callMeta.name, params) (by simp [hsplit]) param h

end Planner

/-! ## Planned actions are supported -/

lemma plannedValueFromSeed_lt (seed : UInt64) (h : 1 < param.valueCount) :
    (plannedValueFromSeed seed param).1 < param.valueCount := by
  unfold plannedValueFromSeed
  cases hvalue : plannedMutatorValue seed param with
  | some valueID =>
    unfold plannedMutatorValue at hvalue
    split at hvalue
    · cases hvalue
    · obtain ⟨ids, -, hids⟩ := exists_of_findSome?_eq_some hvalue
      unfold deterministicValueID at hids
      split at hids
      · cases hids
      · obtain ⟨i, -, hi⟩ := exists_of_findSome?_eq_some hids
        split at hi
        · split at hi
          · next hlt => exact Option.some.inj hi ▸ hlt
          · cases hi
        · cases hi
  | none =>
    rw [if_neg (UInt64.not_le.mpr h)]
    exact UInt64.mod_lt _ (UInt64.lt_trans (by decide) h)

lemma supportedAction_configActionWithSeed (h : Allowed R param) (index : ℕ) (seed : UInt64) :
    supportedAction R (configActionWithSeed index seed param) :=
  supportedAction_iff.2 ⟨param, h.1, rfl, h.2,
    .inl (plannedValueFromSeed_lt seed (allowedRelatedParam_valueCount h.2))⟩

lemma Planner.plan_supported (p : Planner R) (h : a ∈ p.plan serialize prg opts) :
    supportedAction R a ∧ a.inRange (some prg) := by
  have hrange : ∀ {param i seed}, i ≤ prg.calls.length →
      (configActionWithSeed i seed param).inRange (some prg) := by
    simp [KConfuzzConfigAction.inRange, configActionWithSeed]
  rcases p.mem_plan_cases h with ⟨param, hmem, hsafe, seed, rfl⟩ | ⟨i, hi, call, -, param, hparam,
    seed, rfl⟩
  · exact ⟨supportedAction_configActionWithSeed ⟨hmem, (safeRandomParam_spec hsafe).1⟩ 0 seed,
      hrange (Nat.zero_le _)⟩
  · exact ⟨supportedAction_configActionWithSeed (p.allowed_callParams hparam) i seed, hrange hi⟩

/-- The context has the planned actions in order. -/
lemma Planner.planContext_spec (p : Planner R) {source : String}
    {ctx : KConfuzzConfigContext} (h : p.planContext serialize prg opts source = some ctx) :
    ctx.source = source ∧ ctx.actions ≠ [] ∧
      ctx.actions = normalizeKConfuzzConfigActions (some prg) (p.plan serialize prg opts) := by
  unfold Planner.planContext at h
  dsimp only at h
  split at h
  · cases h
  · next hne =>
    obtain rfl := Option.some.inj h
    refine ⟨rfl, fun hnil => ?_, rfl⟩
    obtain ⟨a, ha⟩ := exists_mem_of_ne_nil _ (by simpa using hne)
    have hrange := normalizeKConfuzzConfigActions_eq_nil_iff.1 hnil a ha
    rw [(p.plan_supported ha).2] at hrange
    cases hrange

/-! ## When a plan is empty -/

lemma planRandomLevel_eq_nil_iff :
    (planRandomLevel R serialize prg limit []).1 = [] ↔
      limit ≤ 0 ∨ randomCandidateParams R = [] := by
  obtain ⟨new, used, hlevel, -, -, hlen⟩ := planRandomLevel_spec R serialize prg limit []
  have hall : unused [] (randomCandidateParams R) = randomCandidateParams R := by simp [unused]
  rw [hall] at hlen
  rw [hlevel, ← length_eq_zero_iff, ← length_eq_zero_iff, hlen]
  omega

lemma normalizeOptions_max_ne_zero (opts : Options) {d : ℤ} (hd : d ≠ 0) :
    (normalizeOptions opts d).maxActionsPerProgram ≠ 0 := by
  unfold normalizeOptions
  dsimp only
  split_ifs with h₀ h₁
  · exact hd
  · decide
  · exact h₀

namespace Planner

lemma relatedLimit_eq_zero_iff (hmax : opts.maxActionsPerProgram ≠ 0) :
    relatedLimit opts 0 = 0 ↔ opts.relatedActionsPerProgram = 0 := by
  unfold relatedLimit remainingActions unlimitedActions
  simp only [limited_and_iff]
  simp only [isUnlimited, decide_eq_true_eq]
  split_ifs
  · rw [false_iff]
    omega
  all_goals omega

variable (p : Planner R)

lemma hasRelatedCall_eq_false_iff :
    p.hasRelatedCall prg = false ↔ ∀ call ∈ prg.calls, p.callParams call = [] := by
  simp [hasRelatedCall]

/-- Nothing related is planned if no call has parameters. -/
lemma planRelated_eq_nil_iff (hmax : opts.maxActionsPerProgram ≠ 0) :
    p.planRelated serialize prg opts [] = [] ↔ p.hasRelatedCall prg = false := by
  rw [hasRelatedCall_eq_false_iff]
  constructor
  · intro hnil call hcall
    refine eq_nil_iff_forall_not_mem.mpr fun param hparam => ?_
    rw [planRelated_eq] at hnil
    split_ifs at hnil
    · obtain ⟨new, -, hcalls, -, -, -, -, hnone⟩ :=
        p.planCalls_spec opts (planSeed serialize prg) 0 prg.calls [] []
      rw [planCallLevel, hcalls, nil_append] at hnil
      cases hnone hnil call hcall param hparam
    · obtain ⟨new, used, hseq, hadds, -, -, hall⟩ :=
        p.planSequenceLevel_spec serialize prg opts []
      rw [hseq] at hnil
      obtain rfl : new = [] := hnil
      have hused := hall (by rw [length_nil]; omega) call hcall param hparam
      simp [hadds.mem_iff] at hused
  · intro hnone
    refine eq_nil_iff_forall_not_mem.mpr fun a ha => ?_
    obtain ⟨-, -, call, hcall, param, hparam, -⟩ := p.mem_planRelated ha
    rw [hnone call hcall] at hparam
    cases hparam

/-- When a plan is empty. -/
lemma plan_eq_nil_iff :
    p.plan serialize prg opts = [] ↔
      ((normalizeOptions opts 4).randomActionsPerProgram ≤ 0 ∨ randomCandidateParams R = []) ∧
        ((normalizeOptions opts 4).relatedActionsPerProgram = 0 ∨
          p.hasRelatedCall prg = false) := by
  have hmax := normalizeOptions_max_ne_zero opts (d := 4) (by decide)
  unfold plan
  dsimp only
  generalize normalizeOptions opts 4 = opts at hmax ⊢
  by_cases hrandom : opts.randomActionsPerProgram ≤ 0 ∨ randomCandidateParams R = []
  · have hnone : planRandomLevel R serialize prg opts.randomActionsPerProgram [] = ([], []) :=
      randomActions_of_nothing hrandom
    rw [hnone]
    simp only [hrandom, true_and, length_nil, nil_append]
    rw [← relatedLimit_eq_zero_iff hmax]
    split
    · next h => simp [h]
    · next h => rw [or_iff_right h, p.planRelated_eq_nil_iff h]
  · simp only [hrandom, false_and, iff_false]
    have hne : (planRandomLevel R serialize prg opts.randomActionsPerProgram []).1 ≠ [] :=
      mt planRandomLevel_eq_nil_iff.1 hrandom
    split
    · exact hne
    · simpa using fun h => absurd h hne

end Planner

end KConfuzz
