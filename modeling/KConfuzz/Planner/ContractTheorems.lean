import KConfuzz.Planner.SafetyTheorems

/-!
# The contract of `Plan`

What holds of every plan, for options of any sign and size: the limits, where the actions stand,
and which parameters and values they have. Only the capacity that `planRandomLevel` asks for can
be more than the machine has.
-/

namespace KConfuzz

open List

variable {R : Registry}

/-! ## Limits -/

lemma normalizeOptions_perCall_pos (opts : Options) (max : ℤ) :
    0 < (normalizeOptions opts max).maxActionsPerCall := by
  unfold normalizeOptions
  dsimp only
  split <;> omega

lemma normalizeOptions_random_le (opts : Options) {max : ℤ}
    (h : 0 ≤ (normalizeOptions opts max).maxActionsPerProgram) :
    (normalizeOptions opts max).randomActionsPerProgram ≤
      (normalizeOptions opts max).maxActionsPerProgram := by
  unfold normalizeOptions at h ⊢
  dsimp only at h ⊢
  simp only [Planner.limited_and_iff]
  split <;> omega

lemma ActionFor.valueID_lt {param : ConfigParam} {index : ℕ} {a : KConfuzzConfigAction}
    (ha : ActionFor param index a) (hallowed : allowedRelatedParam param) :
    a.valueID < param.valueCount := by
  obtain ⟨seed, rfl⟩ := ha
  exact plannedValueFromSeed_lt seed (allowedRelatedParam_valueCount hallowed)

/-! ## Random actions -/

lemma planRandomFrom_eq {heap : GoHeap} {params : List ConfigParam} {seed : UInt64} {limit : ℤ}
    {skip : List UInt64} :
    planRandomFrom heap params seed limit skip =
      if heap.capacity < limit ∧ params ≠ [] then none
      else some (randomActions params seed limit skip) := by
  by_cases hnothing : limit ≤ 0 ∨ params = []
  · rw [planRandomFrom, if_pos (by simpa using hnothing), randomActions_of_nothing hnothing, if_neg]
    exact fun h => hnothing.elim (by omega) h.2
  · rw [planRandomFrom, if_neg (by simpa using hnothing)]
    simp only [ne_eq, (not_or.mp hnothing).2, not_false_eq_true, and_true]

/-! ## Plans -/

namespace Planner

variable (p : Planner R) (serialize : Prog → List UInt8) (heap : GoHeap) (prg : Prog)

/-- Random and related actions share the limit of the program. -/
lemma relatedLimit_le {opts : Options} {used : ℕ} (hmax : 0 ≤ opts.maxActionsPerProgram)
    (hused : used ≤ opts.maxActionsPerProgram) :
    0 ≤ relatedLimit opts used ∧ used + relatedLimit opts used ≤ opts.maxActionsPerProgram := by
  unfold relatedLimit remainingActions unlimitedActions
  simp only [limited_and_iff]
  simp only [isUnlimited, decide_eq_true_eq]
  split_ifs <;> omega

/-- Where the related actions stand. -/
structure RelatedPart (opts : Options) (related : List KConfuzzConfigAction) : Prop where
  sequence : opts.strategy ≠ .strategyCall → ∀ a ∈ related, a.beforeCall = 0
  call : opts.strategy = .strategyCall → ∀ a ∈ related, ∃ (k : ℕ) (call : Call),
    prg.calls[k]? = some call ∧ a.beforeCall = k ∧ ∃ param ∈ p.callParams call, param.id = a.paramID
  perCall : opts.strategy = .strategyCall →
    ∀ i : ℤ, related.countP (·.beforeCall = i) ≤ opts.maxActionsPerCall

/-- What holds of the random and the related actions of a plan, for normalized options. -/
structure Contract (opts : Options) (random related : List KConfuzzConfigAction) : Prop where
  nodup : ((random ++ related).map (·.paramID)).Nodup
  length_le : 0 ≤ opts.maxActionsPerProgram →
    (random ++ related).length ≤ opts.maxActionsPerProgram
  front : ∀ a ∈ random, a.beforeCall = 0
  placed : p.RelatedPart prg opts related
  params : ∀ a ∈ random ++ related, ∃ param ∈ R.params, param.id = a.paramID ∧
    a.valueID < param.valueCount ∧
    (param ∈ randomCandidateParams R ∨ ∃ call ∈ prg.calls, param ∈ p.callParams call)

/-- The related part of a plan. -/
lemma planRelated_spec (opts : Options) (used : List UInt64) (hcall : 0 < opts.maxActionsPerCall)
    (hmax : opts.maxActionsPerProgram ≠ 0) :
    ∃ used', Adds used used' (p.planRelated serialize prg opts used) ∧
      (0 ≤ opts.maxActionsPerProgram →
        (p.planRelated serialize prg opts used).length ≤ opts.maxActionsPerProgram) ∧
      p.RelatedPart prg opts (p.planRelated serialize prg opts used) := by
  rw [planRelated_eq]
  split_ifs with hstrategy
  · obtain ⟨new, used', hcalls, hadds, hfor, hperCall, hprogram, -⟩ :=
      p.planCalls_spec opts (planSeed serialize prg) 0 prg.calls [] used
    rw [planCallLevel, hcalls, nil_append]
    refine ⟨used', hadds, fun hzero => ?_, absurd hstrategy, fun _ a ha => ?_,
      fun _ i => (hperCall i).trans (max_le hcall le_rfl)⟩
    · simpa using hprogram hzero (by simpa using lt_of_le_of_ne hzero hmax.symm)
    · obtain ⟨k, call, hcall, param, hparam, seed, rfl⟩ := hfor a ha
      exact ⟨k, call, hcall, by rw [Nat.zero_add]; rfl, param, hparam, rfl⟩
  · obtain ⟨new, used', hseq, hadds, hfor, hprogram, -⟩ :=
      p.planSequenceLevel_spec serialize prg opts used
    rw [hseq]
    refine ⟨used', hadds, hprogram, fun _ a ha => ?_, fun h => absurd h hstrategy,
      fun h => absurd h hstrategy⟩
    obtain ⟨call, hcall, param, hparam, seed, rfl⟩ := hfor a ha
    rfl

/-- A plan is a random and a related part that keep the contract. -/
lemma plan_contract (opts : Options) :
    ∃ random used related,
      planRandomLevel R serialize prg (normalizeOptions opts 4).randomActionsPerProgram [] =
        (random, used) ∧
      p.plan serialize prg opts = random ++ related ∧
      p.Contract prg (normalizeOptions opts 4) random related := by
  have hcall := normalizeOptions_perCall_pos opts 4
  have hle := @normalizeOptions_random_le opts 4
  unfold plan
  dsimp only
  generalize normalizeOptions opts 4 = opts at hcall hle
  obtain ⟨random, used, hlevel, hadds, hfor, hlen⟩ :=
    planRandomLevel_spec R serialize prg opts.randomActionsPerProgram []
  have hfront : ∀ a ∈ random, a.beforeCall = 0 := by
    intro a ha
    obtain ⟨param, -, seed, rfl⟩ := hfor a ha
    rfl
  have hrandom : ∀ a ∈ random, ∃ param ∈ R.params, param.id = a.paramID ∧
      a.valueID < param.valueCount ∧
      (param ∈ randomCandidateParams R ∨ ∃ call ∈ prg.calls, param ∈ p.callParams call) := by
    intro a ha
    obtain ⟨param, hparam, haction⟩ := hfor a ha
    obtain ⟨hmem, hsafe⟩ := mem_randomCandidateParams.1 hparam
    exact ⟨param, hmem, haction.paramID_eq.symm,
      haction.valueID_lt (safeRandomParam_spec hsafe).1, .inl hparam⟩
  have hused : 0 ≤ opts.maxActionsPerProgram → (random.length : ℤ) ≤ opts.maxActionsPerProgram := by
    intro hmax
    omega
  rw [hlevel]
  split_ifs with hlimit
  · refine ⟨random, used, [], rfl, (append_nil _).symm, ?_⟩
    have hnone : p.RelatedPart prg opts [] := ⟨by simp, by simp, fun _ i => by simpa using hcall.le⟩
    have hsame := append_nil random
    exact ⟨hsame.symm ▸ hadds.nodup, hsame.symm ▸ hused, hfront, hnone, hsame.symm ▸ hrandom⟩
  · obtain ⟨used', hadds', hprogram, hrelated⟩ := p.planRelated_spec serialize prg
      { opts with
        maxActionsPerProgram := relatedLimit opts random.length
        randomActionsPerProgram := 0 } used hcall hlimit
    refine ⟨random, used, _, rfl, rfl, (hadds.trans hadds').nodup, fun hmax => ?_, hfront,
      ⟨hrelated.1, hrelated.2, hrelated.3⟩, forall_mem_append.mpr ⟨hrandom, fun a ha => ?_⟩⟩
    · obtain ⟨hzero, hsum⟩ := relatedLimit_le hmax (hused hmax)
      have hlength := hprogram hzero
      rw [length_append]
      push_cast
      dsimp only at hlength
      omega
    · obtain ⟨i, -, call, hcall, param, hparam, haction⟩ := p.mem_planRelated ha
      obtain ⟨hmem, hallowed⟩ := p.allowed_callParams hparam
      exact ⟨param, hmem, haction.paramID_eq.symm, haction.valueID_lt hallowed,
        .inr ⟨call, hcall, hparam⟩⟩

lemma planOrPanic_eq_none_iff (opts : Options) :
    p.planOrPanic serialize heap prg opts = none ↔
      heap.capacity < (normalizeOptions opts 4).randomActionsPerProgram ∧
        randomCandidateParams R ≠ [] := by
  rw [planOrPanic, Option.map_eq_none_iff, planRandomFrom_eq]
  simp

/-- `Plan` ends the process exactly when there are random candidates and the number of random
actions is more than the machine has room for, however few candidates there are; otherwise its
actions are as the contract says. -/
theorem planOrPanic_contract (opts : Options) :
    (p.planOrPanic serialize heap prg opts = none ↔
      heap.capacity < (normalizeOptions opts 4).randomActionsPerProgram ∧
        randomCandidateParams R ≠ []) ∧
    ∀ acts, p.planOrPanic serialize heap prg opts = some acts → ∃ random used related,
      planRandomFrom heap (randomCandidateParams R) (planSeed serialize prg)
        (normalizeOptions opts 4).randomActionsPerProgram [] = some (random, used) ∧
      acts = random ++ related ∧ p.Contract prg (normalizeOptions opts 4) random related := by
  refine ⟨p.planOrPanic_eq_none_iff serialize heap prg opts, fun acts hacts => ?_⟩
  obtain ⟨walked, hwalked, rfl⟩ := Option.map_eq_some_iff.mp hacts
  obtain ⟨random, used, related, hlevel, hplan, hcontract⟩ := p.plan_contract serialize prg opts
  refine ⟨random, used, related, ?_, hplan, hcontract⟩
  rw [planRandomFrom_eq] at hwalked ⊢
  split_ifs at hwalked ⊢
  rw [← hlevel]
  rfl

/-- A row of the generated registry that is a random candidate. -/
def acceptLocalRegistry : Registry where
  params := [{ vsyscall32Param with
    name := "net/ipv4/conf/all/accept_local", id := 108, domain := "ipv4"
    valueDomain := "bool_strict", mutatorConfidence := "medium"
    mutatorKind := "bool_like_candidate", mutatorRandomValueIDs := [0, 1] }]
  names_nodup := by decide
  ids_nodup := by decide

/-- A run that asks for more random actions than any machine has room for. -/
theorem planOrPanic_many_random_actions :
    ∃ (p : Planner acceptLocalRegistry) (prg : Prog), ∀ heap,
      p.planOrPanic (fun _ => []) heap prg
        { strategy := .strategySequence
          maxActionsPerProgram := -1
          maxActionsPerCall := 1
          randomActionsPerProgram := 2 ^ 43 + 1
          relatedActionsPerProgram := 0 } = none := by
  obtain ⟨p, -⟩ := exists_loadRelationTable acceptLocalRegistry []
  refine ⟨p, ?_, fun heap => (p.planOrPanic_eq_none_iff _ _ _ _).mpr ⟨?_, by decide +kernel⟩⟩
  · exact
      { target := { syscalls := [], dataOffset := 0, specialPointers := [], ids := rfl }
        calls := []
        callMeta_mem := by simp }
  · have hle := heap.capacity_le
    show (heap.capacity : ℤ) < 2 ^ 43 + 1
    omega

/-- The strategy `both` plans what `sequence` plans. -/
theorem planOrPanic_both_eq_sequence (opts : Options) :
    p.planOrPanic serialize heap prg { opts with strategy := .strategyBoth } =
      p.planOrPanic serialize heap prg { opts with strategy := .strategySequence } ∧
    ∀ limits skip, p.planBothLevels serialize prg limits skip =
      (p.planSequenceLevel serialize prg limits skip).1 := by
  refine ⟨?_, p.planBothLevels_eq serialize prg⟩
  have hplan : p.plan serialize prg { opts with strategy := .strategyBoth } =
      p.plan serialize prg { opts with strategy := .strategySequence } := by
    unfold plan planRelated
    simp only [planBothLevels_eq]
    rfl
  unfold planOrPanic
  rw [hplan]
  rfl

end Planner

/-! ## The random walk -/

/-- The walk of `planRandomLevel` goes through all candidates, and plans an action for each that is
not used yet, up to the limit; only a limit that the machine has no room for ends it. -/
theorem planRandomFrom_covers {params : List ConfigParam} (hne : params ≠ [])
    (hnodup : (params.map ConfigParam.id).Nodup) (heap : GoHeap) (seed : UInt64) (limit : ℤ)
    (skip : List UInt64) :
    Nat.Coprime (walkStep params.length seed) params.length ∧
    (List.iterate (walkNext params.length (walkStep params.length seed))
      (seed.toNat % params.length) params.length).Perm (List.range params.length) ∧
    (planRandomFrom heap params seed limit skip = none ↔ heap.capacity < limit) ∧
    ∀ actions used, planRandomFrom heap params seed limit skip = some (actions, used) →
      actions.length = min limit.toNat (unused skip params).length ∧
      (actions.map (·.paramID)).Nodup ∧
      ∀ a ∈ actions, a.paramID ∈ params.map ConfigParam.id ∧ a.paramID ∉ skip := by
  have hcop := coprime_walkStep params.length seed
  obtain ⟨new, used', hnew, hadds, hfor, hlen⟩ := randomActions_spec hnodup seed limit skip
  rw [planRandomFrom_eq, hnew]
  refine ⟨hcop, iterate_walkNext_perm hcop (Nat.mod_lt _ (length_pos_iff.mpr hne)), ?_, ?_⟩
  · simp [hne]
  · intro actions used h
    split_ifs at h
    cases h
    refine ⟨hlen, hadds.nodup, fun a ha => ⟨?_, hadds.fresh a ha⟩⟩
    obtain ⟨param, hparam, haction⟩ := hfor a ha
    rw [haction.paramID_eq]
    exact mem_map_of_mem hparam

/-- Two candidates, one of them used already, and room for ten actions. -/
theorem planRandomFrom_covers_two :
    ∃ actions used, planRandomFrom ⟨10, by decide⟩ sampleRegistry.params 7 5 [84] =
      some (actions, used) ∧ actions.length = 1 := by
  obtain ⟨-, -, hroom, hwalk⟩ := @planRandomFrom_covers sampleRegistry.params (by decide)
    (by decide) ⟨10, by decide⟩ 7 5 [84]
  obtain ⟨⟨actions, used⟩, h⟩ := Option.ne_none_iff_exists'.mp (mt hroom.mp (by decide))
  exact ⟨actions, used, h, (hwalk actions used h).1⟩

/-- One candidate and a limit that no machine has room for. -/
theorem planRandomFrom_large_limit :
    ¬ ∃ heap, (planRandomFrom heap [vsyscall32Param] 1 (2 ^ 43 + 1) []).isSome := by
  rintro ⟨heap, hsome⟩
  have hle := heap.capacity_le
  rw [planRandomFrom_eq, if_pos ⟨by omega, by simp⟩] at hsome
  cases hsome

end KConfuzz
