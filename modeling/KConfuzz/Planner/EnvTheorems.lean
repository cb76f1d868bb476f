import KConfuzz.Planner.Env

/-!
# Planned contexts, and what survives the filter

`PlansNothing` is the condition on the environment and the program under which planning yields
no context; a context that is planned has actions, all of them supported, in range and in
order. `filterSupportedContext_eq` says what `FilterSupportedContext` keeps.
-/

namespace KConfuzz

open Lib.StableSort

namespace Env

variable (env : Env)

/-! ## Planning -/

/-- Actions are disabled, there is no table, or neither random nor related planning has
anything to plan for this program. -/
def PlansNothing (prg : Prog) : Prop :=
  env.actionsEnabled = false ∨ ∀ planner ∈ env.plannerFromEnv,
    ((normalizeOptions env.optionsFromEnv 4).randomActionsPerProgram ≤ 0 ∨
      randomCandidateParams env.registry = []) ∧
    ((normalizeOptions env.optionsFromEnv 4).relatedActionsPerProgram = 0 ∨
      planner.hasRelatedCall prg = false)

/-- Actions as `prepareKConfuzz` leaves them: sorted, in range of the program, supported. -/
structure Prepared (prg : Prog) (actions : List KConfuzzConfigAction) : Prop where
  sorted : SortedBy KConfuzzConfigAction.key actions
  inRange : ∀ a ∈ actions, a.inRange (some prg)
  supported : ∀ a ∈ actions, supportedAction env.registry a

/-- What becomes of carried actions: the supported ones in range, sorted. -/
def supportedFor (prg : Prog) (actions : List KConfuzzConfigAction) : List KConfuzzConfigAction :=
  normalizeKConfuzzConfigActions (some prg) (filterSupportedActions env.registry actions)

variable {env} {prg : Prog} {ctx : KConfuzzConfigContext} {actions : List KConfuzzConfigAction}
  {q : List String}

lemma mem_supportedFor {a : KConfuzzConfigAction} :
    a ∈ env.supportedFor prg actions ↔
      a ∈ actions ∧ supportedAction env.registry a ∧ a.inRange (some prg) := by
  rw [supportedFor, mem_normalizeKConfuzzConfigActions, mem_filterSupportedActions, and_assoc]

lemma supportedFor_eq_nil_iff :
    env.supportedFor prg actions = [] ↔
      ∀ a ∈ actions, a.inRange (some prg) → supportedAction env.registry a = false := by
  rw [List.eq_nil_iff_forall_not_mem]
  simp only [mem_supportedFor, not_and, Bool.not_eq_true]
  grind

@[simp] lemma supportedFor_normalize (actions : List KConfuzzConfigAction) :
    env.supportedFor prg (normalizeKConfuzzConfigActions (some prg) actions) =
      env.supportedFor prg actions := by
  rw [supportedFor, filterSupportedActions_normalize, normalizeKConfuzzConfigActions_idem,
    supportedFor]

@[simp] lemma supportedFor_nil : env.supportedFor prg [] = [] := rfl

lemma prepared_supportedFor (actions : List KConfuzzConfigAction) :
    env.Prepared prg (env.supportedFor prg actions) where
  sorted := sortedBy_normalizeKConfuzzConfigActions _ _
  inRange _ ha := (mem_supportedFor.1 ha).2.2
  supported _ ha := (mem_supportedFor.1 ha).2.1

lemma prepared_nil : env.Prepared prg [] := prepared_supportedFor []

lemma Prepared.supportedFor_eq (h : env.Prepared prg actions) :
    env.supportedFor prg actions = actions := by
  rw [supportedFor, filterSupportedActions, List.filter_eq_self.mpr h.supported,
    normalizeKConfuzzConfigActions_eq_self h.sorted h.inRange]

/-- A planned context. -/
lemma planContextFromEnv_spec (h : env.planContextFromEnv prg = some ctx) :
    env.actionsEnabled ∧ ctx.actions ≠ [] ∧ env.Prepared prg ctx.actions ∧
      ctx.source = relationTableEnv := by
  unfold planContextFromEnv at h
  split at h
  · cases h
  · next henabled =>
    split at h
    · cases h
    · next planner _ =>
      obtain ⟨hsource, hne, hactions⟩ := planner.planContext_spec h
      refine ⟨by simpa using henabled, hne, ?_, hsource⟩
      rw [hactions]
      constructor
      · exact sortedBy_normalizeKConfuzzConfigActions _ _
      · exact fun a ha => (mem_normalizeKConfuzzConfigActions.1 ha).2
      · exact fun a ha =>
          (planner.plan_supported (mem_normalizeKConfuzzConfigActions.1 ha).1).1

/-- No context is planned exactly if there is nothing to plan. -/
lemma planContextFromEnv_eq_none_iff :
    env.planContextFromEnv prg = none ↔ env.PlansNothing prg := by
  unfold planContextFromEnv PlansNothing
  split
  · next h => simpa using Or.inl h
  · next h =>
    cases hplanner : env.plannerFromEnv with
    | none => simp
    | some planner =>
      have henabled : env.actionsEnabled = true := by simpa using h
      simp only [henabled, Bool.true_eq_false, false_or, Option.mem_def, Option.some.injEq,
        forall_eq']
      have hplan : planner.plan env.serialize prg env.optionsFromEnv = [] ↔ _ :=
        planner.plan_eq_nil_iff
      rw [← hplan]
      simp [Planner.planContext]

lemma planFromEnv_eq_nil_iff : env.planFromEnv prg = [] ↔ env.PlansNothing prg := by
  rw [← planContextFromEnv_eq_none_iff, planFromEnv]
  cases h : env.planContextFromEnv prg with
  | none => simp
  | some ctx => simpa using (planContextFromEnv_spec h).2.1

lemma prepared_planFromEnv : env.Prepared prg (env.planFromEnv prg) := by
  rw [planFromEnv]
  cases h : env.planContextFromEnv prg with
  | none => exact prepared_nil
  | some ctx => exact (planContextFromEnv_spec h).2.2.1

/-! ## Quarantine -/

lemma contextQuarantined_normalize (q : List String) (prg : Prog) (ctx : KConfuzzConfigContext) :
    env.contextQuarantined q prg
        { ctx with actions := normalizeKConfuzzConfigActions (some prg) ctx.actions } =
      env.contextQuarantined q prg ctx := by
  unfold contextQuarantined contextQuarantineKey KConfuzzConfigContext.cloneForProg
  simp only [normalizeKConfuzzConfigActions_idem]

lemma contextQuarantined_mono {q' : List String} (hq : q ⊆ q')
    (h : env.contextQuarantined q prg ctx) : env.contextQuarantined q' prg ctx := by
  unfold contextQuarantined at h ⊢
  split at h
  · cases h
  · simpa using hq (by simpa using h)

lemma subset_quarantineContext (q : List String) (prg : Prog) (ctx : KConfuzzConfigContext) :
    q ⊆ env.quarantineContext q prg ctx := by
  unfold quarantineContext
  split
  · exact List.Subset.refl q
  · exact List.subset_cons_self _ q

lemma contextQuarantineKey_eq_none_iff :
    env.contextQuarantineKey prg ctx = none ↔
      normalizeKConfuzzConfigActions (some prg) ctx.actions = [] := by
  unfold contextQuarantineKey KConfuzzConfigContext.cloneForProg
  dsimp only
  split_ifs <;> simp_all

/-- A context with actions in range is quarantined once `QuarantineContext` was called. -/
lemma contextQuarantined_quarantineContext
    (h : normalizeKConfuzzConfigActions (some prg) ctx.actions ≠ []) :
    env.contextQuarantined (env.quarantineContext q prg ctx) prg ctx := by
  unfold contextQuarantined quarantineContext
  cases hkey : env.contextQuarantineKey prg ctx with
  | none => exact absurd (contextQuarantineKey_eq_none_iff.1 hkey) h
  | some key => simp

/-- `FilterSupportedContext` drops a context that is quarantined, as it is or with only its
supported actions, and one that is left without actions and is not config dependent. -/
lemma filterSupportedContext_eq (q : List String) (ctx : KConfuzzConfigContext) (prg : Prog) :
    env.filterSupportedContext q ctx prg =
      if env.contextQuarantined q prg ctx ∨
          env.contextQuarantined q prg { ctx with actions := env.supportedFor prg ctx.actions } ∨
          env.supportedFor prg ctx.actions = [] ∧ ctx.configDependent = false then none
      else some { ctx with actions := env.supportedFor prg ctx.actions } := by
  have hsupported : filterSupportedActions env.registry
      (normalizeKConfuzzConfigActions (some prg) ctx.actions) = env.supportedFor prg ctx.actions :=
    filterSupportedActions_normalize _ _
  unfold filterSupportedContext KConfuzzConfigContext.cloneForProg
  by_cases hempty : normalizeKConfuzzConfigActions (some prg) ctx.actions = [] ∧
      ctx.configDependent = false
  · rw [if_pos (by simpa using hempty), if_pos]
    rw [← hsupported, hempty.1]
    exact .inr (.inr ⟨rfl, hempty.2⟩)
  · rw [if_neg (by simpa using hempty)]
    simp only [contextQuarantined_normalize, hsupported]
    split_ifs <;> simp_all

lemma filterSupportedContext_eq_some {c : KConfuzzConfigContext}
    (h : env.filterSupportedContext q c prg = some ctx) :
    ctx = { c with actions := env.supportedFor prg c.actions } ∧
      env.contextQuarantined q prg ctx = false ∧
      (ctx.actions = [] → ctx.configDependent = true) := by
  rw [filterSupportedContext_eq] at h
  split at h
  · cases h
  · next hkept =>
    push Not at hkept
    obtain rfl := Option.some.inj h
    exact ⟨rfl, by simpa using hkept.2.1, fun hnil => by simpa using hkept.2.2 hnil⟩

end Env

end KConfuzz
