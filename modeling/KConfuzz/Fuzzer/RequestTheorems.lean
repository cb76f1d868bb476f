import KConfuzz.Fuzzer.Request
import KConfuzz.Planner.EnvTheorems
import KConfuzz.Planner.SafetyTheorems

/-!
# Which actions a request executes

`prepareEnabled` has one equation for each of the three ways a request can come: with actions,
with a context only, and with neither. The runner adds a second decision: a prepared request
without actions is planned for once more. What becomes of quarantined contexts, of dropped
contexts and of triage requests all follows from these equations.
-/

namespace KConfuzz

open List Env

variable {env : Env} {q : List String} {p : Prog} {req : Request}

/-! ## The first stage -/

/-- The context that carried actions end up in: the request's own if it survives the filter. -/
def carriedContext (env : Env) (q : List String) (p : Prog) (req : Request) :
    KConfuzzConfigContext :=
  (req.kconfuzzConfigContext.bind (env.filterSupportedContext q · p)).getD
    (requestActionsContext req.kconfuzzConfigActions)

/-- A request that comes with actions keeps the supported ones in range, and nothing at all
when there are none. -/
lemma prepareEnabled_of_actions (h : req.kconfuzzConfigActions ≠ []) :
    prepareEnabled env q p req =
      if env.supportedFor p req.kconfuzzConfigActions = [] then
        { req with kconfuzzConfigActions := [], kconfuzzConfigContext := none }
      else
        { req with
          kconfuzzConfigActions := env.supportedFor p req.kconfuzzConfigActions
          kconfuzzConfigContext := some
            { carriedContext env q p req with
              actions := env.supportedFor p req.kconfuzzConfigActions } } := by
  obtain ⟨a, rest, hactions⟩ := exists_cons_of_ne_nil h
  unfold prepareEnabled carriedContext supportedFor
  simp [hactions]

variable {c : KConfuzzConfigContext}

/-- What is left of a request with a context. -/
lemma prepareEnabled_of_context (h : req.kconfuzzConfigActions = [])
    (hc : req.kconfuzzConfigContext = some c) :
    prepareEnabled env q p req =
      match env.filterSupportedContext q c p with
      | none => { req with kconfuzzConfigActions := [], kconfuzzConfigContext := none }
      | some ctx =>
        { req with kconfuzzConfigActions := ctx.actions, kconfuzzConfigContext := some ctx } := by
  unfold prepareEnabled
  simp only [h, hc, Option.bind_some, Option.isSome_some]
  cases hfilter : env.filterSupportedContext q c p with
  | none => simp
  | some ctx =>
    have hprepared : env.Prepared p ctx.actions := by
      rw [(filterSupportedContext_eq_some hfilter).1]
      exact prepared_supportedFor _
    cases hactions : ctx.actions with
    | nil => simp [hactions]
    | cons a rest =>
      have hsame : normalizeKConfuzzConfigActions (some p)
          (filterSupportedActions env.registry (a :: rest)) = a :: rest := by
        rw [← hactions]
        exact hprepared.supportedFor_eq
      simp only [isEmpty_cons, Bool.not_false, if_true, hsame, Option.getD_some, hactions]
      rw [if_neg (by simp), ← hactions]

lemma prepareEnabled_of_fresh (h : req.kconfuzzConfigActions = [])
    (hc : req.kconfuzzConfigContext = none) :
    prepareEnabled env q p req =
      { req with
        kconfuzzConfigActions := env.planFromEnv p
        kconfuzzConfigContext := env.planContextFromEnv p } := by
  unfold prepareEnabled planFromEnv
  simp only [h, hc, Option.bind_none]
  cases env.planContextFromEnv p <;> simp

/-- A prepared request carries actions that are ready for the program, in its context as well. -/
lemma prepareEnabled_spec :
    let r := prepareEnabled env q p req
    env.Prepared p r.kconfuzzConfigActions ∧
      r.kconfuzzConfigContext.elim [] KConfuzzConfigContext.actions = r.kconfuzzConfigActions ∧
      r.kconfuzzConfigDisabled = req.kconfuzzConfigDisabled := by
  intro r
  unfold r
  by_cases hactions : req.kconfuzzConfigActions = []
  · cases hc : req.kconfuzzConfigContext with
    | none =>
      rw [prepareEnabled_of_fresh hactions hc]
      exact ⟨prepared_planFromEnv, by rw [planFromEnv], rfl⟩
    | some c =>
      rw [prepareEnabled_of_context hactions hc]
      cases hfilter : env.filterSupportedContext q c p with
      | none => exact ⟨prepared_nil, rfl, rfl⟩
      | some ctx =>
        obtain ⟨rfl, -⟩ := filterSupportedContext_eq_some hfilter
        exact ⟨prepared_supportedFor _, rfl, rfl⟩
  · rw [prepareEnabled_of_actions hactions]
    split
    · exact ⟨prepared_nil, rfl, rfl⟩
    · exact ⟨prepared_supportedFor _, rfl, rfl⟩

/-! ## The second stage -/

lemma sendRequestActions_eq (hdisabled : req.kconfuzzConfigDisabled = false)
    (hc : req.kconfuzzConfigContext.elim [] KConfuzzConfigContext.actions =
      req.kconfuzzConfigActions) :
    sendRequestActions env p req =
      if req.kconfuzzConfigActions = [] then env.planFromEnv p else req.kconfuzzConfigActions := by
  unfold sendRequestActions
  cases hctx : req.kconfuzzConfigContext <;> rw [hctx] at hc <;> simp [hdisabled, ← hc]

/-! ## Both stages -/

/-- A program request for `p`. -/
structure ForProg (p : Prog) (req : Request) : Prop where
  isProgram : req.type = .program
  prog_eq : req.prog = some p

namespace ForProg

lemma prepareKConfuzz_of_disabled (hdisabled : req.kconfuzzConfigDisabled = true) :
    prepareKConfuzz env q req = req := by
  unfold prepareKConfuzz
  split
  · next hfalse =>
    rw [hfalse] at hdisabled
    cases hdisabled
  · rfl

section

variable (h : ForProg p req) (hdisabled : req.kconfuzzConfigDisabled = false)

include h hdisabled

lemma prepareKConfuzz_of_not_enabled (henabled : env.actionsEnabled = false) :
    prepareKConfuzz env q req =
      { req with kconfuzzConfigActions := [], kconfuzzConfigContext := none } := by
  simp [prepareKConfuzz, h.isProgram, h.prog_eq, hdisabled, henabled]

lemma executedActions_of_not_enabled (henabled : env.actionsEnabled = false) :
    executedActions env q p req = [] := by
  rw [executedActions, h.prepareKConfuzz_of_not_enabled hdisabled henabled]
  have hplan : env.planFromEnv p = [] := planFromEnv_eq_nil_iff.mpr (.inl henabled)
  simp [sendRequestActions, hdisabled, hplan]

variable (henabled : env.actionsEnabled = true)

include henabled

lemma prepareKConfuzz_of_enabled : prepareKConfuzz env q req = prepareEnabled env q p req := by
  simp [prepareKConfuzz, h.isProgram, h.prog_eq, hdisabled, henabled]

lemma executedActions_of_enabled :
    executedActions env q p req =
      if (prepareEnabled env q p req).kconfuzzConfigActions = [] then env.planFromEnv p
      else (prepareEnabled env q p req).kconfuzzConfigActions := by
  obtain ⟨-, hc, hsame⟩ := @prepareEnabled_spec env q p req
  rw [executedActions, h.prepareKConfuzz_of_enabled hdisabled henabled,
    sendRequestActions_eq (hsame.trans hdisabled) hc]

lemma executedActions_of_actions (hactions : req.kconfuzzConfigActions ≠ []) :
    executedActions env q p req =
      if env.supportedFor p req.kconfuzzConfigActions = [] then env.planFromEnv p
      else env.supportedFor p req.kconfuzzConfigActions := by
  rw [h.executedActions_of_enabled hdisabled henabled, prepareEnabled_of_actions hactions]
  by_cases hnil : env.supportedFor p req.kconfuzzConfigActions = [] <;> simp [hnil]

lemma executedActions_of_context (hactions : req.kconfuzzConfigActions = [])
    (hc : req.kconfuzzConfigContext = some c) :
    executedActions env q p req =
      match env.filterSupportedContext q c p with
      | none => env.planFromEnv p
      | some ctx => if ctx.actions = [] then env.planFromEnv p else ctx.actions := by
  rw [h.executedActions_of_enabled hdisabled henabled, prepareEnabled_of_context hactions hc]
  cases env.filterSupportedContext q c p with
  | none => rfl
  | some ctx => rfl

lemma executedActions_of_fresh (hactions : req.kconfuzzConfigActions = [])
    (hc : req.kconfuzzConfigContext = none) :
    executedActions env q p req = env.planFromEnv p := by
  rw [h.executedActions_of_enabled hdisabled henabled, prepareEnabled_of_fresh hactions hc, ite_self]

end

lemma executedActions_of_disabled (hdisabled : req.kconfuzzConfigDisabled = true) :
    executedActions env q p req = [] := by
  rw [executedActions, prepareKConfuzz_of_disabled hdisabled]
  simp [sendRequestActions, hdisabled]

end ForProg

/-! ## Quarantine -/

/-- The ways a later request for the program of a quarantined context can come. -/
inductive LaterRequest where
  | fresh
  | context
  | actions
deriving DecidableEq, Repr

/-- What the request carries of the context `c`; one that carries its actions, as a request
that is enqueued again does, may have any context with them. -/
def LaterRequest.Carries (c : KConfuzzConfigContext) (req : Request) : LaterRequest → Prop
  | fresh => req.kconfuzzConfigActions = [] ∧ req.kconfuzzConfigContext = none
  | context => req.kconfuzzConfigActions = [] ∧ req.kconfuzzConfigContext = some c
  | actions => req.kconfuzzConfigActions = c.actions

/-- The actions of a context as they are executed with the program. -/
def actionsFor (p : Prog) (c : KConfuzzConfigContext) : List KConfuzzConfigAction :=
  normalizeKConfuzzConfigActions (some p) c.actions

/-- The quarantine set after further calls of `QuarantineContext`. -/
def quarantineAll (env : Env) (q : List String) (events : List (Prog × KConfuzzConfigContext)) :
    List String :=
  events.foldl (fun q event => env.quarantineContext q event.1 event.2) q

lemma subset_quarantineAll (q : List String) (events : List (Prog × KConfuzzConfigContext)) :
    q ⊆ quarantineAll env q events :=
  foldlRecOn (motive := fun q' => q ⊆ q') events _ (Subset.refl q)
    fun q' hq event _ => Subset.trans hq (subset_quarantineContext q' event.1 event.2)

/-- When the quarantine keeps the actions of `c` from a request that comes this way. -/
def LaterRequest.Kept (env : Env) (p : Prog) (c : KConfuzzConfigContext) : LaterRequest → Prop
  | fresh | context => env.planFromEnv p ≠ actionsFor p c
  | actions => ∃ a ∈ c.actions, a.inRange (some p) ∧ supportedAction env.registry a = false

lemma supportedFor_eq_actionsFor_iff :
    env.supportedFor p c.actions = actionsFor p c ↔
      ∀ a ∈ c.actions, a.inRange (some p) → supportedAction env.registry a := by
  rw [supportedFor, ← filterSupportedActions_normalize, filterSupportedActions, actionsFor,
    filter_eq_self]
  simp only [mem_normalizeKConfuzzConfigActions, and_imp]

/-- After a context was quarantined for `p`, a later request for `p` executes other actions
exactly when it is disabled, actions are disabled, or: the planner plans something else (for a
request that has to be planned for), the filter takes an action away (for one that carries the
actions). -/
theorem executedActions_ne_iff_of_quarantined {c : KConfuzzConfigContext} (kind : LaterRequest)
    (events : List (Prog × KConfuzzConfigContext)) (hreq : ForProg p req)
    (hc : actionsFor p c ≠ []) (hcarries : kind.Carries c req) :
    executedActions env (quarantineAll env (env.quarantineContext q p c) events) p req ≠
        actionsFor p c ↔
      req.kconfuzzConfigDisabled = true ∨ env.actionsEnabled = false ∨ kind.Kept env p c := by
  have hquarantined :
      env.contextQuarantined (quarantineAll env (env.quarantineContext q p c) events) p c :=
    Env.contextQuarantined_mono (subset_quarantineAll _ _)
      (Env.contextQuarantined_quarantineContext hc)
  generalize quarantineAll env (env.quarantineContext q p c) events = q' at hquarantined ⊢
  cases hdisabled : req.kconfuzzConfigDisabled with
  | true => simpa [ForProg.executedActions_of_disabled hdisabled] using hc.symm
  | false =>
    cases henabled : env.actionsEnabled with
    | false => simpa [hreq.executedActions_of_not_enabled hdisabled henabled] using hc.symm
    | true =>
      simp only [Bool.false_eq_true, Bool.true_eq_false, false_or]
      cases kind with
      | fresh =>
        rw [hreq.executedActions_of_fresh hdisabled henabled hcarries.1 hcarries.2]
        rfl
      | context =>
        have hdropped : env.filterSupportedContext q' c p = none := by
          rw [Env.filterSupportedContext_eq, if_pos (.inl hquarantined)]
        rw [hreq.executedActions_of_context hdisabled henabled hcarries.1 hcarries.2, hdropped]
        rfl
      | actions =>
        have hcarried : req.kconfuzzConfigActions = c.actions := hcarries
        have hne : req.kconfuzzConfigActions ≠ [] := by
          rw [hcarried]
          rintro hnil
          exact hc (by rw [actionsFor, hnil]; rfl)
        rw [hreq.executedActions_of_actions hdisabled henabled hne, hcarried]
        have hkept : LaterRequest.actions.Kept env p c ↔
            env.supportedFor p c.actions ≠ actionsFor p c := by
          rw [ne_eq, supportedFor_eq_actionsFor_iff]
          simp [LaterRequest.Kept]
        rw [hkept]
        split
        · next hnil =>
          -- planned actions are supported, and none of `c` in range is
          refine iff_of_true (fun hplan => ?_) (by rw [hnil]; exact hc.symm)
          obtain ⟨a, ha⟩ := exists_mem_of_ne_nil _ hc
          have hsupported := Env.prepared_planFromEnv.supported a (hplan ▸ ha)
          rw [actionsFor, mem_normalizeKConfuzzConfigActions] at ha
          rw [Env.supportedFor_eq_nil_iff.mp hnil a ha.1 ha.2] at hsupported
          cases hsupported
        · rfl

variable (serialize : Prog → List UInt8)
  (marshal : String → String → Bool → Option (List KConfuzzConfigAction) → List UInt8)
  (hashString : List UInt8 → List UInt8 → String)

/-- An environment with a table that relates `bpf$PROG_LOAD` to `abi/vsyscall32`. -/
def bpfEnv : Env :=
  { registry := sampleRegistry
    getenv := fun name => if name = relationTableEnv then "relations.jsonl" else ""
    relationFile := fun _ => some (bpfTable "abi/vsyscall32")
    serialize, marshal, hashString }

/-- A program of one call, `bpf$PROG_LOAD`. -/
def bpfProg : Prog :=
  { target := { syscalls := [{ id := 0, name := "bpf$PROG_LOAD" }], dataOffset := 0, specialPointers := [] }
    calls := [{ callMeta := { id := 0, name := "bpf$PROG_LOAD" }, args := [], ret := none, props := .zero }]
    callMeta_mem := by simp }

lemma bpfEnv_plans : ¬ (bpfEnv serialize marshal hashString).PlansNothing bpfProg := by
  set env := bpfEnv serialize marshal hashString
  have hgetenv : ∀ name, name ≠ relationTableEnv → trimSpace (env.getenv name) = "" := by
    intro name hname
    rw [show env.getenv name = "" from if_neg hname]
    decide
  rintro (hdisabled | hnothing)
  · revert hdisabled
    unfold actionsEnabled envEnabled
    rw [hgetenv _ (by decide)]
    decide
  · obtain ⟨planner, hload⟩ := exists_loadRelationTable sampleRegistry [bpfRow "abi/vsyscall32"]
    have hplanner : env.plannerFromEnv = some planner := by
      show (loadRelationTable sampleRegistry (bpfTable "abi/vsyscall32")).toOption = some planner
      exact congrArg Except.toOption hload
    obtain ⟨-, hlimit | hcall⟩ := hnothing planner hplanner
    · revert hlimit
      unfold optionsFromEnv strategyFromEnv limitFromEnv intFromEnv
      rw [hgetenv _ (by decide), hgetenv _ (by decide), hgetenv _ (by decide),
        hgetenv _ (by decide), hgetenv _ (by decide)]
      decide
    · have hparam := (mem_paramsOf_iff hload).mpr ⟨_, mem_singleton.mpr rfl, rfl,
        show rowVerdict sampleRegistry _ = .loaded vsyscall32Param by decide⟩
      have hnone : paramsOf planner.callToParams (bpfRow "abi/vsyscall32").syzkallerCall = [] :=
        (planner.hasRelatedCall_eq_false_iff.mp hcall) _ mem_cons_self
      rw [hnone] at hparam
      cases hparam

lemma bpfEnv_actionsEnabled : (bpfEnv serialize marshal hashString).actionsEnabled = true := by
  simpa using fun hfalse => bpfEnv_plans serialize marshal hashString (.inl hfalse)

/-- A context with a supported action and one that the registry does not know. -/
def mixedContext : KConfuzzConfigContext :=
  { strategy := "sequence", source := "corpus", configDependent := false
    actions := [⟨0, 0, 1, 0⟩, ⟨0, 99999, 0, 0⟩] }

/-- `bpfEnv` with stand-ins for the functions behind a quarantine key. -/
def sampleEnv : Env := bpfEnv (fun _ => []) (fun _ _ _ _ => []) fun _ _ => ""

lemma sampleEnv_plans : ¬ sampleEnv.PlansNothing bpfProg := bpfEnv_plans _ _ _

lemma sampleEnv_actionsEnabled : sampleEnv.actionsEnabled = true := bpfEnv_actionsEnabled _ _ _

theorem executedActions_ne_mixedContext :
    actionsFor bpfProg mixedContext ≠ [] ∧
      executedActions sampleEnv
        (quarantineAll sampleEnv (sampleEnv.quarantineContext [] bpfProg mixedContext) []) bpfProg
        { Request.new bpfProg with kconfuzzConfigActions := mixedContext.actions } ≠
          actionsFor bpfProg mixedContext := by
  refine ⟨by decide,
    (executedActions_ne_iff_of_quarantined .actions [] ⟨rfl, rfl⟩ (by decide) ?_).mpr ?_⟩
  · rfl
  · exact .inr (.inr ⟨⟨0, 99999, 0, 0⟩, by decide, by decide, by decide⟩)

/-- The planner is deterministic: a fresh request for the program of a quarantined context
executes it again. -/
theorem quarantined_context_executed :
    ∃ c, actionsFor bpfProg c ≠ [] ∧
      executedActions sampleEnv (sampleEnv.quarantineContext [] bpfProg c) bpfProg
        (Request.new bpfProg) = actionsFor bpfProg c := by
  have hplans := mt Env.planContextFromEnv_eq_none_iff.mp sampleEnv_plans
  obtain ⟨c, hc⟩ := Option.ne_none_iff_exists'.mp hplans
  obtain ⟨henabled, hne, hprepared, -⟩ := Env.planContextFromEnv_spec hc
  have hactions : actionsFor bpfProg c = c.actions :=
    normalizeKConfuzzConfigActions_eq_self hprepared.sorted hprepared.inRange
  refine ⟨c, hactions ▸ hne, ?_⟩
  rw [ForProg.executedActions_of_fresh ⟨rfl, rfl⟩ rfl henabled rfl rfl, Env.planFromEnv, hc,
    hactions]
  rfl

/-! ## Agreement of the two stages -/

/-- The runner serializes exactly the actions that preparing left on the request. -/
def StagesAgree (env : Env) (q : List String) (p : Prog) (req : Request) : Prop :=
  ((prepareKConfuzz env q req).kconfuzzConfigActions = [] → executedActions env q p req = []) ∧
    ((prepareKConfuzz env q req).kconfuzzConfigActions ≠ [] →
      executedActions env q p req = (prepareKConfuzz env q req).kconfuzzConfigActions)

/-- Some of what the request carries is left after filtering. -/
def Survives (env : Env) (q : List String) (p : Prog) (req : Request) : Prop :=
  (∃ a ∈ req.kconfuzzConfigActions, a.inRange (some p) ∧ supportedAction env.registry a) ∨
    req.kconfuzzConfigActions = [] ∧ ∃ c, req.kconfuzzConfigContext = some c ∧
      env.contextQuarantined q p c = false ∧
      env.contextQuarantined q p { c with actions := env.supportedFor p c.actions } = false ∧
      ∃ a ∈ c.actions, a.inRange (some p) ∧ supportedAction env.registry a

lemma exists_supported_iff {actions : List KConfuzzConfigAction} :
    (∃ a ∈ actions, a.inRange (some p) ∧ supportedAction env.registry a) ↔
      env.supportedFor p actions ≠ [] := by
  rw [ne_eq, supportedFor_eq_nil_iff]
  simp

lemma survives_iff_of_actions (h : req.kconfuzzConfigActions ≠ []) :
    Survives env q p req ↔ env.supportedFor p req.kconfuzzConfigActions ≠ [] := by
  rw [← exists_supported_iff, Survives, or_iff_left fun hnil => h hnil.1]

/-- A context survives if a supported action of it is in range. -/
lemma survives_iff_of_context (h : req.kconfuzzConfigActions = [])
    (hc : req.kconfuzzConfigContext = some c) :
    Survives env q p req ↔
      ∃ ctx, env.filterSupportedContext q c p = some ctx ∧ ctx.actions ≠ [] := by
  have hsurvives : Survives env q p req ↔ env.contextQuarantined q p c = false ∧
      env.contextQuarantined q p { c with actions := env.supportedFor p c.actions } = false ∧
      env.supportedFor p c.actions ≠ [] := by
    rw [← exists_supported_iff]
    simp [Survives, h, hc]
  rw [hsurvives, filterSupportedContext_eq]
  split
  · next hdropped =>
    simp only [reduceCtorEq, false_and, exists_false, iff_false]
    rintro ⟨hquarantined, hsupported, hne⟩
    rcases hdropped with hdropped | hdropped | hdropped
    · exact absurd (hquarantined.symm.trans hdropped) Bool.false_ne_true
    · exact absurd (hsupported.symm.trans hdropped) Bool.false_ne_true
    · exact hne hdropped.1
  · next hkept =>
    push Not at hkept
    simp only [Option.some.injEq, exists_eq_left', ne_eq]
    exact ⟨fun hall => hall.2.2, fun hne => ⟨by simpa using hkept.1, by simpa using hkept.2.1, hne⟩⟩

/-- The stages agree on a disabled request that carries no actions. On any other request they
agree exactly when there is nothing to plan for the program, the request carries nothing, or
some of what it carries is left: a request whose context or actions were dropped is planned for
by the runner. -/
theorem stagesAgree_iff (hreq : ForProg p req) :
    StagesAgree env q p req ↔
      if req.kconfuzzConfigDisabled then req.kconfuzzConfigActions = []
      else env.PlansNothing p ∨
        (req.kconfuzzConfigActions = [] ∧ req.kconfuzzConfigContext = none) ∨
        Survives env q p req := by
  unfold StagesAgree
  cases hdisabled : req.kconfuzzConfigDisabled with
  | true =>
    rw [ForProg.executedActions_of_disabled hdisabled,
      ForProg.prepareKConfuzz_of_disabled hdisabled]
    grind
  | false =>
    cases henabled : env.actionsEnabled with
    | false =>
      rw [hreq.executedActions_of_not_enabled hdisabled henabled,
        hreq.prepareKConfuzz_of_not_enabled hdisabled henabled]
      simp [Env.PlansNothing, henabled]
    | true =>
      rw [hreq.prepareKConfuzz_of_enabled hdisabled henabled, ← Env.planFromEnv_eq_nil_iff]
      by_cases hactions : req.kconfuzzConfigActions = []
      · cases hc : req.kconfuzzConfigContext with
        | none =>
          rw [hreq.executedActions_of_fresh hdisabled henabled hactions hc,
            prepareEnabled_of_fresh hactions hc]
          simp [hactions]
        | some c =>
          rw [hreq.executedActions_of_context hdisabled henabled hactions hc,
            prepareEnabled_of_context hactions hc, survives_iff_of_context hactions hc]
          cases env.filterSupportedContext q c p with
          | none => simp
          | some ctx => by_cases hnil : ctx.actions = [] <;> simp [hnil]
      · rw [hreq.executedActions_of_actions hdisabled henabled hactions,
          prepareEnabled_of_actions hactions, survives_iff_of_actions hactions]
        by_cases hnil : env.supportedFor p req.kconfuzzConfigActions = []
        · simp [hnil, hactions]
        · simp [hnil]

/-- A request that carries a supported action runs with it. -/
theorem stagesAgree_supported_action :
    StagesAgree sampleEnv [] bpfProg
      { Request.new bpfProg with kconfuzzConfigActions := [⟨0, 0, 1, 0⟩] } := by
  refine (stagesAgree_iff ⟨rfl, rfl⟩).mpr ?_
  exact .inr (.inr (.inl ⟨⟨0, 0, 1, 0⟩, by decide, by decide, by decide⟩))

/-- A context that nothing is left of. -/
def staleContext : KConfuzzConfigContext :=
  { strategy := "sequence", source := "corpus", configDependent := false
    actions := [⟨0, 99999, 0, 0⟩] }

/-- A request whose context was dropped is prepared to run without actions, and the runner
plans actions for it. -/
theorem not_stagesAgree_staleContext :
    ¬ StagesAgree sampleEnv [] bpfProg
      { Request.new bpfProg with kconfuzzConfigContext := some staleContext } := by
  intro hagree
  have henabled := sampleEnv_actionsEnabled
  have hdropped : sampleEnv.filterSupportedContext [] staleContext bpfProg = none := by
    rw [Env.filterSupportedContext_eq, if_pos (.inr (.inr ⟨rfl, rfl⟩))]
  have hnil := hagree.1 (by
    rw [ForProg.prepareKConfuzz_of_enabled ⟨rfl, rfl⟩ rfl henabled,
      prepareEnabled_of_context rfl rfl, hdropped])
  exact sampleEnv_plans (Env.planFromEnv_eq_nil_iff.mp hnil)

/-! ## Triage requests -/

/-- A triage job with a configuration puts what is left of it for the program on the
request. -/
lemma triageRequest_spec {originSig : String} {r : Request}
    (hr : triageRequest originSig (some c) false req = r) (hreq : ForProg p req)
    (hdisabled : req.kconfuzzConfigDisabled = false) (hactions : req.kconfuzzConfigActions = []) :
    ForProg p r ∧ r.kconfuzzConfigDisabled = false ∧
      r.kconfuzzConfigContext = c.cloneForProg (some p) ∧
      r.kconfuzzConfigActions =
        (c.cloneForProg (some p)).elim [] KConfuzzConfigContext.actions := by
  rw [← hr, ← hreq.prog_eq]
  unfold triageRequest
  cases hclone : c.cloneForProg req.prog with
  | none =>
    simp only [hclone, Bool.false_eq_true, if_false]
    split <;> exact ⟨⟨hreq.isProgram, hreq.prog_eq⟩, hdisabled, rfl, hactions⟩
  | some ctx =>
    simp only [hclone, Bool.false_eq_true, if_false]
    split <;> exact ⟨⟨hreq.isProgram, hreq.prog_eq⟩, hdisabled, rfl, rfl⟩

/-- After a triage job put the context `c` on a request, preparing leaves a part of the
supported actions of `c` that are in range, and no other action is executed. -/
def RunsConfig (env : Env) (q : List String) (p : Prog) (c : KConfuzzConfigContext)
    (req : Request) : Prop :=
  (prepareKConfuzz env q req).kconfuzzConfigActions.Sublist (env.supportedFor p c.actions) ∧
    (executedActions env q p req).Sublist (env.supportedFor p c.actions)

/-- What is executed decides: a prepared request runs with its actions if it has any. -/
lemma runsConfig_iff (hprog : ForProg p req) (hdisabled : req.kconfuzzConfigDisabled = false)
    (henabled : env.actionsEnabled = true) :
    RunsConfig env q p c req ↔
      (executedActions env q p req).Sublist (env.supportedFor p c.actions) := by
  refine and_iff_right_of_imp fun hexecuted => ?_
  rw [hprog.executedActions_of_enabled hdisabled henabled] at hexecuted
  rw [hprog.prepareKConfuzz_of_enabled hdisabled henabled]
  split at hexecuted
  · next hnil => rw [hnil]; exact nil_sublist _
  · exact hexecuted

/-- A request that carries a context and its actions runs what is supported of them, and is
planned for when nothing is. -/
lemma ForProg.executedActions_of_carried (hprog : ForProg p req)
    (hdisabled : req.kconfuzzConfigDisabled = false) (henabled : env.actionsEnabled = true)
    {ctx : KConfuzzConfigContext} (hctx : req.kconfuzzConfigContext = some ctx)
    (hactions : req.kconfuzzConfigActions = ctx.actions) :
    executedActions env q p req =
      if env.supportedFor p ctx.actions = [] then env.planFromEnv p
      else env.supportedFor p ctx.actions := by
  by_cases hnil : req.kconfuzzConfigActions = []
  · rw [hprog.executedActions_of_context hdisabled henabled hnil hctx, ← hactions, hnil,
      if_pos (by rfl)]
    split
    · rfl
    · next hfilter =>
      rw [(filterSupportedContext_eq_some hfilter).1, ← hactions, hnil]
      exact if_pos rfl
  · rw [hprog.executedActions_of_actions hdisabled henabled hnil, hactions]

/-- A triage request runs the configuration it was given exactly when a supported action of the
configuration is in range for the program, or there is nothing to plan. Otherwise new actions are
planned: by `prepareKConfuzz` when the context is gone before, and by the runner when it is
not. -/
theorem runsConfig_triageRequest_iff {originSig : String} {c : KConfuzzConfigContext}
    (hreq : ForProg p req) (hdisabled : req.kconfuzzConfigDisabled = false)
    (hactions : req.kconfuzzConfigActions = []) :
    RunsConfig env q p c (triageRequest originSig (some c) false req) ↔
      (∃ a ∈ c.actions, a.inRange (some p) ∧ supportedAction env.registry a) ∨
        env.PlansNothing p := by
  generalize hr : triageRequest originSig (some c) false req = r
  obtain ⟨hprog, hdisabled, hctx, hactions⟩ := triageRequest_spec hr hreq hdisabled hactions
  cases henabled : env.actionsEnabled with
  | false =>
    simp [RunsConfig, hprog.prepareKConfuzz_of_not_enabled hdisabled henabled,
      hprog.executedActions_of_not_enabled hdisabled henabled, Env.PlansNothing, henabled]
  | true =>
    have hexecuted : executedActions env q p r =
        if env.supportedFor p c.actions = [] then env.planFromEnv p
        else env.supportedFor p c.actions := by
      cases hclone : c.cloneForProg (some p) with
      | none =>
        -- nothing is left of the context: the request is planned for like a fresh one
        rw [hclone] at hctx hactions
        rw [hprog.executedActions_of_fresh hdisabled henabled hactions hctx,
          ← Env.supportedFor_normalize,
          (KConfuzzConfigContext.cloneForProg_eq_none_iff.mp hclone).1]
        exact (if_pos rfl).symm
      | some ctx =>
        rw [hclone] at hctx hactions
        rw [hprog.executedActions_of_carried hdisabled henabled hctx hactions,
          KConfuzzConfigContext.eq_of_cloneForProg hclone, Env.supportedFor_normalize]
    rw [runsConfig_iff hprog hdisabled henabled, hexecuted, exists_supported_iff,
      ← Env.planFromEnv_eq_nil_iff]
    split
    · next hnil => simp [hnil]
    · next hne => exact iff_of_true (Sublist.refl _) (.inl hne)

/-- Nothing is left of `mixedContext`'s actions but the supported one. -/
theorem runsConfig_mixedContext :
    RunsConfig sampleEnv [] bpfProg mixedContext
      (triageRequest "" (some mixedContext) false (Request.new bpfProg)) :=
  (runsConfig_triageRequest_iff ⟨rfl, rfl⟩ rfl rfl).mpr (.inl ⟨⟨0, 0, 1, 0⟩, by decide, by decide, by decide⟩)

/-- A context made for a longer program. -/
def lateContext : KConfuzzConfigContext :=
  { strategy := "call", source := "corpus", configDependent := false
    actions := [⟨5, 0, 1, 0⟩] }

/-- For a program that is too short for its actions, a context is replaced by new actions. -/
theorem not_runsConfig_lateContext :
    ¬ RunsConfig sampleEnv [] bpfProg lateContext
      (triageRequest "" (some lateContext) false (Request.new bpfProg)) := by
  rintro ⟨-, hexecuted⟩
  have hnil := sublist_nil.mp hexecuted
  rw [ForProg.executedActions_of_fresh ⟨rfl, rfl⟩ rfl sampleEnv_actionsEnabled rfl rfl] at hnil
  exact sampleEnv_plans (Env.planFromEnv_eq_nil_iff.mp hnil)

end KConfuzz
