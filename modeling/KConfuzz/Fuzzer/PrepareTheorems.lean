import KConfuzz.Exec.ErrorTheorems
import KConfuzz.Fuzzer.RequestTheorems

/-!
# What preparing a request guarantees

A prepared request carries sorted, supported actions in range of its program, and a context with
the same actions (`wellPrepared_prepareEnabled`). Requests are prepared again on every retry.
That leaves a request alone only under a condition on what it came with (`PrepareStable`): one
that lost what it carried looks like a fresh one the next time, and a context that is quarantined
with its final actions is replaced.
-/

namespace KConfuzz

open Env

variable {env : Env} {q : List String} {p : Prog} {req : Request} {c : KConfuzzConfigContext}

/-! ## The first time -/

/-- A request with actions that can be serialized and a context that agrees with them. -/
structure WellPrepared (env : Env) (p : Prog) (req : Request) : Prop where
  prepared : env.Prepared p req.kconfuzzConfigActions
  context : req.kconfuzzConfigActions ≠ [] → ∃ ctx, req.kconfuzzConfigContext = some ctx ∧
    ctx.actions = req.kconfuzzConfigActions
  serializes : ∀ exec index calls,
    p.serializeForExecWithKConfuzz exec req.kconfuzzConfigActions ≠
      .error (.badCallIndex index calls)

lemma wellPrepared_prepareEnabled : WellPrepared env p (prepareEnabled env q p req) := by
  obtain ⟨hprepared, hcontext, -⟩ := @prepareEnabled_spec env q p req
  refine ⟨hprepared, fun hne => ?_, fun exec index calls herr => ?_⟩
  · rw [← hcontext] at hne
    cases hctx : (prepareEnabled env q p req).kconfuzzConfigContext with
    | none => exact absurd (by rw [hctx]; rfl) hne
    | some ctx => exact ⟨ctx, rfl, by rw [← hcontext, hctx]; rfl⟩
  · obtain ⟨a, ha, hout⟩ := serializeForExecWithKConfuzz_badCallIndex_iff.1 ⟨index, calls, herr⟩
    rw [hprepared.inRange a ha] at hout
    cases hout

/-! ## The second time -/

/-- Preparing leaves the actions and the context as they are. -/
def PrepareKeeps (env : Env) (q : List String) (req : Request) : Prop :=
  (prepareKConfuzz env q req).kconfuzzConfigActions = req.kconfuzzConfigActions ∧
    (prepareKConfuzz env q req).kconfuzzConfigContext = req.kconfuzzConfigContext

section Again

variable (hreq : ForProg p req) (hdisabled : req.kconfuzzConfigDisabled = false)
  (henabled : env.actionsEnabled = true)

include hreq hdisabled henabled

lemma prepareKConfuzz_carrying (actions : List KConfuzzConfigAction)
    (ctx : Option KConfuzzConfigContext) :
    prepareKConfuzz env q
        { req with kconfuzzConfigActions := actions, kconfuzzConfigContext := ctx } =
      prepareEnabled env q p
        { req with kconfuzzConfigActions := actions, kconfuzzConfigContext := ctx } :=
  ForProg.prepareKConfuzz_of_enabled ⟨hreq.isProgram, hreq.prog_eq⟩ hdisabled henabled

lemma prepareKeeps_iff_of_fresh :
    PrepareKeeps env q { req with kconfuzzConfigActions := [], kconfuzzConfigContext := none } ↔
      env.PlansNothing p := by
  rw [PrepareKeeps, prepareKConfuzz_carrying hreq hdisabled henabled,
    prepareEnabled_of_fresh rfl rfl]
  rw [planFromEnv_eq_nil_iff, planContextFromEnv_eq_none_iff, and_self]

lemma prepareKeeps_of_context (hnil : c.actions = []) (hdependent : c.configDependent = true) :
    PrepareKeeps env q
      { req with kconfuzzConfigActions := [], kconfuzzConfigContext := some c } := by
  have hself : { c with actions := env.supportedFor p c.actions } = c := by
    rw [hnil, supportedFor_nil, ← hnil]
  have hkey : env.contextQuarantined q p c = false := by
    unfold contextQuarantined
    rw [contextQuarantineKey_eq_none_iff.mpr (by rw [hnil]; rfl)]
  have hfilter : env.filterSupportedContext q c p = some c := by
    rw [filterSupportedContext_eq, hself, hkey, hdependent]
    simp
  rw [PrepareKeeps, prepareKConfuzz_carrying hreq hdisabled henabled,
    prepareEnabled_of_context rfl rfl, hfilter]
  exact ⟨hnil, rfl⟩

/-- A request with prepared actions and a context that agrees with them is kept unless the
context is quarantined; one that is quarantined is replaced by the context made up for actions
that come without one. -/
lemma prepareKeeps_iff_of_actions (h : c.actions ≠ []) (hprepared : env.Prepared p c.actions) :
    PrepareKeeps env q
        { req with kconfuzzConfigActions := c.actions, kconfuzzConfigContext := some c } ↔
      env.contextQuarantined q p c = false ∨ c = requestActionsContext c.actions := by
  have hself : { c with actions := env.supportedFor p c.actions } = c := by
    rw [hprepared.supportedFor_eq]
  have hfilter : env.filterSupportedContext q c p = _ := filterSupportedContext_eq q c p
  rw [hself] at hfilter
  rw [PrepareKeeps, prepareKConfuzz_carrying hreq hdisabled henabled, prepareEnabled_of_actions h]
  rw [hprepared.supportedFor_eq, if_neg h, carriedContext]
  rw [Option.bind_some, hfilter]
  cases hquarantined : env.contextQuarantined q p c with
  | false =>
    have hne : ¬ (env.supportedFor p c.actions = [] ∧ c.configDependent = false) := by
      rw [hprepared.supportedFor_eq]
      exact fun hnil => h hnil.1
    rw [if_neg (by simpa using hne), Option.getD_some]
    simp
  | true =>
    simp only [Bool.true_eq_false, false_or, true_and, Option.some.injEq]
    exact eq_comm

end Again

/-! ## Both times -/

/-- When a request that is prepared again stays as it is, by what it came with. -/
def PrepareStable (env : Env) (q : List String) (p : Prog) (req : Request) : Prop :=
  match req.kconfuzzConfigActions, req.kconfuzzConfigContext with
  | [], none => ∀ ctx, env.planContextFromEnv p = some ctx → env.contextQuarantined q p ctx = false
  | [], some c => env.filterSupportedContext q c p = none → env.PlansNothing p
  | actions, _ =>
    if env.supportedFor p actions = [] then env.PlansNothing p
    else
      let ctx := { carriedContext env q p req with actions := env.supportedFor p actions }
      env.contextQuarantined q p ctx = false ∨ ctx = requestActionsContext ctx.actions

lemma prepareStable_of_actions (h : req.kconfuzzConfigActions ≠ []) :
    PrepareStable env q p req ↔
      if env.supportedFor p req.kconfuzzConfigActions = [] then env.PlansNothing p
      else
        let ctx := { carriedContext env q p req with
                     actions := env.supportedFor p req.kconfuzzConfigActions }
        env.contextQuarantined q p ctx = false ∨ ctx = requestActionsContext ctx.actions := by
  obtain ⟨a, rest, hactions⟩ := List.exists_cons_of_ne_nil h
  simp only [PrepareStable, hactions]

section Stable

variable (hreq : ForProg p req) (hdisabled : req.kconfuzzConfigDisabled = false)
  (henabled : env.actionsEnabled = true)

include hreq hdisabled henabled

/-- A fresh request. -/
lemma prepareKeeps_iff_stable_of_fresh (hactions : req.kconfuzzConfigActions = [])
    (hc : req.kconfuzzConfigContext = none) :
    PrepareKeeps env q (prepareEnabled env q p req) ↔ PrepareStable env q p req := by
  rw [prepareEnabled_of_fresh hactions hc, planFromEnv]
  simp only [PrepareStable, hactions, hc]
  cases hplan : env.planContextFromEnv p with
  | none =>
    refine iff_of_true ?_ (by simp)
    exact (prepareKeeps_iff_of_fresh hreq hdisabled henabled).mpr
      (planContextFromEnv_eq_none_iff.mp hplan)
  | some ctx =>
    obtain ⟨-, hne, hprepared, hsource⟩ := planContextFromEnv_spec hplan
    -- a planned context names the table as its source
    have hother : ctx ≠ requestActionsContext ctx.actions := by
      intro heq
      have := congrArg KConfuzzConfigContext.source heq
      rw [hsource] at this
      exact absurd this (by decide : relationTableEnv ≠ "request-actions")
    have hiff := prepareKeeps_iff_of_actions (q := q) hreq hdisabled henabled hne hprepared
    rw [or_iff_left hother] at hiff
    simpa using hiff

/-- A request with a context. -/
lemma prepareKeeps_iff_stable_of_context (hactions : req.kconfuzzConfigActions = [])
    (hc : req.kconfuzzConfigContext = some c) :
    PrepareKeeps env q (prepareEnabled env q p req) ↔ PrepareStable env q p req := by
  rw [prepareEnabled_of_context hactions hc]
  simp only [PrepareStable, hactions, hc]
  cases hfilter : env.filterSupportedContext q c p with
  | none =>
    simp only [forall_const]
    exact prepareKeeps_iff_of_fresh hreq hdisabled henabled
  | some ctx =>
    obtain ⟨heq, hquarantined, hdependent⟩ := filterSupportedContext_eq_some hfilter
    have hprepared : env.Prepared p ctx.actions := by
      rw [heq]
      exact prepared_supportedFor _
    refine iff_of_true ?_ (by simp)
    by_cases hnil : ctx.actions = []
    · have hkeeps := prepareKeeps_of_context (q := q) hreq hdisabled henabled hnil (hdependent hnil)
      simpa only [hnil] using hkeeps
    · exact (prepareKeeps_iff_of_actions hreq hdisabled henabled hnil hprepared).mpr
        (.inl hquarantined)

lemma prepareKeeps_iff_stable_of_actions (hactions : req.kconfuzzConfigActions ≠ []) :
    PrepareKeeps env q (prepareEnabled env q p req) ↔ PrepareStable env q p req := by
  rw [prepareEnabled_of_actions hactions, prepareStable_of_actions hactions]
  split
  · exact prepareKeeps_iff_of_fresh hreq hdisabled henabled
  · next hne =>
    exact prepareKeeps_iff_of_actions (c := { carriedContext env q p req with
      actions := env.supportedFor p req.kconfuzzConfigActions }) hreq hdisabled henabled hne
        (prepared_supportedFor _)

end Stable

/-- Preparing an active request makes it well prepared; preparing it again changes nothing
exactly when `PrepareStable` holds of what it came with. -/
theorem prepareKConfuzz_stable_iff (hreq : ForProg p req)
    (hdisabled : req.kconfuzzConfigDisabled = false) (henabled : env.actionsEnabled = true) :
    (WellPrepared env p (prepareKConfuzz env q req) ∧
      PrepareKeeps env q (prepareKConfuzz env q req)) ↔ PrepareStable env q p req := by
  rw [hreq.prepareKConfuzz_of_enabled hdisabled henabled, and_iff_right wellPrepared_prepareEnabled]
  by_cases hactions : req.kconfuzzConfigActions = []
  · cases hc : req.kconfuzzConfigContext with
    | none => exact prepareKeeps_iff_stable_of_fresh hreq hdisabled henabled hactions hc
    | some c => exact prepareKeeps_iff_stable_of_context hreq hdisabled henabled hactions hc
  · exact prepareKeeps_iff_stable_of_actions hreq hdisabled henabled hactions

/-- A request that carries a supported action and an unknown one is settled after one round. -/
theorem prepareKConfuzz_stable_mixedContext :
    WellPrepared sampleEnv bpfProg (prepareKConfuzz sampleEnv []
        { Request.new bpfProg with kconfuzzConfigActions := mixedContext.actions }) ∧
      PrepareKeeps sampleEnv [] (prepareKConfuzz sampleEnv []
        { Request.new bpfProg with kconfuzzConfigActions := mixedContext.actions }) := by
  refine (prepareKConfuzz_stable_iff ⟨rfl, rfl⟩ rfl (bpfEnv_actionsEnabled _ _ _)).mpr ?_
  exact .inr rfl

/-- A request whose context was dropped is planned for when it is prepared again. -/
theorem not_prepareKeeps_staleContext :
    sampleEnv.actionsEnabled = true ∧
      ¬ PrepareKeeps sampleEnv []
        (prepareKConfuzz sampleEnv []
          { Request.new bpfProg with kconfuzzConfigContext := some staleContext }) := by
  have henabled := sampleEnv_actionsEnabled
  refine ⟨henabled, fun hkeeps => ?_⟩
  exact sampleEnv_plans ((prepareKeeps_iff_of_fresh ⟨rfl, rfl⟩ rfl henabled).mp hkeeps)

end KConfuzz
