import KConfuzz.Planner.Env

/-!
# From a request to the actions that are executed

A request passes two stages that decide its config actions: `prepareKConfuzz` when it is
enqueued (`pkg/fuzzer/fuzzer.go`), again on every retry, and `Runner.sendRequest` when it is
sent to a VM (`pkg/rpcserver/runner.go`). Triage jobs put a context on their requests before
that (`pkg/fuzzer/job.go`).
-/

namespace KConfuzz

inductive RequestType where
  | program
  | binary
  | glob
deriving DecidableEq, Repr

/-- The fields of `queue.Request` that the two stages and triage jobs touch. -/
structure Request where
  type : RequestType
  prog : Option Prog
  kconfuzzConfigActions : List KConfuzzConfigAction
  kconfuzzConfigContext : Option KConfuzzConfigContext
  kconfuzzConfigDisabled : Bool
  kconfuzzOriginSig : String
  important : Bool

/-- `&queue.Request{Prog: p}` -/
def Request.new (p : Prog) : Request :=
  { type := .program, prog := some p, kconfuzzConfigActions := [], kconfuzzConfigContext := none
    kconfuzzConfigDisabled := false, kconfuzzOriginSig := "", important := false }

/-! ## The fuzzer -/

/-- The context made up for actions that come without one. -/
def requestActionsContext (actions : List KConfuzzConfigAction) : KConfuzzConfigContext :=
  { strategy := kconfuzzConfigStrategySequence, source := "request-actions"
    configDependent := false, actions := actions }

/-- `prepareKConfuzz` after its early returns: `req` is a program request for `p` with actions
enabled. -/
def prepareEnabled (env : Env) (quarantined : List String) (p : Prog) (req : Request) : Request :=
  let hadContext := req.kconfuzzConfigContext.isSome
  let context := req.kconfuzzConfigContext.bind (env.filterSupportedContext quarantined · p)
  let actions := match req.kconfuzzConfigActions, context with
    | [], some ctx => ctx.actions
    | actions, _ => actions
  if !actions.isEmpty then
    let ctx := context.getD (requestActionsContext actions)
    let actions := normalizeKConfuzzConfigActions (some p)
      (filterSupportedActions env.registry actions)
    if actions.isEmpty then
      { req with kconfuzzConfigActions := [], kconfuzzConfigContext := none }
    else
      { req with
        kconfuzzConfigActions := actions
        kconfuzzConfigContext := some { ctx with actions := actions } }
  else if hadContext then
    { req with kconfuzzConfigActions := actions, kconfuzzConfigContext := context }
  else
    match env.planContextFromEnv p with
    | some ctx =>
      { req with kconfuzzConfigActions := ctx.actions, kconfuzzConfigContext := some ctx }
    | none => { req with kconfuzzConfigActions := actions, kconfuzzConfigContext := none }

def prepareKConfuzz (env : Env) (quarantined : List String) (req : Request) : Request :=
  match req.type, req.prog, req.kconfuzzConfigDisabled with
  | .program, some p, false =>
    if env.actionsEnabled then prepareEnabled env quarantined p req
    else { req with kconfuzzConfigActions := [], kconfuzzConfigContext := none }
  | _, _, _ => req

/-! ## The runner -/

/-- The actions `Runner.sendRequest` passes to `SerializeForExecWithKConfuzz` for a program
request. -/
def sendRequestActions (env : Env) (p : Prog) (req : Request) : List KConfuzzConfigAction :=
  let actions := if req.kconfuzzConfigDisabled then [] else req.kconfuzzConfigActions
  let actions :=
    if actions.isEmpty && !req.kconfuzzConfigDisabled then
      match req.kconfuzzConfigContext with
      | some ctx => ctx.actions
      | none => actions
    else actions
  if actions.isEmpty && !req.kconfuzzConfigDisabled then env.planFromEnv p else actions

/-- Both stages: the actions serialized for a request of the program `p`. -/
def executedActions (env : Env) (quarantined : List String) (p : Prog) (req : Request) :
    List KConfuzzConfigAction :=
  sendRequestActions env p (prepareKConfuzz env quarantined req)

/-! ## Triage jobs -/

/-- What `triageJob.executeWithKConfuzz` makes of a request before it is enqueued. -/
def triageRequest (originSig : String) (kconfuzzConfig : Option KConfuzzConfigContext)
    (disableKConfuzz : Bool) (req : Request) : Request :=
  let req := { req with important := true }
  let req :=
    if disableKConfuzz then
      { req with
        kconfuzzConfigDisabled := true
        kconfuzzConfigActions := []
        kconfuzzConfigContext := none }
    else match kconfuzzConfig with
      | none => req
      | some config =>
        match config.cloneForProg req.prog with
        | none => { req with kconfuzzConfigContext := none }
        | some ctx =>
          { req with
            kconfuzzConfigContext := some ctx
            kconfuzzConfigActions := ctx.actions }
  if req.kconfuzzOriginSig = "" then { req with kconfuzzOriginSig := originSig } else req

end KConfuzz
