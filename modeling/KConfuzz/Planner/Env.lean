import KConfuzz.Planner.PlanTheorems

/-!
# Planning from the environment, and quarantine (`pkg/kconfuzz/actionplanner.go`)

The package reads its knobs from environment variables, loads one relation table, and keeps a
set of quarantined pairs of a program and a context. What it takes from the outside is
collected in `Env`; the set of quarantine keys is passed explicitly.
-/

namespace KConfuzz

/-! ## Environment variables -/

def relationTableEnv : String := "SYZ_KCONFUZZ_RELATION_TABLE"

def actionStrategyEnv : String := "SYZ_KCONFUZZ_ACTION_STRATEGY"

def maxActionsEnv : String := "SYZ_KCONFUZZ_MAX_ACTIONS"

def maxActionsPerCallEnv : String := "SYZ_KCONFUZZ_MAX_ACTIONS_PER_CALL"

def randomActionsEnv : String := "SYZ_KCONFUZZ_RANDOM_ACTIONS"

def relatedActionsEnv : String := "SYZ_KCONFUZZ_RELATED_ACTIONS"

def disableActionsEnv : String := "SYZ_KCONFUZZ_DISABLE_ACTIONS"

/-- What the package gets from outside: the generated registry, environment variables, the
file behind a path, and the functions it calls to build a quarantine key. `json.Marshal` of a
context sees a nil action slice as `none`. -/
structure Env where
  registry : Registry
  getenv : String → String
  relationFile : String → Option RelationFile
  serialize : Prog → List UInt8
  marshal : String → String → Bool → Option (List KConfuzzConfigAction) → List UInt8
  hashString : List UInt8 → List UInt8 → String

/-- `unicode.IsSpace` -/
def isSpace (c : Char) : Bool :=
  [0x09, 0x0a, 0x0b, 0x0c, 0x0d, 0x20, 0x85, 0xa0, 0x1680, 0x2028, 0x2029, 0x202f, 0x205f,
    0x3000].contains c.toNat || (0x2000 ≤ c.toNat && c.toNat ≤ 0x200a)

/-- `strings.TrimSpace` -/
def trimSpace (s : String) : String :=
  String.ofList ((s.toList.dropWhile isSpace).reverse.dropWhile isSpace).reverse

/-- `strings.ToLower`; no other letters have the ASCII letters of the known values as lower
case. -/
def toLower (s : String) : String := String.ofList (s.toList.map Char.toLower)

/-- `strconv.Atoi` -/
def atoi (s : String) : Option ℤ :=
  let (neg, digits) := match s.toList with
    | '-' :: digits => (true, digits)
    | '+' :: digits => (false, digits)
    | digits => (false, digits)
  if digits.isEmpty || !digits.all Char.isDigit then none
  else
    let n : ℤ := digits.foldl (fun n c => 10 * n + (c.toNat - '0'.toNat)) 0
    let v := if neg then -n else n
    if -2 ^ 63 ≤ v ∧ v < 2 ^ 63 then some v else none

namespace Env

variable (env : Env)

def envEnabled (name : String) : Bool :=
  !(["", "0", "false", "no", "off"].contains (toLower (trimSpace (env.getenv name))))

def actionsEnabled : Bool := !env.envEnabled disableActionsEnv

def strategyFromEnv : Strategy :=
  let value := toLower (trimSpace (env.getenv actionStrategyEnv))
  if value = "" ∨ value = kconfuzzConfigStrategySequence then .strategySequence
  else if value = kconfuzzConfigStrategyCall then .strategyCall
  else if value = kconfuzzConfigStrategyBoth then .strategyBoth
  else .strategySequence

def intFromEnv (name : String) (fallback : ℤ) : ℤ :=
  let value := trimSpace (env.getenv name)
  if value = "" then fallback else (atoi value).getD fallback

def limitFromEnv (name : String) (fallback : ℤ) : ℤ :=
  let value := trimSpace (env.getenv name)
  if value = "" then fallback
  else match atoi value with
    | none => fallback
    | some parsed => if parsed = 0 then unlimitedActions else parsed

def optionsFromEnv : Options :=
  normalizeOptions
    { strategy := env.strategyFromEnv
      maxActionsPerProgram := env.limitFromEnv maxActionsEnv 8
      maxActionsPerCall := env.intFromEnv maxActionsPerCallEnv 1
      randomActionsPerProgram := env.intFromEnv randomActionsEnv 0
      relatedActionsPerProgram := env.limitFromEnv relatedActionsEnv 8 } 8

/-- The planner of the table the environment names; none if it cannot be loaded. -/
def plannerFromEnv : Option (Planner env.registry) :=
  let path := env.getenv relationTableEnv
  if path = "" then none
  else match env.relationFile path with
    | none => none
    | some file => (loadRelationTable env.registry file).toOption

-- Irreducible: a plan is known by its lemmas, and comparing two by evaluation is hopeless.
@[irreducible]
def planContextFromEnv (prg : Prog) : Option KConfuzzConfigContext :=
  if !env.actionsEnabled then none
  else match env.plannerFromEnv with
    | none => none
    | some planner => planner.planContext env.serialize prg env.optionsFromEnv relationTableEnv

@[irreducible]
def planFromEnv (prg : Prog) : List KConfuzzConfigAction :=
  (env.planContextFromEnv prg).elim [] KConfuzzConfigContext.actions

/-! ## Quarantine -/

/-- `SignatureData` of a context that is not nil; the actions of a context without any stay a
nil slice. -/
def signatureData (ctx : KConfuzzConfigContext) : List UInt8 :=
  if ctx.empty then []
  else "kconfuzz:".toUTF8.toList ++ env.marshal ctx.strategy ctx.source ctx.configDependent
    (if ctx.actions.isEmpty then none else some (normalizeKConfuzzConfigActions none ctx.actions))

/-- `contextQuarantineKey` of a program and a context that are not nil; the empty key is
`none`. -/
def contextQuarantineKey (prg : Prog) (ctx : KConfuzzConfigContext) : Option String :=
  match ctx.cloneForProg (some prg) with
  | none => none
  | some ctx =>
    if ctx.actions.isEmpty then none
    else some (env.hashString (env.serialize prg) (env.signatureData ctx))

/-- `QuarantineContext` on the set of quarantined keys. -/
def quarantineContext (quarantined : List String) (prg : Prog) (ctx : KConfuzzConfigContext) :
    List String :=
  match env.contextQuarantineKey prg ctx with
  | none => quarantined
  | some key => key :: quarantined

def contextQuarantined (quarantined : List String) (prg : Prog) (ctx : KConfuzzConfigContext) :
    Bool :=
  match env.contextQuarantineKey prg ctx with
  | none => false
  | some key => quarantined.contains key

/-- `FilterSupportedContext` of a context and a program that are not nil. -/
def filterSupportedContext (quarantined : List String) (ctx : KConfuzzConfigContext)
    (prg : Prog) : Option KConfuzzConfigContext :=
  match ctx.cloneForProg (some prg) with
  | none => none
  | some ctx =>
    if env.contextQuarantined quarantined prg ctx then none
    else
      let ctx := { ctx with actions := filterSupportedActions env.registry ctx.actions }
      if ctx.actions.isEmpty && !ctx.configDependent then none
      else if env.contextQuarantined quarantined prg ctx then none
      else some ctx

end Env

end KConfuzz
