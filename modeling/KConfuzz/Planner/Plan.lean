import Mathlib.Data.Nat.GCD.Basic
import KConfuzz.Planner.RelationTable

/-!
# Planning config actions (`Planner.Plan` of `pkg/kconfuzz/actionplanner.go`)

A plan is made of random actions, taken from the registry's candidates by a walk whose start
and step come from a hash of the program, followed by actions related to the program's calls,
at the front of the program (`sequence`), before the calls (`call`), or both. A parameter is
used at most once.

`Prog.Serialize` enters only through the hash; it is a parameter (`serialize`).
-/

namespace KConfuzz

open Lib.StableSort

/-! ## Options -/

inductive Strategy where
  | strategySequence
  | strategyCall
  | strategyBoth
deriving DecidableEq, Repr

/-- Limits are 64-bit integers; negative ones mean unlimited. -/
structure Options where
  strategy : Strategy
  maxActionsPerProgram : ℤ
  maxActionsPerCall : ℤ
  randomActionsPerProgram : ℤ
  relatedActionsPerProgram : ℤ
deriving DecidableEq, Repr

def unlimitedActions : ℤ := -1

def isUnlimited (limit : ℤ) : Bool := decide (limit < 0)

def remainingActions (limit used : ℤ) : ℤ :=
  if isUnlimited limit then unlimitedActions
  else if limit ≤ used then 0
  else limit - used

/-- The value of a Go `int` expression: sums wrap around. -/
def toInt64 (x : ℤ) : ℤ := x.bmod (2 ^ 64)

def normalizeOptions (opts : Options) (defaultMaxActions : ℤ) : Options :=
  let opts := { opts with
    maxActionsPerProgram :=
      if opts.maxActionsPerProgram = 0 then defaultMaxActions
      else if opts.maxActionsPerProgram < 0 then unlimitedActions
      else opts.maxActionsPerProgram
    maxActionsPerCall := if opts.maxActionsPerCall ≤ 0 then 1 else opts.maxActionsPerCall
    randomActionsPerProgram :=
      if opts.randomActionsPerProgram < 0 then 0 else opts.randomActionsPerProgram }
  let opts := { opts with
    randomActionsPerProgram :=
      if !isUnlimited opts.maxActionsPerProgram
          && opts.maxActionsPerProgram < opts.randomActionsPerProgram
        then opts.maxActionsPerProgram else opts.randomActionsPerProgram }
  let opts := { opts with
    relatedActionsPerProgram :=
      if opts.relatedActionsPerProgram = 0
        then remainingActions opts.maxActionsPerProgram opts.randomActionsPerProgram
      else opts.relatedActionsPerProgram }
  let opts := { opts with
    relatedActionsPerProgram :=
      if opts.relatedActionsPerProgram < 0 then unlimitedActions
      else opts.relatedActionsPerProgram }
  { opts with
    relatedActionsPerProgram :=
      if !isUnlimited opts.maxActionsPerProgram && !isUnlimited opts.relatedActionsPerProgram
          && opts.maxActionsPerProgram <
            toInt64 (opts.randomActionsPerProgram + opts.relatedActionsPerProgram)
        then opts.maxActionsPerProgram - opts.randomActionsPerProgram
      else opts.relatedActionsPerProgram }

/-! ## Seeds -/

/-- `hash/fnv` `New64a` over a byte string. -/
def fnv64a (data : List UInt8) : UInt64 :=
  data.foldl (fun h b => (h ^^^ b.toUInt64) * 1099511628211) 14695981039346656037

/-- The lines `"%d:%s\n"` that are hashed after the program text. -/
def callLines : ℕ → List Call → String
  | _, [] => ""
  | index, call :: calls =>
    toString index ++ ":" ++ call.callMeta.name ++ "\n" ++ callLines (index + 1) calls

def planSeed (serialize : Prog → List UInt8) (prg : Prog) : UInt64 :=
  let seed := fnv64a (serialize prg ++ (callLines 0 prg.calls).toUTF8.toList)
  if seed = 0 then 1 else seed

def mix64 (x : UInt64) : UInt64 :=
  let x := x + 0x9e3779b97f4a7c15
  let x := (x ^^^ (x >>> 30)) * 0xbf58476d1ce4e5b9
  let x := (x ^^^ (x >>> 27)) * 0x94d049bb133111eb
  x ^^^ (x >>> 31)

def valueSeed (programSeed : UInt64) (actionIndex callIndex : ℕ) (param : ConfigParam) : UInt64 :=
  let seed := programSeed ^^^ (param.id * 0x9e3779b97f4a7c15)
  let seed := seed ^^^ (UInt64.ofNat (actionIndex + 1) * 0xbf58476d1ce4e5b9)
  let seed := seed ^^^ (UInt64.ofNat (callIndex + 1) * 0x94d049bb133111eb)
  mix64 seed

/-! ## The value of an action -/

/-- The first valid identifier of the list, starting at a position given by the seed and going
around. -/
def deterministicValueID (ids : List UInt64) (valueCount seed : UInt64) : Option UInt64 :=
  if valueCount = 0 || ids.isEmpty then none
  else
    let start := seed.toNat % ids.length
    (List.range ids.length).findSome? fun i =>
      match ids[(start + i) % ids.length]? with
      | some valueID => if valueID < valueCount then some valueID else none
      | none => none

def plannedMutatorValue (seed : UInt64) (param : ConfigParam) : Option UInt64 :=
  if !param.mutator then none
  else
    [param.mutatorTfuzzValueIDs, param.mutatorSeedValueIDs, param.mutatorRandomValueIDs].findSome?
      fun ids => deterministicValueID ids param.valueCount seed

/-- The value and the flags of a planned action. -/
def plannedValueFromSeed (seed : UInt64) (param : ConfigParam) : UInt64 × UInt64 :=
  match plannedMutatorValue seed param with
  | some valueID => (valueID, 0)
  | none =>
    if param.valueCount ≤ 1 then (0, kconfuzzConfigFlagFlip)
    else (seed % param.valueCount, kconfuzzConfigFlagFlip)

def configActionWithSeed (beforeCall : ℕ) (seed : UInt64) (param : ConfigParam) :
    KConfuzzConfigAction :=
  let value := plannedValueFromSeed seed param
  { beforeCall := beforeCall, paramID := param.id, valueID := value.1, flags := value.2 }

/-! ## Random actions -/

def randomCandidateParams (R : Registry) : List ConfigParam :=
  sortedParams (R.params.filter safeRandomParam)

/-- The search for a step that is coprime to `n`: counting up, and from 1 again at `n`. The
first argument bounds the number of rounds. -/
def findStep (n : ℕ) : ℕ → ℕ → ℕ
  | 0, step => step
  | fuel + 1, step =>
    if Nat.gcd step n = 1 then step
    else findStep n fuel (if n ≤ step + 1 then 1 else step + 1)

/-- The walk of `planRandomLevel` for the given number of rounds: the actions and the
parameters used. -/
def randomWalk (params : List ConfigParam) (limit : ℤ) (step : ℕ) (baseValueSeed : UInt64) :
    ℕ → ℕ → List KConfuzzConfigAction → List UInt64 → List KConfuzzConfigAction × List UInt64
  | 0, _, actions, skip => (actions, skip)
  | rounds + 1, index, actions, skip =>
    if (actions.length : ℤ) < limit then
      match params[index]? with
      | none => (actions, skip) -- out of range; `index` is below the length
      | some param =>
        let next := (index + step) % params.length
        if skip.contains param.id then
          randomWalk params limit step baseValueSeed rounds next actions skip
        else
          let action := configActionWithSeed 0
            (valueSeed baseValueSeed actions.length 0 param) param
          randomWalk params limit step baseValueSeed rounds next (actions ++ [action])
            (param.id :: skip)
    else (actions, skip)

/-- The step of the walk through `n` candidates. -/
def walkStep (n : ℕ) (seed : UInt64) : ℕ :=
  if 1 < n then findStep n n (seed.toNat % (n - 1) + 1) else 1

/-- `planRandomLevel` for given candidates and a given seed: the actions and `skip` with the
parameters used. -/
def randomActions (params : List ConfigParam) (seed : UInt64) (limit : ℤ) (skip : List UInt64) :
    List KConfuzzConfigAction × List UInt64 :=
  if limit ≤ 0 || params.isEmpty then ([], skip)
  else randomWalk params limit (walkStep params.length seed) (seed % 1000000) params.length
    (seed.toNat % params.length) [] skip

def planRandomLevel (R : Registry) (serialize : Prog → List UInt8) (prg : Prog) (limit : ℤ)
    (skip : List UInt64) : List KConfuzzConfigAction × List UInt64 :=
  randomActions (randomCandidateParams R) (planSeed serialize prg) limit skip

/-- The memory of the machine that `Plan` runs on. -/
structure GoHeap where
  /-- The largest capacity `make` gives to a slice of actions; for a larger one the process ends. -/
  capacity : ℕ
  /-- An action has 32 bytes, and `make` panics for more than `2 ^ 48` bytes on every machine. -/
  capacity_le : 32 * capacity ≤ 2 ^ 48

/-- `randomActions` with the allocation of its result, `make([]prog.KConfuzzConfigAction, 0, limit)`,
which may end the process (`none`). -/
def planRandomFrom (heap : GoHeap) (params : List ConfigParam) (seed : UInt64) (limit : ℤ)
    (skip : List UInt64) : Option (List KConfuzzConfigAction × List UInt64) :=
  if limit ≤ 0 || params.isEmpty then some ([], skip)
  else if heap.capacity < limit then none
  else some (randomActions params seed limit skip)

/-! ## Related actions -/

/-- The order of `shuffledParamSlice`: by a hash of the identifier, then the identifier. -/
def shuffleLess (seed : UInt64) (a b : ConfigParam) : Bool :=
  let ha := mix64 (seed ^^^ a.id)
  let hb := mix64 (seed ^^^ b.id)
  if ha = hb then a.id < b.id else ha < hb

def shuffledParamSlice (params : List ConfigParam) (seed : UInt64) : List ConfigParam :=
  sliceStable (shuffleLess seed) params

namespace Planner

variable {R : Registry} (p : Planner R) (serialize : Prog → List UInt8)

/-- `p.callToParams[call.Meta.Name]` -/
def callParams (call : Call) : List ConfigParam := paramsOf p.callToParams call.callMeta.name

def hasRelatedCall (prg : Prog) : Bool := prg.calls.any fun call => !(p.callParams call).isEmpty

/-- The map `seen` of `planSequenceLevel`: what the calls name, without the skipped ones. -/
def seenParams (prg : Prog) (skip : List UInt64) : List ConfigParam :=
  (prg.calls.flatMap p.callParams).foldl
    (fun seen param => if skip.contains param.id then seen else insertParam param seen) []

/-- The parameters `planSequenceLevel` uses: shuffled, and cut to the limit. -/
def sequenceParams (prg : Prog) (opts : Options) (skip : List UInt64) : List ConfigParam :=
  let params := shuffledParamSlice (sortedParams (p.seenParams prg skip)) (planSeed serialize prg)
  if !isUnlimited opts.maxActionsPerProgram && opts.maxActionsPerProgram < params.length
    then params.take opts.maxActionsPerProgram.toNat else params

def planSequenceLevel (prg : Prog) (opts : Options) (skip : List UInt64) :
    List KConfuzzConfigAction × List UInt64 :=
  let seed := planSeed serialize prg
  let params := p.sequenceParams serialize prg opts skip
  (params.mapIdx fun i param => configActionWithSeed 0 (valueSeed seed i 0 param) param,
    params.map ConfigParam.id ++ skip)

/-- The loop of `planCallLevel` over the parameters of the call `index`. The flag says that
the program's limit is reached and the function returns. -/
def planCallParams (opts : Options) (seed : UInt64) (index : ℕ) :
    List ConfigParam → ℕ → List KConfuzzConfigAction → List UInt64 →
      Bool × List KConfuzzConfigAction × List UInt64
  | [], _, actions, seen => (false, actions, seen)
  | param :: params, addedForCall, actions, seen =>
    if seen.contains param.id then planCallParams opts seed index params addedForCall actions seen
    else
      let action := configActionWithSeed index (valueSeed seed actions.length index param) param
      let actions := actions ++ [action]
      let seen := param.id :: seen
      if !isUnlimited opts.maxActionsPerProgram && opts.maxActionsPerProgram ≤ actions.length then
        (true, actions, seen)
      else if opts.maxActionsPerCall ≤ addedForCall + 1 then (false, actions, seen)
      else planCallParams opts seed index params (addedForCall + 1) actions seen

/-- The loop over the calls, the first of which has the given index. -/
def planCalls (opts : Options) (seed : UInt64) :
    ℕ → List Call → List KConfuzzConfigAction → List UInt64 → List KConfuzzConfigAction
  | _, [], actions, _ => actions
  | index, call :: calls, actions, seen =>
    let params := shuffledParamSlice (p.callParams call) (mix64 (seed ^^^ UInt64.ofNat (index + 1)))
    match planCallParams opts seed index params 0 actions seen with
    | (true, actions, _) => actions
    | (false, actions, seen) => planCalls opts seed (index + 1) calls actions seen

/-- `planCallLevel`; what it adds to `skip` is not used afterwards. -/
def planCallLevel (prg : Prog) (opts : Options) (skip : List UInt64) : List KConfuzzConfigAction :=
  p.planCalls opts (planSeed serialize prg) 0 prg.calls [] skip

/-- Append actions until the limit is reached. -/
def appendUpTo (limit : ℤ) :
    List KConfuzzConfigAction → List KConfuzzConfigAction → List KConfuzzConfigAction
  | actions, [] => actions
  | actions, action :: rest =>
    let actions := actions ++ [action]
    if !isUnlimited limit && limit ≤ actions.length then actions else appendUpTo limit actions rest

def planBothLevels (prg : Prog) (opts : Options) (skip : List UInt64) : List KConfuzzConfigAction :=
  let (actions, skip) := p.planSequenceLevel serialize prg opts skip
  if !isUnlimited opts.maxActionsPerProgram && opts.maxActionsPerProgram ≤ actions.length then
    actions
  else
    let remaining := { opts with
      maxActionsPerProgram := remainingActions opts.maxActionsPerProgram actions.length }
    appendUpTo opts.maxActionsPerProgram actions (p.planCallLevel serialize prg remaining skip)

def planRelated (prg : Prog) (opts : Options) (skip : List UInt64) : List KConfuzzConfigAction :=
  match opts.strategy with
  | .strategyCall => p.planCallLevel serialize prg opts skip
  | .strategyBoth => p.planBothLevels serialize prg opts skip
  | .strategySequence => (p.planSequenceLevel serialize prg opts skip).1

/-! ## The plan -/

/-- The limit `Plan` gives to related actions after `used` random ones. -/
def relatedLimit (opts : Options) (used : ℕ) : ℤ :=
  let remaining := remainingActions opts.maxActionsPerProgram used
  if isUnlimited opts.relatedActionsPerProgram then remaining
  else if !isUnlimited remaining && remaining < opts.relatedActionsPerProgram then remaining
  else opts.relatedActionsPerProgram

def plan (prg : Prog) (opts : Options) : List KConfuzzConfigAction :=
  let opts := normalizeOptions opts 4
  let (actions, used) := planRandomLevel R serialize prg opts.randomActionsPerProgram []
  let limit := relatedLimit opts actions.length
  if limit = 0 then actions
  else
    let relatedOpts := { opts with maxActionsPerProgram := limit, randomActionsPerProgram := 0 }
    actions ++ p.planRelated serialize prg relatedOpts used

/-- `Plan`, with the allocation of `planRandomLevel`. -/
def planOrPanic (heap : GoHeap) (prg : Prog) (opts : Options) : Option (List KConfuzzConfigAction) :=
  (planRandomFrom heap (randomCandidateParams R) (planSeed serialize prg)
    (normalizeOptions opts 4).randomActionsPerProgram []).map fun _ => p.plan serialize prg opts

end Planner

def strategyName : Strategy → String
  | .strategySequence => kconfuzzConfigStrategySequence
  | .strategyCall => kconfuzzConfigStrategyCall
  | .strategyBoth => kconfuzzConfigStrategyBoth

def Planner.planContext {R : Registry} (p : Planner R) (serialize : Prog → List UInt8)
    (prg : Prog) (opts : Options) (source : String) : Option KConfuzzConfigContext :=
  let actions := p.plan serialize prg opts
  if actions.isEmpty then none
  else some
    { strategy := strategyName opts.strategy
      source := source
      configDependent := false
      actions := normalizeKConfuzzConfigActions (some prg) actions }

end KConfuzz
