import KConfuzz.Lib.Oracle
import KConfuzz.Prog.Links

/-!
# Minimization of programs (`prog/minimization.go`)

`Minimize` proposes simpler programs and asks a predicate whether they are still equivalent. The
predicate is an oracle: a triage job executes the program, so the answers are whatever the
executions show.

A program that is tried is followed with one more piece of data that no decision looks at:
`kept`, the indices of the calls of the original program that are left.

The minimizers of the single argument types (`minimizeArgsCtx.do`) rewrite arguments and nothing
else. They are a parameter, `MinEnv.argStep`: with the answers so far in mind it may propose any
arguments for the calls of the program, or put back earlier ones. `Target.Neutralize`, which
depends on the OS, rewrites arguments, too, and `progID` is the hash of the serialized program.
-/

namespace KConfuzz

open Lib.Oracle

inductive MinimizeMode where
  | minimizeCorpus
  | minimizeCrash
  | minimizeCrashSnapshot
  | minimizeCallsOnly
deriving DecidableEq, Repr

/-! ## Changing programs -/

namespace Prog

/-- New arguments for all calls. -/
def withArgs (p : Prog) (args : ℕ → List Arg × Option ResultArg) : Prog :=
  p.mapCalls (fun i c => { c with args := (args i).1, ret := (args i).2 }) fun _ _ => rfl

/-- `p.Calls[idx].Props = ...` -/
def modifyProps (p : Prog) (idx : ℕ) (f : CallProps → CallProps) : Prog :=
  p.mapCalls (fun i c => if i = idx then { c with props := f c.props } else c) fun i c => by
    split <;> rfl

/-- All properties are the default ones. -/
def clearProps (p : Prog) : Prog :=
  p.mapCalls (fun _ c => { c with props := .zero }) fun _ _ => rfl

end Prog

/-! ## Candidates -/

/-- A program that is tried: `kept` are the calls of the original program that are left and
`callIndex` is the target call (none for -1). -/
structure Candidate where
  prog : Prog
  kept : List ℕ
  callIndex : Option ℕ

/-- What a minimizer of arguments does next: asks about new arguments, or sets them. -/
inductive ArgStep where
  | attempt (args : ℕ → List Arg × Option ResultArg)
  | restore (args : ℕ → List Arg × Option ResultArg)

structure MinEnv where
  pred0 : List Candidate → Bool
  progID : Prog → String
  neutralize : Call → List Arg
  /-- The next step for a call, after the given answers; none when the call is done. -/
  argStep : MinimizeMode → Prog → ℕ → List Bool → Option ArgStep
  /-- How many steps there are at most for a call. -/
  argSteps : MinimizeMode → Prog → ℕ → ℕ

abbrev Minimizer := Search Candidate String

/-- Removes a call; the index of the target call moves with it. -/
def Candidate.removeCall (t : Candidate) (i : ℕ) : Candidate :=
  { prog := t.prog.removeCall i
    kept := t.kept.eraseIdx i
    callIndex := t.callIndex.map fun callIndex => if i < callIndex then callIndex - 1 else callIndex }

variable (env : MinEnv) (mode : MinimizeMode) (t : Candidate)

/-- `p.sanitizeFix()` -/
def Candidate.sanitizeFix : Candidate :=
  { t with
    prog := t.prog.mapCalls (fun _ c => { c with args := env.neutralize c }) fun _ _ => rfl }

/-- `pred`, and the candidate as it leaves it. -/
def pred : Minimizer (Bool × Candidate) := do
  let t := t.sanitizeFix env
  let ok ← ask env.pred0 (fun t => env.progID t.prog) t
  return (ok, t)

/-- `if pred(p, ...) { p0 = p }` -/
def tryCandidate (t0 t : Candidate) : Minimizer Candidate := do
  let (ok, t) ← pred env t
  return if ok then t else t0

/-! ## Removing calls -/

/-- What two calls can have in common: a result or a file name. -/
inductive Used where
  | arg (id : ArgId)
  | file (name : List UInt8)
deriving DecidableEq, Repr

/-- `bytes.TrimRight(data, "\x00")` -/
def trimZeros (data : List UInt8) : List UInt8 := (data.reverse.dropWhile (· == 0)).reverse

def usesOfArg : Arg → List Used
  | .result a => .arg a.id :: (a.res.toList.map .arg ++ a.uses.map .arg)
  | .data _ dir typ data _ =>
    if dir ≠ .dirOut ∧ typ.kind = .bufferFilename then [.file (trimZeros data)] else []
  | _ => []

def uses (call : Call) : List Used := (foreachArg call).flatMap fun visit => usesOfArg visit.1

/-- `for what := range l { used[what] = true }` -/
def addUsed (used l : List Used) : List Used := l.foldl (fun used what => used.insert what) used

def intersects (list list1 : List Used) : Bool := list1.any (list.contains ·)

/-- The loop of `relatedCalls` over the calls: the calls to keep and what they use. -/
def relatedRound (calls : List Call) (keepCalls : List ℕ) (used : List Used) : List ℕ × List Used :=
  calls.zipIdx.foldl
    (fun (keepCalls, used) (call, i) =>
      if keepCalls.contains i then (keepCalls, used)
      else if intersects used (uses call) then (i :: keepCalls, addUsed used (uses call))
      else (keepCalls, used))
    (keepCalls, used)

/-- The endless loop of `relatedCalls`; none if it is not left in `n` rounds. -/
def relatedRounds (calls : List Call) : ℕ → List ℕ → List Used → Option (List ℕ)
  | 0, _, _ => none
  | n + 1, keepCalls, used =>
    let r := relatedRound calls keepCalls used
    if used.length = r.2.length then some r.1 else relatedRounds calls n r.1 r.2

/-- Only a round that adds a call can be followed by another one, so one round more than there are
calls is enough (`relatedCalls_spec`). -/
def relatedCalls (p0 : Prog) (callIndex0 : ℕ) : Option (List ℕ) :=
  relatedRounds p0.calls (p0.calls.length + 1) [callIndex0]
    (addUsed [] (p0.calls[callIndex0]?.elim [] uses))

/-- Removes the calls of the given indices, from the last to the first. -/
def Candidate.removeCallsAt (indices : List ℕ) : Candidate :=
  indices.reverse.foldl Candidate.removeCall t

/-- Tries to drop all calls after the target at once. -/
def removeTrailingCalls : Minimizer Candidate :=
  match t.callIndex with
  | some callIndex =>
    if callIndex + 2 < t.prog.calls.length then
      tryCandidate env t (t.removeCallsAt
        (List.range' (callIndex + 1) (t.prog.calls.length - (callIndex + 1))))
    else pure t
  | none => pure t

/-- Tries to remove all calls at once that have nothing to do with the target. -/
def removeUnrelatedCalls : Minimizer Candidate :=
  match t.callIndex with
  | some callIndex =>
    let keepCalls := (relatedCalls t.prog callIndex).getD [callIndex]
    if t.prog.calls.length - keepCalls.length < 3 then pure t
    else
      tryCandidate env t (t.removeCallsAt
        ((List.range t.prog.calls.length).filter (!keepCalls.contains ·)))
  | none => pure t

/-- Tries to remove the calls below `i` one by one, the last first. -/
def removeEachCall (env : MinEnv) : ℕ → Candidate → Minimizer Candidate
  | 0, t => pure t
  | i + 1, t => do
    let t ← if t.callIndex = some i then pure t else tryCandidate env t (t.removeCall i)
    removeEachCall env i t

def removeCalls : Minimizer Candidate := do
  let t ← removeTrailingCalls env t
  let t ← removeUnrelatedCalls env t
  removeEachCall env t.prog.calls.length t

/-! ## Simplifying calls -/

def resetCallProps : Minimizer Candidate :=
  if t.prog.calls.any (·.props != .zero) then
    tryCandidate env t { t with prog := t.prog.clearProps }
  else pure t

def minimizeCallProps (i : ℕ) (t : Candidate) : Minimizer Candidate := do
  let props := (t.prog.calls[i]?.elim .zero Call.props)
  let tryProps (drop : Bool) (f : CallProps → CallProps) (t : Candidate) : Minimizer Candidate :=
    if drop then tryCandidate env t { t with prog := t.prog.modifyProps i f } else pure t
  -- Try to drop fault injection.
  let t ← tryProps (props.failNth > 0) (fun props => { props with failNth := 0 }) t
  -- Try to drop async.
  let t ← tryProps props.async (fun props => { props with async := false }) t
  -- Try to drop rerun.
  tryProps (props.rerun > 0) (fun props => { props with rerun := 0 }) t

/-- The steps for the arguments of the `i`-th call. -/
def minimizeArgs (env : MinEnv) (mode : MinimizeMode) (i : ℕ) :
    ℕ → List Bool → Candidate → Minimizer Candidate
  | 0, _, t => pure t
  | n + 1, answers, t =>
    match env.argStep mode t.prog i answers with
    | none => pure t
    | some (.restore args) =>
      minimizeArgs env mode i n answers { t with prog := t.prog.withArgs args }
    | some (.attempt args) => do
      let (ok, t') ← pred env { t with prog := t.prog.withArgs args }
      minimizeArgs env mode i n (answers ++ [ok]) (if ok then t' else t)

def minimizeCall (i : ℕ) : Minimizer Candidate :=
  if t.prog.calls[i]?.any (·.callMeta.noMinimize) then pure t
  else do
    let t ← minimizeArgs env mode i (env.argSteps mode t.prog i) [] t
    minimizeCallProps env i t

/-- The calls keep their number here. -/
def minimizeCalls : Minimizer Candidate :=
  if mode ≠ .minimizeCallsOnly then do
    let t ← resetCallProps env t
    (List.range t.prog.calls.length).foldlM (minimizeCall env mode) t
  else pure t

/-! ## Minimizing -/

/-- `Minimize` after the check of the index. -/
def minimizeFrom (p0 : Prog) (callIndex0 : Option ℕ) (mode : MinimizeMode) :
    Minimizer (Except String Candidate) := do
  let name0 := (callIndex0.bind (p0.calls[·]?)).map (·.callMeta.name)
  let t ← removeCalls env
    { prog := p0, kept := List.range p0.calls.length, callIndex := callIndex0 }
  let t ← minimizeCalls env mode t
  if callIndex0.isSome ∧ (t.callIndex.bind (t.prog.calls[·]?)).map (·.callMeta.name) ≠ name0 then
    return .error "bad call index after minimization"
  else return .ok t

def minimize (p0 : Prog) (callIndex0 : ℤ) (mode : MinimizeMode) :
    Minimizer (Except String Candidate) :=
  if callIndex0 = -1 then minimizeFrom env p0 none mode
  else if callIndex0 < 0 ∨ (p0.calls.length : ℤ) ≤ callIndex0 then pure (.error "bad call index")
  else minimizeFrom env p0 (some callIndex0.toNat) mode

end KConfuzz
