import KConfuzz.Signal.Signal
import Mathlib.Algebra.Ring.Nat

/-!
# Deflaking (`pkg/fuzzer/job.go`)

A triage job executes its program again and again to find out which signal of its calls is stable,
that is, common to `needRuns` executions. `signals j` of a call is meant to have the elements that
`j + 1` executions reported; the execution that started the job counts as the first. When an
execution reports something new for a call that is not part of the job, the call is added to it.

The fuzzer's cover is shared with other goroutines, which may change it before every access.
Coverage, which deflaking only collects, is left out.
-/

namespace KConfuzz.Deflake

open Lib.FiniteMap

def deflakeNeedRuns : ℕ := 3
def deflakeMaxRuns : ℕ := 5
def deflakeNeedCorpusRuns : ℕ := 2
def deflakeMinCorpusRuns : ℕ := 4
def deflakeMaxCorpusRuns : ℕ := 6
def deflakeTotalCorpusRuns : ℕ := 20
def deflakeNeedSnapshotRuns : ℕ := 2

structure CallInfo where
  error : ℕ
  signal : List UInt64

/-- The information of one execution on the calls of the program and the extra one. -/
structure ProgInfo where
  calls : List (Option CallInfo)
  extra : Option CallInfo

inductive Result
  | stop
  | failed
  | info (info : ProgInfo)

structure TriageCall where
  errno : ℕ
  newSignal : Signal
  /-- The array of `deflakeNeedRuns` signals. -/
  signals : ℕ → Signal

structure Env where
  snapshot : Bool
  /-- `ProgFromCorpus` -/
  fromCorpus : Bool
  /-- `CallContainsAny` for a call of the program. -/
  containsAny : ℤ → Bool
  /-- `NewInputFilter` for the name of a call. -/
  newInputFilter : ℤ → Bool
  /-- What other goroutines do to the cover before an access to it. -/
  others : ℕ → Cover → Cover

/-- A job with the cover, the number of accesses to it, and the executions so far. -/
structure Job where
  calls : AList fun _ : ℤ => TriageCall
  cover : Cover
  accesses : ℕ
  execs : List ProgInfo

variable (env : Env)

def signalPrio (info : CallInfo) (call : ℤ) : UInt8 :=
  if call = -1 then 0
  else (if info.error = 0 then 2 else 0) ||| (if env.containsAny call then 0 else 1)

/-- The signal of a call as one execution reports it. -/
def thisSignal (info : CallInfo) (call : ℤ) : Signal :=
  Signal.fromRaw info.signal (signalPrio env info call)

def addRawMaxSignal (job : Job) (info : CallInfo) (call : ℤ) : Signal × Job :=
  let (diff, cover) := (env.others job.accesses job.cover).addRawMaxSignal info.signal
    (signalPrio env info call)
  (diff, { job with cover := cover, accesses := job.accesses + 1 })

def triageProgCall (job : Job) (call : ℤ) (info : Option CallInfo) : Job :=
  match info with
  | none => job
  | some info =>
    let (newMaxSignal, job) := addRawMaxSignal env job info call
    if newMaxSignal.empty then job
    else if !env.newInputFilter call then job
    else { job with calls := job.calls.insert call {
      errno := info.error
      newSignal := newMaxSignal
      signals := fun j => if j = 0 then thisSignal env info call else ∅ } }

/-- What is done for every call and the extra one, with the information on them. -/
def forCalls (f : Job → ℤ → Option CallInfo → Job) (info : ProgInfo) (job : Job) : Job :=
  f (info.calls.zipIdx.foldl (fun job c => f job c.2 c.1) job) (-1) info.extra

/-- The job that `processResult` starts for an execution. -/
def newJob (cover : Cover) (info : ProgInfo) : Job :=
  forCalls (triageProgCall env) info ⟨∅, cover, 0, [info]⟩

def needRuns : ℕ :=
  if env.snapshot then deflakeNeedSnapshotRuns
  else if !env.fromCorpus then deflakeNeedRuns
  else deflakeNeedCorpusRuns

/-- The loop over `signals` goes down, so every signal is updated from the old one before it. -/
def shiftSignals (signals : ℕ → Signal) (this : Signal) (j : ℕ) : Signal :=
  if j = 0 then (signals 0).merge this
  else if j < needRuns env then (signals j).merge ((signals (j - 1)).intersection this)
  else signals j

/-- A call that is not in the job is added to it if there is something new. -/
def withCall (job : Job) (call : ℤ) (res : Option CallInfo) : Job :=
  if call ∈ job.calls then job else triageProgCall env job call res

def deflakeCall (job : Job) (call : ℤ) (res : Option CallInfo) : Job :=
  let job := withCall env job call res
  match job.calls.lookup call, res with
  | some info, some res =>
    let (newMaxSignal, job) := addRawMaxSignal env job res call
    { job with calls := job.calls.insert call { info with
        newSignal := info.newSignal.merge newMaxSignal
        signals := shiftSignals env info.signals (thisSignal env res call) } }
  | _, _ => job

def stopDeflake (job : Job) (run : ℕ) (noNewSignal : Bool) : Bool :=
  if env.snapshot then needRuns env + 1 ≤ run
  else
    let calls := job.calls.entries.map Sigma.snd
    let haveSignal := calls.all fun call =>
      call.newSignal.intersectsWith (call.signals (needRuns env - 1))
    if !env.fromCorpus then
      let left := deflakeMaxRuns - run
      let noChance := calls.all fun call => !(decide (needRuns env ≤ left) ||
        call.newSignal.intersectsWith (call.signals (needRuns env - left - 1)))
      decide (deflakeMaxRuns ≤ run) || haveSignal || noChance
    else decide (deflakeTotalCorpusRuns ≤ run) || noNewSignal &&
      (decide (deflakeMaxCorpusRuns ≤ run) || decide (deflakeMinCorpusRuns ≤ run) && haveSignal)

def totalNewSignal (job : Job) : ℕ :=
  (job.calls.entries.map fun call => call.2.newSignal.keys.length).sum

/-- What `deflake` returns, with the job then. -/
inductive Outcome
  | stopped
  | finished (job : Job)

/-- The loop of `deflake`; `none` if there are not enough results. -/
def deflakeLoop : List Result → ℕ → ℕ → Job → Option Outcome
  | results, run, prevTotalNewSignal, job =>
    if stopDeflake env job run (prevTotalNewSignal = totalNewSignal job) then some (.finished job)
    else
      match results with
      | [] => none
      | .stop :: _ => some .stopped
      | .failed :: results => deflakeLoop results (run + 1) (totalNewSignal job) job
      | .info info :: results =>
        deflakeLoop results (run + 1) (totalNewSignal job)
          (forCalls (deflakeCall env) info { job with execs := job.execs ++ [info] })

def deflake (results : List Result) (job : Job) : Option Outcome := deflakeLoop env results 1 0 job

/-- `info.stableSignal` after `deflake`. -/
def stableSignal (info : TriageCall) : Signal := info.signals (needRuns env - 1)

end KConfuzz.Deflake
