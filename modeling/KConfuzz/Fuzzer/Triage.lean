import Mathlib.Data.Int.Notation
import Mathlib.Data.Nat.Notation

/-!
# The triage of candidates (`pkg/fuzzer/fuzzer.go`)

Requests, triage jobs and the callers of `CandidateTriageFinished` run concurrently. They share
two counters, `statCandidates` and `statJobsTriageCandidate`. An event is what one of them does
between two accesses to what is shared, and a run is any sequence of events: `AddCandidates` first
counts all candidates and then enqueues them one by one, `processResult` starts a job and then
either enqueues the request anew or counts it as done, the goroutine of a job counts itself, and
`CandidatesToTriage` reads one counter after the other.

What the results of the executions are, in which order the requests are taken from the queues, and
what the jobs do is left open.
-/

namespace KConfuzz.Triage

structure ProgFlags where
  fromCorpus : Bool
  candidate : Bool
  inTriage : Bool
deriving DecidableEq, Repr

inductive Status where
  | success
  | execFailure
  | crashed
  | restarted
  | hanged
deriving DecidableEq, Repr

/-- A result as `processResult` gets it. `newSignal` says that `triageProgCall` finds something
new in one of the calls, and `risky` is `req.Risky()`. -/
structure Result where
  status : Status
  hasInfo : Bool
  newSignal : Bool
  risky : Bool
deriving DecidableEq, Repr

structure Config where
  snapshot : Bool
deriving DecidableEq, Repr

/-! ## What to do with a result -/

/-- `len(triage) != 0`; a request that does not collect signal has nothing new. -/
def triages (flags : ProgFlags) (res : Result) : Bool :=
  res.hasInfo && !(flags.inTriage || res.status == .hanged) && res.newSignal

def maxCandidateAttempts (cfg : Config) (res : Result) : ℕ :=
  if res.risky then
    if cfg.snapshot ∨ res.status = .hanged then 0 else 2
  else 3

/-- Whether a request is enqueued anew. -/
def retries (cfg : Config) (flags : ProgFlags) (attempt : ℕ) (res : Result) : Bool :=
  !triages flags res && flags.fromCorpus && decide (attempt < maxCandidateAttempts cfg res)

/-! ## Requests and jobs -/

inductive ReqPhase where
  /-- Counted by `AddCandidates`, and not enqueued yet. -/
  | created
  | queued
  | executing
  /-- In `processResult`, before the triage part. -/
  | arrived (res : Result)
  /-- In `processResult`, after the triage part. -/
  | triaged (res : Result)
  /-- `processResult` returned true. -/
  | finished
deriving DecidableEq, Repr

/-- A request. How often it was executed, and how often it was subtracted from `statCandidates` is
there for the theorems only. -/
structure Req where
  flags : ProgFlags
  attempt : ℕ
  phase : ReqPhase
  executions : ℕ
  decrements : ℕ
deriving DecidableEq, Repr

/-- A new request. -/
def Req.new (flags : ProgFlags) (phase : ReqPhase) : Req :=
  { flags, attempt := 0, phase, executions := 0, decrements := 0 }

inductive JobPhase where
  | started
  /-- After `stat.Add(1)`. -/
  | counted
  /-- After `newJob.run`. -/
  | returned
  /-- After `stat.Add(-1)`. -/
  | ended
deriving DecidableEq, Repr

/-- A triage job; those for candidates are counted in `statJobsTriageCandidate`. -/
structure Job where
  forCandidate : Bool
  phase : JobPhase
deriving DecidableEq, Repr

structure State where
  reqs : List Req
  jobs : List Job
  statCandidates : ℤ
  statJobsTriageCandidate : ℤ
  /-- The callers of `CandidatesToTriage` that have read the first counter, and its value. -/
  readers : ℕ → Option ℤ

def State.init : State where
  reqs := []
  jobs := []
  statCandidates := 0
  statJobsTriageCandidate := 0
  readers _ := none

/-! ## Events -/

inductive Event where
  | addCandidates (flags : List ProgFlags)
  | enqueue (i : ℕ)
  /-- A request that is not for a candidate: of a job, or of `genFuzz`. -/
  | submit (inTriage : Bool)
  | next (i : ℕ)
  | done (i : ℕ) (res : Result)
  | triage (i : ℕ)
  | decide (i : ℕ)
  | countJob (j : ℕ)
  | runJob (j : ℕ)
  | endJob (j : ℕ)
  | readCandidates (k : ℕ)
  | readJobs (k : ℕ)

/-- The request `i` goes from one phase to another. -/
def State.advance (s : State) (i : ℕ) (f : Req → Option Req) : Option State := do
  let req ← s.reqs[i]?
  let req ← f req
  return { s with reqs := s.reqs.set i req }

/-- The job `j` goes from one phase to the next; `n` is what it adds to its counter. -/
def State.advanceJob (s : State) (j : ℕ) (phase phase' : JobPhase) (n : ℤ) : Option State := do
  let job ← s.jobs[j]?
  if job.phase = phase then
    return { s with
      jobs := s.jobs.set j { job with phase := phase' }
      statJobsTriageCandidate := s.statJobsTriageCandidate + if job.forCandidate then n else 0 }
  else none

/-- The triage part of `processResult`: `startJob` starts a goroutine and does not wait for it. -/
def State.triage (s : State) (i : ℕ) : Option State := do
  let req ← s.reqs[i]?
  match req.phase with
  | .arrived res =>
    return { s with
      reqs := s.reqs.set i { req with phase := .triaged res }
      jobs :=
        if triages req.flags res then
          s.jobs ++ [{ forCandidate := req.flags.candidate, phase := .started }]
        else s.jobs }
  | _ => none

/-- The end of `processResult`. -/
def State.decide (cfg : Config) (s : State) (i : ℕ) : Option State := do
  let req ← s.reqs[i]?
  match req.phase with
  | .triaged res =>
    if retries cfg req.flags req.attempt res then
      return { s with
        reqs := s.reqs.set i { req with attempt := req.attempt + 1, phase := .queued } }
    else if req.flags.candidate then
      return { s with
        reqs := s.reqs.set i { req with phase := .finished, decrements := req.decrements + 1 }
        statCandidates := s.statCandidates - 1 }
    else
      return { s with reqs := s.reqs.set i { req with phase := .finished } }
  | _ => none

/-- What an event does; none if it cannot happen now. -/
def step (cfg : Config) (s : State) : Event → Option State
  | .addCandidates flags =>
    some { s with
      reqs := s.reqs ++ flags.map fun flags => .new { flags with candidate := true } .created
      statCandidates := s.statCandidates + flags.length }
  | .enqueue i => s.advance i fun req =>
    if req.phase = .created then some { req with phase := .queued } else none
  | .submit inTriage =>
    some { s with
      reqs := s.reqs ++ [.new { fromCorpus := false, candidate := false, inTriage } .queued] }
  | .next i => s.advance i fun req =>
    if req.phase = .queued then
      some { req with phase := .executing, executions := req.executions + 1 }
    else none
  | .done i res => s.advance i fun req =>
    if req.phase = .executing then some { req with phase := .arrived res } else none
  | .triage i => s.triage i
  | .decide i => s.decide cfg i
  | .countJob j => s.advanceJob j .started .counted 1
  | .runJob j => s.advanceJob j .counted .returned 0
  | .endJob j => s.advanceJob j .returned .ended (-1)
  | .readCandidates k =>
    some { s with readers := fun k' => if k' = k then some s.statCandidates else s.readers k' }
  | .readJobs k =>
    match s.readers k with
    | some _ => some { s with readers := fun k' => if k' = k then none else s.readers k' }
    | none => none

/-- The states of a run, one after each event. -/
def run (cfg : Config) : State → List Event → Option State
  | s, [] => some s
  | s, e :: events => (step cfg s e).bind fun s => run cfg s events

/-- `CandidateTriageFinished` returns true to the caller `k` if the second counter is read now. -/
def State.candidateTriageFinished (s : State) (k : ℕ) : Bool :=
  (s.readers k).any fun candidates => candidates + s.statJobsTriageCandidate == 0

end KConfuzz.Triage
