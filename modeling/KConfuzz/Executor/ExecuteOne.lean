import KConfuzz.Executor.Config
import KConfuzz.Executor.Input

/-!
# Executing a program (`execute_one` in `executor/executor.cc`)

The main thread reads one instruction after another and hands the calls to up to `kMaxThreads`
worker threads. Main thread and workers share, for each worker, two events (`ready` and `done`)
and the call to execute. In the non-threaded mode the main thread executes the calls itself.

The model is a step function on a state. `Control` is the place the main thread has got to: the
heads of its loops, and one iteration of each loop over the threads, so that the steps of the
workers fall between any two of these. An `Event` says whose turn it is and everything that the
program does not decide: how calls end, when a wait is over, which accesses to the environment
fail. A check that fails ends the process with the message of the `exitf` or `fail` of the
source. The contents of the output and the debug log are left out.
-/

namespace KConfuzz.Executor

open Lib.ExceptFold

def kMaxThreads : ℕ := 32

/-- Entries of the output. -/
def kMaxCalls : ℕ := 64

/-! ## The state -/

/-- `thread_t`. The events are their state; `failed` says that `res` is -1. -/
structure Thread where
  created : Bool
  ready : Bool
  done : Bool
  executing : Bool
  copyoutPos : List UInt8
  copyoutIndex : UInt64
  callProps : CallProps
  failed : Bool
deriving DecidableEq, Repr

/-- An element of the static array `threads` when the process starts. -/
def Thread.zero : Thread :=
  { created := false, ready := false, done := false, executing := false, copyoutPos := []
    copyoutIndex := 0, callProps := .zero, failed := false }

/-- What the main thread does after it looked for completed calls. -/
inductive After where
  | call
  | config (a : ConfigAction)
  | eof
deriving DecidableEq, Repr

/-- Where the main thread is. -/
inductive Control where
  | header
  | fetch
  /-- `schedule_call` looks at thread `i`. -/
  | schedule (i : ℕ) (copyoutIndex : UInt64)
  /-- A call is about to be executed by the main thread. -/
  | direct (i : ℕ)
  /-- In `event_timedwait` for the call of thread `i`. -/
  | waitCall (i : ℕ)
  /-- At the head of the loop of `kconfuzz_wait_for_running_calls`, before the action. -/
  | waitConfig (a : ConfigAction)
  /-- Checks if the call of thread `i` has completed. -/
  | poll (i : ℕ) (after : After)
  /-- At the head of the loop that gives unfinished calls some additional time. -/
  | waitEof
  /-- Writes the output for thread `i` if its call is unfinished. -/
  | unfinished (i : ℕ)
  | restore
  /-- Writes the extra output, after the restore. -/
  | extra
  | returned
  | exited (msg : String)
deriving DecidableEq, Repr

/-- `execute_one` has returned or ended the process. -/
def Control.isFinal : Control → Bool
  | returned | exited _ => true
  | _ => false

/-- What the process is started with. `collect` says that signal or cover is collected,
`openedKcov` is the number of threads with an open `cov.fd`, `syscalls` the size of the table of
that name. -/
structure Setup where
  threaded : Bool
  flagCoverage : Bool
  collect : Bool
  extraCoverage : Bool
  comparisons : Bool
  openedKcov : ℕ
  syscalls : ℕ
  configs : List RuntimeConfigEntry

/-- `cover_collection_required` -/
def Setup.coverage (setup : Setup) : Bool :=
  setup.flagCoverage && (setup.collect || setup.comparisons)

/-- `pending` is no variable of the source: an action without `NO_RESTORE` has been applied, and
the restore has not been called since. -/
structure State where
  control : Control
  inputPos : List UInt8
  threads : ℕ → Thread
  running : ℤ
  completed : ℕ
  callProps : CallProps
  config : ConfigState
  pending : Bool

def State.setThread (s : State) (i : ℕ) (th : Thread) : State :=
  { s with threads := Function.update s.threads i th }

/-- What is not up to the main thread in one of its steps: the time for a wait is over
(`expired`), a call that it executes itself returns -1 (`failed`), extra coverage has been
collected (`extra`), a check on the environment fails with a message (`fault`: kcov, `mmap`,
`pthread_create`, `fail-nth`), and the accesses to proc files. -/
structure Choice where
  expired : Bool := false
  failed : Bool := false
  extra : Bool := false
  fault : Option String := none
  apply : ApplyEnv := { saveRead := .ok, flipRead := .ok, write := .ok }
  restore : ℕ → Access := fun _ => .ok

variable (setup : Setup) (c : Choice) (s : State) (i : ℕ)

/-- A failed check on the environment. -/
def Choice.check : Except String Unit :=
  match c.fault with
  | some msg => .error msg
  | none => .ok ()

/-! ## Output -/

/-- `write_output`: takes the next entry of the output. -/
def writeOutput : Except String State := do
  c.check
  failIf (kMaxCalls ≤ s.completed) "too many calls in output"
  return { s with completed := s.completed + 1 }

/-- Extra coverage is to be written. -/
def Setup.writesExtra : Bool :=
  setup.coverage && setup.extraCoverage && !setup.comparisons && c.extra

/-- `write_extra_output` -/
def writeExtraOutput : Except String State :=
  if setup.writesExtra c then writeOutput c s else .ok s

/-! ## Calls -/

/-- `if (th->res != (intptr_t)-1) copyout_call_results(th)` -/
def copyoutResults (th : Thread) : Except String Unit :=
  if th.failed then .ok () else copyoutCallResults th.copyoutIndex th.copyoutPos

/-- `handle_completion` of thread `i`. -/
def handleCompletion : Except String State := do
  let th := s.threads i
  failIf (th.ready ∨ ¬ th.done ∨ ¬ th.executing) "bad thread state in completion"
  copyoutResults th
  let s ← writeOutput c s
  let s ← writeExtraOutput setup c s
  failIf (s.running - 1 < 0) "negative running"
  return { s.setThread i { th with executing := false } with running := s.running - 1 }

/-- `thread_create` -/
def threadCreate : Except String State := do
  failIf (setup.coverage ∧ setup.openedKcov ≤ i) "out of opened kcov threads"
  c.check
  return s.setThread i
    { s.threads i with created := true, executing := false, ready := false, done := true }

/-- `if (!th->created) thread_create(…)` -/
def ensureCreated : Except String State :=
  if (s.threads i).created then .ok s else threadCreate setup c s i

/-- `if (th->executing) handle_completion(th)` -/
def completeIfExecuting : Except String State :=
  if (s.threads i).executing then handleCompletion setup c s i else .ok s

/-- `if (flag_coverage) cover_reset(&th->cov)` -/
def coverReset : Except String Unit :=
  if setup.flagCoverage then c.check else .ok ()

/-- The second half of `schedule_call`: hand the call to thread `i`. -/
def startCall (copyoutIndex : UInt64) : Except String State := do
  let th := s.threads i
  failIf (th.ready ∨ ¬ th.done ∨ th.executing) "bad thread state in schedule"
  coverReset setup c
  let th :=
    { th with
      copyoutPos := s.inputPos
      copyoutIndex
      done := false
      executing := true
      callProps := s.callProps
      ready := true }
  return { s.setThread i th with running := s.running + 1 }

/-- Where the main thread goes on after `schedule_call`. -/
def afterSchedule : State :=
  if s.callProps.async && setup.threaded then { s with callProps := .zero, control := .fetch }
  else if setup.threaded then { s with control := .waitCall i }
  else { s with control := .direct i }

/-- An iteration of the loop of `schedule_call` that looks for a spare thread. -/
def scheduleCall (copyoutIndex : UInt64) :
    Except String State := do
  failIf (kMaxThreads ≤ i) "out of threads"
  let s ← ensureCreated setup c s i
  if (s.threads i).done then
    let s ← completeIfExecuting setup c s i
    let s ← startCall setup c s i copyoutIndex
    return afterSchedule setup s i
  else return { s with control := .schedule (i + 1) copyoutIndex }

/-- The checks of `execute_call`. -/
def checkCall (props : CallProps) (fault : Option String) : Except String Unit := do
  failIf (0 < props.failNth ∧ 0 < props.rerun)
    "both fault injection and rerun are enabled for the same call"
  match fault with
  | some msg => throw msg
  | none => return

/-- The call of thread `i` is executed by the main thread. -/
def executeDirectly : Except String State := do
  failIf (i ≠ 0) "using non-main thread in non-thread mode"
  checkCall (s.threads i).callProps c.fault
  let s := s.setThread i { s.threads i with ready := false, done := true, failed := c.failed }
  let s ← handleCompletion setup c s i
  return { s with callProps := .zero, control := .fetch }

/-- `if (th->executing && event_isset(&th->done)) handle_completion(th)` -/
def completeIfDone : Except String State :=
  if (s.threads i).executing && (s.threads i).done then handleCompletion setup c s i else .ok s

/-! ## Instructions -/

/-- The first step of an instruction. -/
def execInstr : Instr → State
  | .eof => { s with control := if 0 < s.running then .waitEof else .restore }
  | .copyin _ => s
  -- The copyout will happen when/if the call completes.
  | .copyout _ => s
  | .setProps props => { s with callProps := props }
  | .kconfuzzConfig i => { s with control := .waitConfig ⟨i.paramID, i.valueID, i.flags⟩ }
  | .call _ copyoutIndex _ => { s with control := .schedule 0 copyoutIndex }

/-- The number of a call is in the table. -/
def checkNumber : Instr → Except String Unit
  | .call id _ _ => failIf (setup.syscalls ≤ id.toNat) "invalid syscall number"
  | _ => .ok ()

def fetchStep : Except String State := do
  let ((instr, _), rest) ← fetchInstr () s.inputPos
  checkNumber setup instr
  checkInstr instr
  return execInstr { s with inputPos := rest } instr

/-- An action has been written that the restore is to undo. -/
def appliesRestorable (a : ConfigAction) (attempt : Option WriteAttempt) : Bool :=
  attempt.any (·.ok) && !a.noRestore

/-- `kconfuzz_apply_config_action` -/
def applyConfig (a : ConfigAction) : State :=
  let applied := kconfuzzApplyConfigAction setup.configs s.config a c.apply
  { s with
    config := applied.1
    pending := s.pending || appliesRestorable a applied.2
    control := .fetch }

/-- Where the main thread goes on when all threads have been looked at. -/
def afterPoll : After → State
  | .call => { s with callProps := .zero, control := .fetch }
  | .config a => { s with control := .waitConfig a }
  | .eof => { s with control := .waitEof }

/-- `kconfuzz_restore_config_actions` -/
def restoreConfig : State :=
  { s with
    config := (kconfuzzRestoreConfigActions setup.configs c.restore s.config).1
    pending := false
    control := .extra }

/-- The output of a call that is not over. -/
def writeUnfinished : Except String State :=
  if (s.threads i).executing then writeOutput c s else .ok s

/-- `execute_one` sets up the coverage of the main thread or the extra coverage first. -/
def Setup.coversFirst : Bool := setup.coverage && (!setup.threaded || setup.extraCoverage)

/-- A step of the main thread. -/
def mainStep (c : Choice) : Except String State :=
  match s.control with
  | .header => do
    if setup.coversFirst then c.check
    let (_, rest) ← readInput () s.inputPos
    return { s with inputPos := rest, control := .fetch }
  | .fetch => fetchStep setup s
  | .schedule i copyoutIndex => scheduleCall setup c s i copyoutIndex
  | .direct i => executeDirectly setup c s i
  | .waitCall i =>
    if (s.threads i).done then do
      let s ← handleCompletion setup c s i
      return { s with control := .poll 0 .call }
    else if c.expired then .ok { s with control := .poll 0 .call }
    else .ok s
  | .waitConfig a =>
    if setup.threaded && decide (0 < s.running) && !c.expired then
      .ok { s with control := .poll 0 (.config a) }
    else .ok (applyConfig setup c s a)
  | .poll i after =>
    if i < kMaxThreads then do
      let s ← completeIfDone setup c s i
      return { s with control := .poll (i + 1) after }
    else .ok (afterPoll s after)
  | .waitEof =>
    if 0 < s.running then
      .ok { s with control := if c.expired then .unfinished 0 else .poll 0 .eof }
    else .ok { s with control := .restore }
  | .unfinished i =>
    if i < kMaxThreads then do
      let s ← writeUnfinished c s i
      return { s with control := .unfinished (i + 1) }
    else .ok { s with control := .restore }
  | .restore => .ok (restoreConfig setup c s)
  | .extra => do
    let s ← writeExtraOutput setup c s
    let again := setup.extraCoverage && !c.expired && decide (s.completed < kMaxCalls)
    return { s with control := if again then .extra else .returned }
  | .returned | .exited _ => .ok s

/-! ## Runs -/

inductive Event where
  | main (c : Choice)
  /-- The worker of thread `i` takes the call; a check of `execute_call` may fail. -/
  | start (i : ℕ) (fault : Option String)
  /-- The call of thread `i` is over, or a check in it or behind it fails. -/
  | finish (i : ℕ) (failed : Bool) (fault : Option String)

/-- The worker of thread `i` finds `ready` set. -/
def canStart : Bool :=
  setup.threaded && (s.threads i).created && (s.threads i).ready

/-- The worker of thread `i` is in the middle of a call. -/
def canFinish : Bool :=
  setup.threaded && (s.threads i).executing && !(s.threads i).ready && !(s.threads i).done

def Event.next : Event → Except String State
  | .main c => mainStep setup s c
  | .start i fault =>
    if canStart setup s i then do
      checkCall (s.threads i).callProps fault
      return s.setThread i { s.threads i with ready := false }
    else .ok s
  | .finish i failed fault =>
    if canFinish setup s i then
      match fault with
      | some msg => .error msg
      | none => .ok (s.setThread i { s.threads i with done := true, failed })
    else .ok s

/-- A step of the process; nothing happens any more once it is over. -/
def step (e : Event) : State :=
  if s.control.isFinal then s
  else
    match e.next setup s with
    | .ok s' => s'
    | .error msg => { s with control := .exited msg }

def run (events : List Event) : State := events.foldl (step setup) s

/-- The thread has no call and, if it exists, waits for one. -/
def Thread.Idle (th : Thread) : Prop :=
  th.executing = false ∧ (th.created = true → th.ready = false ∧ th.done = true)

/-- The process is about to execute the program in `input_data`. Threads may have been created
before, as in the snapshot mode. -/
structure State.Start (s : State) (input : List UInt8) : Prop where
  control : s.control = .header
  inputPos : s.inputPos = input
  idle : ∀ i, (s.threads i).Idle
  running : s.running = 0
  completed : s.completed = 0
  callProps : s.callProps = .zero
  pending : s.pending = false

end KConfuzz.Executor
