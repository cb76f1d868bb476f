import Mathlib.Data.List.FinRange

/-!
# The pool of instances

`vm/dispatcher`: a pool boots its instances over and over and runs a job on each. An instance that
is not reserved runs the default job, a reserved one waits for a job that is given to `Run`. The
operations `ReserveForRun`, `SetDefault` and `TogglePause` hold the mutex of the pool and go
through the instances one by one; between any two of their steps the loops of the instances go on.
An instance reads what it should do and acts on it in two steps, and an operation that releases an
instance first changes the instance and then offers it the job, without waiting for it.

The pool is a state machine whose steps are the critical sections and channel operations of the
code. A job is a value of any type.
-/

namespace KConfuzz.Dispatcher

variable {J : Type} {n : ℕ}

/-- Where the loop of an instance is. -/
inductive Phase (J : Type)
  /-- At the start of `runInstance`, waiting until the pool is not paused. -/
  | idle
  /-- Between `waitUnpaused` and `reset`. -/
  | unpaused
  /-- Between `reset` and the end of the boot. -/
  | booting
  /-- Behind the critical section in which `job` and `jobChan` are read. -/
  | ready (job : Option J) (jobChan : Bool)
  /-- In the `select` for a job, on the channel that was read. -/
  | waiting (jobChan : Bool)
  | running (job : J)
deriving DecidableEq, Repr

/-- The instance is in the `select`. -/
def Phase.isWaiting : Phase J → Bool
  | .waiting _ => true
  | _ => false

structure PoolInstance (J : Type) where
  job : Option J
  /-- Whether the field holds the pool's channel of jobs, or is nil. -/
  jobChan : Bool
  /-- Which channel `reset` made last. -/
  switchToJob : ℕ
  /-- Whether the context of the current boot was cancelled, by `stop` or with the pool. -/
  cancelled : Bool
  phase : Phase J
deriving DecidableEq, Repr

/-- What is left to do for the operation that holds the pool's mutex. -/
inductive Todo (J : Type) (n : ℕ)
  | reserve (i : Fin n)
  | free (i : Fin n)
  /-- The end of `free`: offer the job on the channel that was read. -/
  | send (i : Fin n) (switchToJob : ℕ) (job : J)
deriving DecidableEq, Repr

structure Pool (J : Type) (n : ℕ) where
  defaultJob : J
  paused : Bool
  /-- The context of the loop was cancelled. -/
  stopped : Bool
  instances : Fin n → PoolInstance J
  todo : List (Todo J n)

def newPool (n : ℕ) (defaultJob : J) : Pool J n where
  defaultJob := defaultJob
  paused := false
  stopped := false
  instances _ := ⟨some defaultJob, false, 0, false, .idle⟩
  todo := []

namespace Pool

variable (p : Pool J n)

def set (i : Fin n) (inst : PoolInstance J) : Pool J n :=
  { p with instances := Function.update p.instances i inst }

lemma set_instances_self (i : Fin n) (inst : PoolInstance J) :
    (p.set i inst).instances i = inst := by
  show Function.update p.instances i inst i = inst
  rw [Function.update_self]

lemma set_instances_of_ne {i k : Fin n} (hk : k ≠ i) (inst : PoolInstance J) :
    (p.set i inst).instances k = p.instances k := by
  show Function.update p.instances i inst k = p.instances k
  rw [Function.update_of_ne hk]

/-! ## The operations -/

/-- The instances that are or are not reserved, in order. -/
def select (reserved : Bool) : List (Fin n) :=
  (List.finRange n).filter fun i => (p.instances i).jobChan == reserved

def kickDefault : Pool J n := { p with todo := (p.select false).map .free }

def setDefault (defaultJob : J) : Pool J n := { p with defaultJob := defaultJob }.kickDefault

def togglePause (paused : Bool) : Pool J n :=
  if paused then { p with paused := true }.kickDefault else { p with paused := false }

/-- Only one of the two loops has something to do. -/
def reserveForRun (count : ℕ) : Pool J n :=
  { p with todo :=
      ((p.select false).take (count - (p.select true).length)).map .reserve ++
        ((p.select true).take ((p.select true).length - count)).map .free }

/-- The instance is told to stop and belongs to the reserved ones. -/
def reserveInst (i : Fin n) : Pool J n :=
  let inst := p.instances i
  p.set i { inst with cancelled := true, jobChan := true, job := none }

/-- The critical section of `free`; an instance that has a job already is told to stop. -/
def freeInst (i : Fin n) : Pool J n :=
  let inst := p.instances i
  p.set i { inst with
    cancelled := inst.cancelled || inst.job.isSome
    job := some p.defaultJob
    jobChan := false }

/-- The instance is in its `select`, listening on the channel. -/
def listens (i : Fin n) (switchToJob : ℕ) : Bool :=
  (p.instances i).phase.isWaiting && !(p.instances i).cancelled &&
    (p.instances i).switchToJob == switchToJob

/-- The next step of the operation that holds the mutex. -/
def work : Option (Pool J n) :=
  match p.todo with
  | [] => none
  | .reserve i :: todo => some { p.reserveInst i with todo := todo }
  | .free i :: todo =>
    some { p.freeInst i with todo := .send i (p.instances i).switchToJob p.defaultJob :: todo }
  | .send i switchToJob job :: todo =>
    -- the offer is dropped if nobody listens at this moment
    if p.listens i switchToJob then
      let inst := p.instances i
      some { p.set i { inst with phase := .running job } with todo := todo }
    else some { p with todo := todo }

end Pool

/-! ## Steps -/

/-- The steps of the loop of an instance. -/
inductive InstStep (J : Type)
  /-- `waitUnpaused` returns. -/
  | waitUnpaused
  /-- The instance is reset, outside the mutex of the pool. -/
  | boot
  | bootError
  /-- The instance reads its job and its channel. -/
  | read
  /-- The instance runs the job it has read, or starts to wait. -/
  | act
  /-- A call of `Run` gives its job to the instance. -/
  | run (job : J)
  /-- The instance stops to wait because its context was cancelled. -/
  | leave
  | finish
deriving DecidableEq, Repr

/-- A boot gets a context of its own, below the one of the loop. -/
def PoolInstance.step (stopped : Bool) (inst : PoolInstance J) :
    InstStep J → Option (PoolInstance J)
  | .waitUnpaused =>
    match inst.phase with
    | .idle => some { inst with phase := .unpaused }
    | _ => none
  | .boot =>
    match inst.phase with
    | .unpaused => some { inst with
        phase := .booting, cancelled := stopped, switchToJob := inst.switchToJob + 1 }
    | _ => none
  | .bootError =>
    match inst.phase with
    | .booting => some { inst with phase := .idle }
    | _ => none
  | .read =>
    match inst.phase with
    | .booting => some { inst with phase := .ready inst.job inst.jobChan }
    | _ => none
  | .act =>
    match inst.phase with
    | .ready (some job) _ => some { inst with phase := .running job }
    | .ready none jobChan => some { inst with phase := .waiting jobChan }
    | _ => none
  | .run job =>
    match inst.phase with
    | .waiting true => some { inst with phase := .running job }
    | _ => none
  | .leave =>
    match inst.phase, inst.cancelled with
    | .waiting _, true => some { inst with phase := .idle }
    | _, _ => none
  | .finish =>
    match inst.phase with
    | .running _ => some { inst with phase := .idle }
    | _ => none

inductive Step (J : Type) (n : ℕ)
  | setDefault (defaultJob : J)
  | togglePause (paused : Bool)
  | reserveForRun (count : ℕ)
  /-- A step of the operation that holds the mutex of the pool. -/
  | work
  | inst (i : Fin n) (s : InstStep J)
  | stop
deriving DecidableEq, Repr

namespace Pool

variable (p : Pool J n)

/-- The mutex of the pool is free. -/
def unlocked : Prop := p.todo.length = 0

instance : Decidable p.unlocked := inferInstanceAs (Decidable (_ = _))

/-- `waitUnpaused` returns when it gets the mutex and the pool is not paused. -/
def allows : InstStep J → Prop
  | .waitUnpaused => p.unlocked ∧ p.paused = false
  | _ => True

instance (s : InstStep J) : Decidable (p.allows s) := by
  unfold allows
  split <;> infer_instance

def step : Step J n → Option (Pool J n)
  | .setDefault defaultJob => if p.unlocked then some (p.setDefault defaultJob) else none
  | .togglePause paused => if p.unlocked then some (p.togglePause paused) else none
  | .reserveForRun count =>
    if p.unlocked ∧ count ≤ n then some (p.reserveForRun count) else none
  | .work => p.work
  | .inst i s =>
    if p.allows s then ((p.instances i).step p.stopped s).map (p.set i) else none
  | .stop => some { p with
      stopped := true, instances := fun i => { p.instances i with cancelled := true } }

def run : Pool J n → List (Step J n) → Option (Pool J n)
  | p, [] => some p
  | p, s :: steps => (p.step s).bind fun p => run p steps

end Pool

end KConfuzz.Dispatcher
