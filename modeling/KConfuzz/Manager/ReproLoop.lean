import Mathlib.Data.List.Basic

/-!
# The loop that schedules reproductions

`pkg/manager`: crashes are queued by `Enqueue`, and one loop takes them from the queue and starts a
goroutine for the reproduction of each, as long as there are free slots. The loop is woken through
`pingQueue`, a channel with room for one ping, to which `Enqueue` and the goroutines that end send
without waiting.

The scheduler is a state machine whose steps are the critical sections and channel operations of
the code. The logs and the statistics are left out.
-/

namespace KConfuzz.ReproLoop

/-- The fields of a crash that the loop reads. A crash without a title comes from the dashboard or
from the hub. -/
structure Crash where
  fromHub : Bool
  fromDashboard : Bool
  manual : Bool
  fullRepro : Bool
  title : String
  /-- What `%p` prints for the crash. -/
  address : String
  expected : title ≠ "" ∨ fromDashboard = true ∨ fromHub = true

def Crash.fullTitle (c : Crash) : String :=
  let suffix := if c.fullRepro then " (full)" else ""
  if c.title ≠ "" then c.title ++ suffix
  else if c.fromDashboard then "dashboard crash " ++ c.address ++ suffix
  else "crash from hub " ++ c.address ++ suffix

/-- Where the loop is. -/
inductive Pc
  /-- Before `popCrash`. -/
  | pop
  /-- Before the call of `NeedRepro` for the crash. -/
  | check (crash : Crash)
  /-- The crash is not needed and the size of the pool is to be adjusted. -/
  | aborted
  /-- In the `select` on `pingQueue`. -/
  | waitPing
  /-- In the `select` on `parallel`. -/
  | waitSlot (crash : Crash)
  /-- Behind that `select`. -/
  | start (crash : Crash)
  | terminated

/-- The crash that is neither in the queue nor being reproduced. -/
def Pc.crash? : Pc → Option Crash
  | .check crash | .waitSlot crash | .start crash => some crash
  | _ => none

def Pc.isStart : Pc → Bool
  | .start _ => true
  | _ => false

structure Loop where
  onlyOnce : Bool
  reproVMs : ℕ
  parallel : ℕ
  pingQueue : Bool
  queue : List Crash
  reproducing : List String
  enqueued : List String
  attempts : String → ℕ
  /-- The last argument of `ResizeReproPool`. -/
  poolSize : Option ℕ
  pc : Pc
  /-- The titles of the goroutines before `delete(r.reproducing, title)`. -/
  handling : List String
  /-- The titles of the goroutines between that and `r.parallel <- struct{}{}`. -/
  ended : List String
  /-- The titles of the goroutines between that and the ping. -/
  released : List String

def calculateReproVMs (reproVMs repros : ℕ) : ℕ :=
  if reproVMs = 1 ∧ repros = 1 then 1 else (repros * 4 + 2) / 3

/-- The loop that fills `parallel`. The channel has room for `reproVMs` tokens. -/
def countLoop (reproVMs : ℕ) : (room count : ℕ) → ℕ
  | 0, count => count
  | room + 1, count =>
    if calculateReproVMs reproVMs (count + 1) ≤ reproVMs then countLoop reproVMs room (count + 1)
    else count

/-- The number of tokens at the start. -/
def slots (reproVMs : ℕ) : ℕ := countLoop reproVMs reproVMs 0

/-- The loop when `parallel` is filled. -/
def newReproLoop (reproVMs : ℕ) (onlyOnce : Bool) : Loop where
  onlyOnce := onlyOnce
  reproVMs := reproVMs
  parallel := slots reproVMs
  pingQueue := false
  queue := []
  reproducing := []
  enqueued := []
  attempts _ := 0
  poolSize := none
  pc := .pop
  handling := []
  ended := []
  released := []

namespace Loop

variable (r : Loop)

/-- A send to `pingQueue` that does not wait. -/
def ping : Loop := { r with pingQueue := true }

def enqueue (crash : Crash) : Loop :=
  let title := crash.fullTitle
  if r.onlyOnce ∧ title ∈ r.enqueued then r
  else { r with enqueued := title :: r.enqueued, queue := r.queue ++ [crash] }.ping

def newBetter (base new : Crash) : Bool :=
  if base.fullRepro ≠ new.fullRepro then new.fullRepro
  else
    let baseTitle := base.fullTitle
    let newTitle := new.fullTitle
    if r.attempts baseTitle ≠ r.attempts newTitle then r.attempts newTitle < r.attempts baseTitle
    else if new.manual ≠ base.manual then new.manual
    else if new.fromHub ≠ base.fromHub then !new.fromHub
    else false

/-- The best crash of the queue with its index, starting with the one at index `i`. -/
def popLoop (found : Option (ℕ × Crash)) (i : ℕ) : List Crash → Option (ℕ × Crash)
  | [] => found
  | crash :: queue =>
    if crash.fullTitle ∈ r.reproducing then popLoop found (i + 1) queue
    else if found.all fun best => r.newBetter best.2 crash then
      popLoop (some (i, crash)) (i + 1) queue
    else popLoop found (i + 1) queue

def popCrash : Option Crash × Loop :=
  match r.popLoop none 0 r.queue with
  | none => (none, r)
  | some (idx, crash) => (some crash, { r with queue := r.queue.eraseIdx idx })

def adjustPoolSize : Loop :=
  let uniqueTitles := (r.reproducing ++ r.queue.map Crash.fullTitle).dedup
  { r with
    poolSize := some (min r.reproVMs (calculateReproVMs r.reproVMs uniqueTitles.length)) }

/-- The critical section in which a reproduction is started, and the start of its goroutine. -/
def begin (crash : Crash) : Loop :=
  let title := crash.fullTitle
  { r with
    attempts := Function.update r.attempts title (r.attempts title + 1)
    reproducing := r.reproducing.insert title
    handling := title :: r.handling
    pc := .pop }.adjustPoolSize

/-- The critical section in which a reproduction is finished. -/
def finish (title : String) : Loop :=
  { r with
    reproducing := r.reproducing.filter (· ≠ title)
    handling := r.handling.erase title
    ended := title :: r.ended }.adjustPoolSize

end Loop

inductive Step
  | enqueue (crash : Crash)
  | popCrash
  | needRepro (answer : Bool)
  | adjust
  | receivePing
  | takeSlot
  | begin
  | finish (title : String)
  | release (title : String)
  | sendPing (title : String)
  /-- The context is cancelled and the loop takes that branch of a `select`. -/
  | cancel

def step (r : Loop) : Step → Option Loop
  | .enqueue crash => some (r.enqueue crash)
  | .popCrash =>
    match r.pc with
    | .pop =>
      match r.popCrash with
      | (none, r) => some { r with pc := .waitPing }
      | (some crash, r) => some { r with pc := .check crash }
    | _ => none
  | .needRepro answer =>
    match r.pc with
    | .check crash => some { r with pc := if answer then .waitSlot crash else .aborted }
    | _ => none
  | .adjust =>
    match r.pc with
    | .aborted => some { r.adjustPoolSize with pc := .pop }
    | _ => none
  | .receivePing =>
    match r.pc with
    | .waitPing => if r.pingQueue then some { r with pingQueue := false, pc := .pop } else none
    | _ => none
  | .takeSlot =>
    match r.pc with
    | .waitSlot crash =>
      if 0 < r.parallel then some { r with parallel := r.parallel - 1, pc := .start crash } else none
    | _ => none
  | .begin =>
    match r.pc with
    | .start crash => some (r.begin crash)
    | _ => none
  | .finish title => if title ∈ r.handling then some (r.finish title) else none
  | .release title =>
    if title ∈ r.ended ∧ r.parallel < r.reproVMs then
      some { r with
        ended := r.ended.erase title
        released := title :: r.released
        parallel := r.parallel + 1 }
    else none
  | .sendPing title =>
    if title ∈ r.released then some { r with released := r.released.erase title }.ping else none
  | .cancel =>
    match r.pc with
    | .waitPing => some { r with pc := .terminated }
    | .waitSlot _ => some { r with pc := .terminated }
    | _ => none

def run (r : Loop) : List Step → Option Loop
  | [] => some r
  | s :: steps => (step r s).bind fun r => run r steps

end KConfuzz.ReproLoop
