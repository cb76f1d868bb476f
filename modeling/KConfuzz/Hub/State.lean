import KConfuzz.Lib.Batch
import KConfuzz.Lib.FiniteMap
import KConfuzz.Prog.Collide

/-!
# The state of the hub

`syz-hub/state`: managers exchange programs and reproducers through a hub. The hub keeps the
programs of all managers in one corpus, every program with the sequence number of the upload that
brought it, and for every manager the number up to which the manager has been sent programs; the
same holds for reproducers, which are numbered one by one. All of it is mirrored in a directory
from which `Make` builds the state again when the hub restarts.

File operations succeed, so a database (`pkg/db`) is the map of its records, in memory and in its
file, and no error comes from them. Managers do not become old enough to be purged. Sequence
numbers are natural numbers. The texts and counters of the status page are left out. Where the
code iterates over a Go map or sorts with `sort.Slice`, the order is a parameter.
-/

namespace KConfuzz.Hub

open Lib.FiniteMap Lib.StableSort Lib.Batch

abbrev Name := String

abbrev Domain := String

abbrev Input := List UInt8

abbrev CallName := List UInt8

/-- The hash of a program as a string. -/
abbrev Key := List UInt8

/-! ## The calls of a program -/

def ascii (c : Char) : UInt8 := c.toNat.toUInt8

/-- The lines the loop of `CallSet` takes from the data one after the other. -/
def lines : Input → List (List UInt8)
  | [] => []
  | c :: data =>
    if c = ascii '\n' then [] :: lines data
    else
      match lines data with
      | [] => [[c]]
      | ln :: lns => (c :: ln) :: lns

/-- The name of the call on a line: what stands before the bracket, without an assignment. -/
def callName (ln : List UInt8) : Except String CallName :=
  if ascii '(' ∉ ln then .error "line does not contain opening bracket"
  else
    let call := ln.takeWhile (· ≠ ascii '(')
    let call :=
      if ascii '=' ∈ call then
        ((call.dropWhile (· ≠ ascii '=')).drop 1).dropWhile (· = ascii ' ')
      else call
    if call.length = 0 then .error "call name is empty" else .ok call

/-- The names of the calls, one for each call. Empty lines and comments are skipped. -/
def callNames : List (List UInt8) → Except String (List CallName)
  | [] => .ok []
  | ln :: lns =>
    if ln.length = 0 ∨ ln.head? = some (ascii '#') then callNames lns
    else do
      let call ← callName ln
      let calls ← callNames lns
      return call :: calls

/-- `prog.CallSet`: the set of the calls of a program, as a list, and the number of calls. -/
def callSet (data : Input) : Except String (List CallName × ℕ) := do
  let calls ← callNames (lines data)
  if calls.length = 0 then .error "program does not contain any calls"
  else return (calls, calls.length)

def managerSupportsAllCalls (mgr prog : List CallName) : Bool := prog.all (· ∈ mgr)

/-! ## Data -/

structure Record where
  val : Input
  seq : ℕ
deriving DecidableEq

abbrev Records := AList fun _ : Key => Record

abbrev Entry := Sigma fun _ : Key => Record

structure Manager where
  domain : Domain
  corpusSeq : ℕ
  reproSeq : ℕ
  ownRepros : List Key
  /-- `!Connected.IsZero()` -/
  connected : Bool
  calls : List CallName
  corpus : Records

abbrev Managers := AList fun _ : Name => Manager

/-- The files in the directory of a manager. A file that does not exist is `none`. -/
structure ManagerDir where
  seq : Option ℕ
  reproSeq : Option ℕ
  domain : Option Domain
  corpus : Records

def ManagerDir.empty : ManagerDir := ⟨none, none, none, ∅⟩

/-- The directory of the hub. -/
structure Dir where
  corpus : Records
  repros : Records
  managers : AList fun _ : Name => ManagerDir

def Dir.empty : Dir := ⟨∅, ∅, ∅⟩

structure State where
  corpusSeq : ℕ
  reproSeq : ℕ
  dir : Dir
  corpus : Records
  repros : Records
  managers : Managers

inductive Error
  /-- `unconnected manager %v` -/
  | unconnected (name : Name)
  /-- `failed to extract call set: %w\nprogram: %s` -/
  | callSet (err : String) (program : Input)
deriving DecidableEq

variable (hash : Input → Key) (st : State) (name : Name) (mgr : Manager)

def State.modifyManager (f : Manager → Manager) : State :=
  { st with managers := modify st.managers name f }

/-- Writes files of a manager, whose directory has been made by `createManager`. -/
def State.modifyFiles (f : ManagerDir → ManagerDir) : State :=
  { st with dir := { st.dir with managers := modify st.dir.managers name f } }

/-! ## Files -/

def loadSeqFile (file : Option ℕ) : ℕ := file.getD 0

def State.saveCorpusSeq (seq : ℕ) : State :=
  st.modifyFiles name fun files => { files with seq := some seq }

def State.saveReproSeq (seq : ℕ) : State :=
  st.modifyFiles name fun files => { files with reproSeq := some seq }

def State.flushCorpus : State := { st with dir := { st.dir with corpus := st.corpus } }

def State.flushRepros : State := { st with dir := { st.dir with repros := st.repros } }

/-- `mgr.Corpus.Flush()` -/
def State.flushManager : State :=
  match st.managers.lookup name with
  | none => st
  | some mgr => st.modifyFiles name fun files => { files with corpus := mgr.corpus }

def State.flush : State :=
  st.managers.keys.foldl State.flushManager st.flushCorpus

/-- The directory is made if it is not there, and what it holds is read. -/
def State.createManager : State × Manager :=
  let files := (st.dir.managers.lookup name).getD .empty
  let corpusSeq := loadSeqFile files.seq
  let reproSeq := if loadSeqFile files.reproSeq = 0 then st.reproSeq else loadSeqFile files.reproSeq
  let mgr : Manager :=
    { domain := files.domain.getD "", corpusSeq, reproSeq, ownRepros := [], connected := false,
      calls := [], corpus := files.corpus }
  ({ st with
      corpusSeq := max st.corpusSeq corpusSeq
      reproSeq := max st.reproSeq reproSeq
      managers := st.managers.insert name mgr
      dir := { st.dir with managers := st.dir.managers.insert name files } }, mgr)

/-! ## The corpus -/

section Hash

/-- A record of a program database that is kept when the database is loaded. -/
def validRecord (key : Key) (rec : Record) : Bool :=
  match callSet rec.val with
  | .error _ => false
  | .ok (_, ncalls) => ncalls ≤ maxCalls ∧ hash rec.val = key

/-- `loadDB` of a database of programs: the records and the largest sequence number. -/
def loadDB (file : Records) : Records × ℕ :=
  let records := keep (validRecord hash) file
  (records, (records.entries.map fun e => e.2.seq).foldl max 0)

/-- `mgr.Corpus.Save(sig, nil, 0)` -/
def Manager.save (sig : Key) : Manager :=
  { mgr with corpus := mgr.corpus.insert sig ⟨[], 0⟩ }

/-- `mgr.Corpus.Delete(sig)` for each key of the list. -/
def Manager.delete (del : List Key) : Manager :=
  { mgr with corpus := del.foldl (fun corpus sig => corpus.erase sig) mgr.corpus }

def State.addInput (input : Input) : State :=
  match callSet input with
  | .error _ => st
  | .ok (_, ncalls) =>
    if ncalls > maxCalls then st
    else
      let sig := hash input
      let st := st.modifyManager name fun mgr => mgr.save sig
      if sig ∈ st.corpus then st
      else { st with corpus := st.corpus.insert sig ⟨input, st.corpusSeq⟩ }

def State.addInputs (inputs : List Input) : State :=
  if inputs.length = 0 then st
  else
    let st := { st with corpusSeq := st.corpusSeq + 1 }
    let st := inputs.foldl (fun st input => st.addInput hash name input) st
    (st.flushManager name).flushCorpus

def State.used (key : Key) : Bool := st.managers.entries.any fun e => key ∈ e.2.corpus

def State.purgeCorpus : State :=
  { st with corpus := keep (fun key _ => st.used key) st.corpus }.flushCorpus

/-- What `Connect` does to the manager before it takes its corpus. -/
def Manager.connect (reproSeq : ℕ) (domain : Domain) (fresh : Bool) (calls : List CallName) :
    Manager :=
  { mgr with
    domain, connected := true, calls, corpus := ∅
    corpusSeq := if fresh then 0 else mgr.corpusSeq
    reproSeq := if fresh then reproSeq else mgr.reproSeq }

/-- The manager of the name, which is created if there is none. -/
def State.findOrCreate : State × Manager :=
  match st.managers.lookup name with
  | some mgr => (st, mgr)
  | none => st.createManager name

/-- `Connect` up to the corpus of the manager. -/
def State.register (domain : Domain) (fresh : Bool) (calls : List CallName) : State :=
  let (st, mgr) := st.findOrCreate name
  let mgr := mgr.connect st.reproSeq domain fresh calls
  let st := { st with managers := st.managers.insert name mgr }
  st.modifyFiles name fun _ => ⟨some mgr.corpusSeq, some mgr.reproSeq, some domain, ∅⟩

def State.connect (domain : Domain) (fresh : Bool) (calls : List CallName) (corpus : List Input) :
    State :=
  ((st.register name domain fresh calls).addInputs hash name corpus).purgeCorpus

/-- `rpctype.HubInput` -/
structure HubInput where
  domain : Domain
  prog : Input
deriving DecidableEq

/-- The records a manager has not been sent yet and can use. -/
def pendingLoop (mgr : Manager) : List Entry → Except Error (List Entry)
  | [] => .ok []
  | e :: entries =>
    if mgr.corpusSeq ≥ e.2.seq then pendingLoop mgr entries
    else if e.1 ∈ mgr.corpus then pendingLoop mgr entries
    else
      match callSet e.2.val with
      | .error err => .error (.callSet err e.2.val)
      | .ok (calls, _) =>
        if !managerSupportsAllCalls mgr.calls calls then pendingLoop mgr entries
        else do
          let records ← pendingLoop mgr entries
          return e :: records

def domainLoop (key : Key) (self domain : Domain) : List Manager → Domain
  | [] => domain
  | mgr :: mgrs =>
    if mgr.domain ≠ self ∧ domain ≠ "" then domainLoop key self domain mgrs
    else if key ∉ mgr.corpus then domainLoop key self domain mgrs
    else if mgr.domain = self then mgr.domain
    else domainLoop key self mgr.domain mgrs

/-- The orders in which a `Sync` goes through the corpus, and through the managers for each
program. -/
structure Orders where
  records : Shuffle Entry
  managers : Key → Shuffle (Sigma fun _ : Name => Manager)

def Orders.id : Orders := ⟨.id, fun _ => .id⟩

def State.inputDomain (orders : Orders) (key : Key) (self : Domain) : Domain :=
  domainLoop key self "" (((orders.managers key).order st.managers.entries).map Sigma.snd)

def maxRecords : ℕ := 100

def capRecords : ℕ := 100000

/-- The records to send now, how many more there are, and the number the manager has then seen. -/
def cutRecords (corpusSeq : ℕ) (records : List Entry) : List Entry × ℕ × ℕ :=
  if records.length ≤ maxRecords then (records, 0, corpusSeq)
  else
    let records := sliceStable (fun a b => a.2.seq < b.2.seq) records
    let records :=
      if records.length > capRecords then records.drop (records.length - capRecords) else records
    match records[maxRecords]? with
    | none => (records, 0, corpusSeq) -- there are more than `maxRecords`
    | some rec =>
      let pos := cutAfter (fun e => e.2.seq) records maxRecords rec.2.seq
      (records.take pos, records.length - pos, rec.2.seq)

/-- `pendingInputs` for the manager `mgr` with the given name. -/
def State.pendingInputs (orders : Orders) : State × Except Error (List HubInput × ℕ) :=
  if mgr.corpusSeq = st.corpusSeq then (st, .ok ([], 0))
  else
    match pendingLoop mgr (orders.records.order st.corpus.entries) with
    | .error err => (st, .error err)
    | .ok records =>
      let (records, more, maxSeq) := cutRecords st.corpusSeq records
      let progs := records.map fun e => ⟨st.inputDomain orders e.1 mgr.domain, e.2.val⟩
      let st := st.modifyManager name fun mgr => { mgr with corpusSeq := maxSeq }
      (st.saveCorpusSeq name maxSeq, .ok (progs, more))

/-- The first part of `Sync`. -/
def State.deleteInputs (del : List Key) : State :=
  if del.length = 0 then st
  else
    let st := st.modifyManager name fun mgr => mgr.delete del
    (st.flushManager name).purgeCorpus

/-- The manager of the name, if it is connected. -/
def State.connected (st : State) (name : Name) : Except Error Manager :=
  match st.managers.lookup name with
  | none => .error (.unconnected name)
  | some mgr => if mgr.connected then .ok mgr else .error (.unconnected name)

/-- The manager as `Sync` finds it once the programs are deleted and added. -/
def State.updated (add : List Input) (del : List Key) : State :=
  (st.deleteInputs name del).addInputs hash name add

def State.sync (add : List Input) (del : List Key) (orders : Orders) :
    State × Except Error (Domain × List HubInput × ℕ) :=
  match st.connected name with
  | .error err => (st, .error err)
  | .ok _ =>
    let st := st.updated hash name add del
    match st.connected name with
    | .error err => (st, .error err) -- the manager is still connected
    | .ok mgr =>
      let (st, res) := st.pendingInputs name mgr orders
      let corpusSeq := ((st.managers.lookup name).map Manager.corpusSeq).getD 0
      (st.saveCorpusSeq name corpusSeq, res.map fun (progs, more) => (mgr.domain, progs, more))

/-! ## Reproducers -/

/-- The manager remembers that the reproducer is its own. -/
def Manager.own (sig : Key) : Manager :=
  { mgr with ownRepros := sig :: mgr.ownRepros }

def State.setReproSeq (seq : ℕ) : State :=
  (st.modifyManager name fun mgr => { mgr with reproSeq := seq }).saveReproSeq name seq

def State.addRepro (repro : Input) : State × Except Error Unit :=
  match st.connected name with
  | .error err => (st, .error err)
  | .ok mgr =>
    match callSet repro with
    | .error _ => (st, .ok ())
    | .ok _ =>
      let sig := hash repro
      if sig ∈ st.repros then (st, .ok ())
      else
        let st := st.modifyManager name fun mgr => mgr.own sig
        let st := if mgr.reproSeq = st.reproSeq then st.setReproSeq name (mgr.reproSeq + 1) else st
        let st := { st with
          reproSeq := st.reproSeq + 1
          repros := st.repros.insert sig ⟨repro, st.reproSeq + 1⟩ }
        (st.flushRepros, .ok ())

/-- The record with the least number among those the manager can be sent. Before the first one
is found, `minSeq` is larger than all numbers. -/
def reproLoop (mgr : Manager) (found : Option Record) : List Entry → Except Error (Option Record)
  | [] => .ok found
  | e :: entries =>
    if mgr.reproSeq ≥ e.2.seq then reproLoop mgr found entries
    else if e.1 ∈ mgr.ownRepros then reproLoop mgr found entries
    else
      match callSet e.2.val with
      | .error err => .error (.callSet err e.2.val)
      | .ok (calls, _) =>
        if !managerSupportsAllCalls mgr.calls calls then reproLoop mgr found entries
        else if found.all fun rec => rec.seq > e.2.seq then reproLoop mgr (some e.2) entries
        else reproLoop mgr found entries

def State.pendingRepro (order : Shuffle Entry) : State × Except Error (Option Input) :=
  match st.connected name with
  | .error err => (st, .error err)
  | .ok mgr =>
    if mgr.reproSeq = st.reproSeq then (st, .ok none)
    else
      match reproLoop mgr none (order.order st.repros.entries) with
      | .error err => (st, .error err)
      | .ok none => (st.setReproSeq name st.reproSeq, .ok none)
      | .ok (some rec) => (st.setReproSeq name rec.seq, .ok (some rec.val))

/-! ## Restarts -/

def purgedSuffix : String := ".purged"

/-- `Make`. The directories of the managers are read in some order. -/
def make (dir : Dir) (order : Shuffle Name) : State :=
  let (corpus, corpusSeq) := loadDB hash dir.corpus
  let (repros, reproSeq) := loadDB hash dir.repros
  let st : State :=
    { corpusSeq, reproSeq, corpus, repros, managers := ∅, dir := { dir with corpus, repros } }
  let names := (order.order dir.managers.keys).filter fun name => !name.endsWith purgedSuffix
  (names.foldl (fun st name => (st.createManager name).1) st).purgeCorpus

def State.restart (order : Shuffle Name) : State := make hash st.flush.dir order

def State.init : State := make hash .empty .id

/-! ## Runs -/

/-- A call of the hub's interface, or a restart of the hub. -/
inductive Op
  | connect (name : Name) (domain : Domain) (fresh : Bool) (calls : List CallName)
      (corpus : List Input)
  | sync (name : Name) (add : List Input) (del : List Key) (orders : Orders)
  | addRepro (name : Name) (repro : Input)
  | pendingRepro (name : Name) (order : Shuffle Entry)
  | restart (order : Shuffle Name)

def step : Op → State
  | .connect name domain fresh calls corpus => st.connect hash name domain fresh calls corpus
  | .sync name add del orders => (st.sync hash name add del orders).1
  | .addRepro name repro => (st.addRepro hash name repro).1
  | .pendingRepro name order => (st.pendingRepro name order).1
  | .restart order => st.restart hash order

def run (ops : List Op) : State := ops.foldl (step hash) st

end Hash

end KConfuzz.Hub
