import KConfuzz.Db.FormatTheorems
import KConfuzz.Lib.MapLog

/-!
# The corpus database

The operations of `pkg/db` on a database and its file. `Save` and `Delete` change the cache in
memory and append a record to the pending writes, `Flush` appends these to the file, and the file
is compacted from time to time: it is written again with one record for every key. After
`DiscardData` the cache holds no values, so a compaction reads them from the file.

`Denoted` is what the operations mean: a map from keys to records, and the map that a database
opened from the file would have.
-/

namespace KConfuzz.Db

/-- The compressor, and the order in which a compaction visits the records of a Go map. -/
structure Env where
  flate : Flate
  visit : List (Σ _ : Key, Record) → List (Σ _ : Key, Record)
  visit_perm : ∀ entries, (visit entries).Perm entries

structure DB where
  version : UInt64
  records : Records
  /-- The number of records in the file and in the pending writes. -/
  uncompacted : ℕ
  pending : Option (List UInt8)
  dataDiscarded : Bool

/-- An open database with the contents of its file. -/
structure System where
  db : DB
  file : List UInt8

/-- An error an operation returns; the database stays open. -/
inductive DbError
  | write
  | load (err : LoadError)
deriving DecidableEq, Repr

/-- Why there is no database to go on with: a panic, or a file that `Open` refuses. -/
inductive Stop
  | panic (msg : String)
  | openFailed (err : DbError)
deriving DecidableEq, Repr

/-- An operation gives the next state and the error it returned. -/
abbrev Outcome := Except Stop (System × Option DbError)

/-! ## The operations -/

section Operations

variable (env : Env)

/-- The writes still to be done, with one more record behind them. -/
def DB.serialize (db : DB) (key : Key) (val : List UInt8) (seq : UInt64) : DB :=
  { db with pending := some (db.pending.getD [] ++ serializeRecord env.flate key val seq) }

/-- A record that is already stored is not written again. Once the data is discarded the key is
taken to identify the value. -/
def DB.isSaved (db : DB) (key : Key) (val : List UInt8) (seq : UInt64) : Bool :=
  match db.records.lookup key with
  | some rec => seq == rec.seq && (db.dataDiscarded || val == rec.val)
  | none => false

def DB.save (db : DB) (key : Key) (val : List UInt8) (seq : UInt64) : Except Stop DB :=
  if seq = seqDeleted then .error (.panic "reserved seq")
  else if db.isSaved key val seq then .ok db
  else
    let db := db.serialize env key val seq
    .ok { db with
      records := db.records.insert key ⟨if db.dataDiscarded then [] else val, seq⟩
      uncompacted := db.uncompacted + 1 }

def DB.delete (db : DB) (key : Key) : DB :=
  if key ∈ db.records then
    let db := { db with records := db.records.erase key }
    let db := db.serialize env key [] seqDeleted
    { db with uncompacted := db.uncompacted + 1 }
  else db

/-- A map without the values of its records. -/
def discardVals (records : Records) : Records where
  entries := records.entries.map (.map id fun _ rec => { rec with val := [] })
  nodupKeys := records.nodupKeys.map₂ _

def DB.discardData (db : DB) : DB :=
  { db with dataDiscarded := true, records := discardVals db.records }

/-- The records of a map in the order a compaction writes them. -/
def visited (records : Records) : List (Key × Record) :=
  (env.visit records.entries).map fun e => (e.1, e.2)

def System.compact (s : System) : Outcome :=
  if s.db.pending.isSome then .error (.panic "compacting with pending records")
  else
    let loaded := deserializeDB env.flate s.file
    match if s.db.dataDiscarded then loaded.err else none with
    | some err => .ok (s, some (.load err))
    | none =>
      let records := if s.db.dataDiscarded then loaded.records else s.db.records
      .ok ({ db := { s.db with uncompacted := records.entries.length }
             file := dbFile env.flate s.db.version (visited env records) }, none)

/-- `Flush` when all file operations succeed. -/
def System.flush (s : System) : Outcome :=
  match s.db.pending with
  | none => .ok (s, none)
  | some bytes =>
    let s : System := ⟨{ s.db with pending := none }, s.file ++ bytes⟩
    if s.db.uncompacted / 10 * 9 < s.db.records.entries.length then .ok (s, none)
    else s.compact env

/-- A `Flush` whose write fails after the first `written` bytes. -/
def System.failedFlush (s : System) (written : ℕ) : System × Option DbError :=
  match s.db.pending with
  | none => (s, none)
  | some bytes => ({ s with file := s.file ++ bytes.take written }, some .write)

def System.bumpVersion (s : System) (version : UInt64) : Outcome := do
  let (s, err) ← s.flush env
  match err with
  | some err => return (s, some err)
  | none =>
    if s.db.version = version then return (s, none)
    else System.compact env ⟨{ s.db with version := version }, s.file⟩

/-- `Open` on a file with the given contents. A file that does not exist is created. -/
def openDB (file : List UInt8) (repair : Bool) : Outcome := do
  let loaded := deserializeDB env.flate file
  let db : DB := ⟨loaded.version, loaded.records, loaded.uncompacted, none, false⟩
  match if repair then none else loaded.err with
  | some err => throw (.openFailed (.load err))
  | none =>
    let (s, compactErr) ← System.compact env ⟨db, file⟩
    match compactErr with
    | some err => throw (.openFailed err)
    | none => return (s, loaded.err.map .load)

/-! ## Runs -/

inductive Op
  | save (key : Key) (val : List UInt8) (seq : UInt64)
  | delete (key : Key)
  | discardData
  | flush
  | failedFlush (written : ℕ)
  | bumpVersion (version : UInt64)
  | reopen (repair : Bool)
deriving DecidableEq, Repr

def step (s : System) : Op → Outcome
  | .save key val seq => do
    let db ← s.db.save env key val seq
    return ({ s with db := db }, none)
  | .delete key => .ok ({ s with db := s.db.delete env key }, none)
  | .discardData => .ok ({ s with db := s.db.discardData }, none)
  | .flush => s.flush env
  | .failedFlush written => .ok (s.failedFlush written)
  | .bumpVersion version => s.bumpVersion env version
  | .reopen repair => openDB env s.file repair

/-- The state after a sequence of operations, whatever errors they return. -/
def run (s : System) : List Op → Except Stop System
  | [] => .ok s
  | op :: ops => do
    let (s, _) ← step env s op
    run s ops

end Operations

/-! ## What the operations denote -/

/-- The map the database stands for, its version, whether the values were discarded from memory,
the writes since the last `Flush`, and the map that the file stands for. -/
structure Denoted where
  map : Key → Option Record
  version : UInt64
  discarded : Bool
  log : List (Key × Record)
  saved : Key → Option Record

namespace Denoted

def empty : Denoted := ⟨fun _ => none, 0, false, [], fun _ => none⟩

/-- What a record of the file leaves under its key. -/
def written (rec : Key × Record) : Option Record :=
  if rec.2.seq = seqDeleted then none else some rec.2

def applyWrites (map : Key → Option Record) (recs : List (Key × Record)) : Key → Option Record :=
  Lib.MapLog.applyWrites Prod.fst written map recs

def write (d : Denoted) (rec : Key × Record) : Denoted :=
  { d with map := applyWrites d.map [rec], log := d.log ++ [rec] }

/-- The last write wins, but once the values were discarded from memory a record that is there
with the same sequence number keeps its value. -/
def save (d : Denoted) (key : Key) (rec : Record) : Denoted :=
  match d.map key with
  | some old => if rec.seq = old.seq ∧ (d.discarded ∨ rec.val = old.val) then d
      else d.write (key, rec)
  | none => d.write (key, rec)

def delete (d : Denoted) (key : Key) : Denoted :=
  match d.map key with
  | some _ => d.write (key, ⟨[], seqDeleted⟩)
  | none => d

/-- All writes are in the file. -/
def flush (d : Denoted) : Denoted := { d with log := [], saved := d.map }

/-- The writes that are complete in the first `written` bytes are in the file; all of them are
still to be done. -/
def failedFlush (fl : Flate) (d : Denoted) (written : ℕ) : Denoted :=
  { d with saved := applyWrites d.saved (complete fl d.log written) }

def step (fl : Flate) (d : Denoted) : Op → Denoted
  | .save key val seq => d.save key ⟨val, seq⟩
  | .delete key => d.delete key
  | .discardData => { d with discarded := true }
  | .flush => d.flush
  | .failedFlush written => d.failedFlush fl written
  | .bumpVersion version => { d.flush with version := version }
  | .reopen _ => { d with map := d.saved, log := [], discarded := false }

def run (fl : Flate) (d : Denoted) (ops : List Op) : Denoted := ops.foldl (step fl) d

end Denoted

end KConfuzz.Db
