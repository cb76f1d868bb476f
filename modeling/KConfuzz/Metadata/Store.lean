import KConfuzz.Lib.FiniteMap
import KConfuzz.Prog.Context

/-!
# The store of corpus metadata (`pkg/kconfuzz/corpusmeta.go`)

The config contexts of the programs in the corpus, by the signature of the program. The records
are in memory, and the whole store is written to a file, one record on a line, after every
operation that may have changed it. A write can fail, and then the file stays as it was.

A line is a value of a type `L`: the JSON encoder and decoder are parameters, and what one writes
the other reads.
-/

namespace KConfuzz.Metadata

open Lib.FiniteMap

structure CorpusMetadataRecord where
  corpusSig : String
  progSig : String
  configSig : String
  strategy : String
  source : String
  configDependent : Bool
  actions : List KConfuzzConfigAction
deriving DecidableEq, Repr

abbrev Records := AList fun _ : String => CorpusMetadataRecord

/-- What the store takes from other packages. Nothing reads the hashes of programs and contexts. -/
structure Env (L : Type) where
  hashProg : List UInt8 → String
  hashContext : KConfuzzConfigContext → String
  encode : CorpusMetadataRecord → L
  unmarshal : L → Option CorpusMetadataRecord
  size : L → ℕ
  unmarshal_encode : ∀ rec, unmarshal (encode rec) = some rec

/-- The records in memory and the lines of the file, if there is one. -/
structure CorpusMetadataStore (L : Type) where
  records : Records
  file : Option (List L)

variable {L : Type} (env : Env L)

/-! ## Records and contexts -/

variable (fails : Bool) (records : Records) (corpusSig : String) (store : CorpusMetadataStore L)

def contextMetadataRecord (progData : List UInt8) (ctx : KConfuzzConfigContext) :
    CorpusMetadataRecord where
  corpusSig := corpusSig
  progSig := env.hashProg progData
  configSig := env.hashContext ctx
  strategy := ctx.strategy
  source := ctx.source
  configDependent := ctx.configDependent
  actions := normalizeKConfuzzConfigActions none ctx.actions

def metadataRecordContext (rec : CorpusMetadataRecord) : KConfuzzConfigContext where
  strategy := rec.strategy
  source := rec.source
  configDependent := rec.configDependent
  actions := rec.actions

/-- `Context` -/
def context (p : Option Prog) : Option KConfuzzConfigContext :=
  (records.lookup corpusSig).bind fun rec => (metadataRecordContext rec).cloneForProg p

/-! ## The file -/

inductive LoadError
  | tokenTooLong
  | unmarshal
deriving DecidableEq, Repr

/-- The limit of the scanner, which has room for a line and its end. -/
def maxTokenSize : ℕ := 16 * 1024 * 1024

def loadLine (line : L) : Except LoadError Records :=
  if maxTokenSize ≤ env.size line then .error .tokenTooLong
  else
    match env.unmarshal line with
    | none => .error .unmarshal
    | some rec =>
      if rec.corpusSig = "" ∨ rec.actions.length = 0 then .ok records
      else .ok (records.insert rec.corpusSig rec)

def load : Option (List L) → Except LoadError Records
  | none => .ok ∅
  | some lines => lines.foldlM (loadLine env) ∅

/-- The records in the order of their keys. -/
def sortedRecords : List CorpusMetadataRecord :=
  (records.keys.insertionSort (· ≤ ·)).filterMap records.lookup

/-- The file that a flush leaves. -/
def written : Option (List L) :=
  if records.keys.length = 0 then none else some ((sortedRecords records).map env.encode)

/-- Writes or removes the file, unless that fails. The result says whether the error is nil. -/
def flushLocked : Bool × CorpusMetadataStore L :=
  if fails then (false, store) else (true, { store with file := written env store.records })

/-! ## Operations -/

inductive Op
  | save (corpusSig : String) (progData : List UInt8) (ctx : Option KConfuzzConfigContext)
  | delete (corpusSig : String)
  | prune (keep : List String)

/-- The record that `Save` makes of a context that is not nil and has actions. -/
def savedRecord (progData : List UInt8) (ctx : Option KConfuzzConfigContext) :
    Option CorpusMetadataRecord :=
  match ctx with
  | none => none
  | some ctx =>
    if ctx.actions.length = 0 then none else some (contextMetadataRecord env corpusSig progData ctx)

def save (progData : List UInt8) (ctx : Option KConfuzzConfigContext)
    (store : CorpusMetadataStore L) : Bool × CorpusMetadataStore L :=
  match savedRecord env corpusSig progData ctx with
  | none => flushLocked env fails { store with records := store.records.erase corpusSig }
  | some rec => flushLocked env fails { store with records := store.records.insert corpusSig rec }

def delete : Bool × CorpusMetadataStore L :=
  flushLocked env fails { store with records := store.records.erase corpusSig }

/-- Nothing is written if no record is removed. -/
def prune (keepSigs : List String) (store : CorpusMetadataStore L) : Bool × CorpusMetadataStore L :=
  if ∀ sig ∈ store.records.keys, sig ∈ keepSigs then (true, store)
  else flushLocked env fails
    { store with records := keep (fun sig _ => decide (sig ∈ keepSigs)) store.records }

def step : Op → Bool × CorpusMetadataStore L
  | .save corpusSig progData ctx => save env fails corpusSig progData ctx store
  | .delete corpusSig => delete env fails corpusSig store
  | .prune keepSigs => prune env fails keepSigs store

/-- An operation of a run: `fails` says whether writing the file would fail, and `ok` whether the
operation returned nil. -/
structure Transition (L : Type) where
  pre : CorpusMetadataStore L
  op : Op
  fails : Bool
  ok : Bool
  post : CorpusMetadataStore L

/-- The operations of a run, each with the stores before and after it. -/
def trace : CorpusMetadataStore L → List (Op × Bool) → List (Transition L)
  | _, [] => []
  | store, (op, fails) :: ops =>
    let result := step env fails store op
    ⟨store, op, fails, result.1, result.2⟩ :: trace result.2 ops

end KConfuzz.Metadata
