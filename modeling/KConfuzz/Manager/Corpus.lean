import KConfuzz.Lib.StableSort
import KConfuzz.Prog.Collide

/-!
# The corpus database of the manager (`pkg/manager/seeds.go`, `syz-manager/manager.go`)

On start the manager parses all records of the database, cuts the disabled calls out of the
programs, and has the rest executed again. What is found interesting gets into the corpus, and
records that are not in the corpus are deleted from time to time (`minimizeCorpusLocked`). A
program with disabled calls cannot get into the corpus; with `PreserveCorpus` its hash is
remembered so that the record stays.

The text format and the hash are parameters (`SeedEnv`), and so are the choices that depend on
coverage: which programs get into the corpus, and which of them `corpus.Minimize` keeps.
-/

namespace KConfuzz

/-! ## Programs with disabled calls -/

/-- `OnlyContains` -/
def Prog.onlyContains (p : Prog) (syscalls : Syscall → Bool) : Bool :=
  p.calls.all fun c => syscalls c.callMeta

/-- The loop of `FilterInplace` from the `i`-th call on, for at most `n` rounds. -/
def Prog.filterFrom (allowed : Syscall → Bool) : ℕ → ℕ → Prog → Prog
  | 0, _, p => p
  | n + 1, i, p =>
    match p.calls[i]? with
    | none => p
    | some c =>
      if allowed c.callMeta then filterFrom allowed n (i + 1) p
      else filterFrom allowed n i (p.removeCall i)

/-- `FilterInplace` -/
def Prog.filterInplace (p : Prog) (allowed : Syscall → Bool) : Prog :=
  Prog.filterFrom allowed p.calls.length 0 p

namespace Manager

/-! ## Parsing -/

/-- `deserialize` is `Target.Deserialize` in the mode `NonStrict`, `serialize` is
`Prog.Serialize`, `hash` is `hash.String`, and `checkArch` tells whether a text is meant for the
architecture of the target. -/
structure SeedEnv where
  deserialize : List UInt8 → Option Prog
  serialize : Prog → List UInt8
  hash : List UInt8 → String
  checkArch : List UInt8 → Bool

variable (env : SeedEnv)

/-- The hash under which a program is in the corpus. -/
def SeedEnv.sig (p : Prog) : String := env.hash (env.serialize p)

/-- `ParseSeed` -/
def parseSeed (data : List UInt8) : Option Prog :=
  if env.checkArch data then
    match env.deserialize data with
    | none => none
    | some p =>
      if p.calls.length > maxCalls then none
      -- For some yet unknown reasons, programs with fail_nth > 0 may sneak in.
      else if p.calls.any (·.props.failNth > 0) then none
      else some p
  else none

/-! ## The database -/

structure DB where
  version : ℕ
  records : List (String × List UInt8)
  nodup : (records.map Prod.fst).Nodup

variable (db : DB)

namespace DB

def keys : List String := db.records.map Prod.fst

def delete (key : String) : DB where
  version := db.version
  records := db.records.filter (·.1 != key)
  nodup := db.nodup.sublist (List.filter_sublist.map _)

/-- `Save`; a record with this key has the same data already. -/
def save (key : String) (val : List UInt8) : DB :=
  if h : key ∈ db.keys then db
  else
    { version := db.version
      records := (key, val) :: db.records
      nodup := List.nodup_cons.mpr ⟨h, db.nodup⟩ }

def bumpVersion (version : ℕ) : DB := { db with version }

end DB

/-! ## Loading -/

/-- `fuzzer.ProgFlags` of a candidate that was not tried yet. -/
structure ProgFlags where
  progFromCorpus : Bool
  progMinimized : Bool
  progSmashed : Bool
deriving DecidableEq, Repr

structure Candidate where
  prog : Prog
  flags : ProgFlags
  sig : String

def currentDBVersion : ℕ := 5

def versionToFlags (version : ℕ) : ProgFlags where
  progFromCorpus := true
  progMinimized := version > 3
  progSmashed := version > 2

structure Input where
  isSeed : Bool
  key : String
  data : List UInt8
deriving DecidableEq, Repr

/-- What `readInputs` reads, the records of the database and the seed files, in some order. -/
def readInputs (seeds : List (List UInt8)) : List Input :=
  db.records.map (fun rec => ⟨false, rec.1, rec.2⟩) ++ seeds.map fun data => ⟨true, "", data⟩

structure Seeds where
  corpusDB : DB
  candidates : List Candidate

/-- The candidate that `LoadSeeds` makes of an input. -/
def candidateOf (inp : Input) : Option Candidate :=
  match parseSeed env inp.data with
  | none => none
  | some p =>
    if inp.isSeed then
      if db.keys.contains (env.sig p) then none
      else some ⟨p, ⟨false, true, false⟩, inp.key⟩
    else some ⟨p, versionToFlags db.version, inp.key⟩

/-- `LoadSeeds` with the inputs in the order in which they were parsed. -/
def loadSeeds (inputs : List Input) (immutable : Bool) : Seeds :=
  let brokenCorpus :=
    (inputs.filter fun inp => !inp.isSeed && (parseSeed env inp.data).isNone).map Input.key
  { corpusDB := if immutable then db else brokenCorpus.foldl DB.delete db
    candidates := inputs.filterMap (candidateOf env db) }

structure FilteredCandidates where
  candidates : List Candidate
  modifiedHashes : List String
  seedCount : ℕ

/-- A candidate that `FilterCandidates` leaves. -/
def FilteredCandidates.add (ret : FilteredCandidates) (item : Candidate) : FilteredCandidates :=
  { ret with
    seedCount := if item.flags.progFromCorpus then ret.seedCount else ret.seedCount + 1
    candidates := ret.candidates ++ [item] }

def filterCandidate (syscalls : Syscall → Bool) (dropMinimize : Bool) (ret : FilteredCandidates)
    (item : Candidate) : FilteredCandidates :=
  if item.prog.onlyContains syscalls then ret.add item
  else
    let ret := { ret with modifiedHashes := ret.modifiedHashes ++ [env.sig item.prog] }
    -- We cut out the disabled syscalls and retriage/minimize what remains from the prog.
    let flags := if dropMinimize then { item.flags with progMinimized := false } else item.flags
    let prog := item.prog.filterInplace syscalls
    if prog.calls.length = 0 then ret else ret.add { item with prog, flags }

def filterCandidates (candidates : List Candidate) (syscalls : Syscall → Bool) (dropMinimize : Bool) :
    FilteredCandidates :=
  candidates.foldl (filterCandidate env syscalls dropMinimize) ⟨[], [], 0⟩

/-! ## The manager -/

inductive Phase where
  | phaseInit
  | phaseLoadedCorpus
  | phaseTriagedCorpus
  | phaseQueriedHub
  | phaseTriagedHub
deriving DecidableEq, Repr

/-- `mgr.phase < phaseTriagedCorpus` -/
def Phase.beforeTriaged : Phase → Bool
  | phaseInit | phaseLoadedCorpus => true
  | _ => false

/-- `corpus` holds the hashes of the programs in the corpus. -/
structure Manager where
  preserveCorpus : Bool
  corpusDB : DB
  disabledHashes : List String
  phase : Phase
  corpus : List String
  lastMinCorpus : ℕ

/-- The manager after `preloadCorpus`. -/
def Manager.start (preserveCorpus : Bool) (seeds : Seeds) : Manager where
  preserveCorpus := preserveCorpus
  corpusDB := seeds.corpusDB
  disabledHashes := []
  phase := .phaseInit
  corpus := []
  lastMinCorpus := 0

/-- `loadCorpus`: the manager and the candidates, smaller programs first. Which of them are
minimized or smashed again is left to chance there, and is not followed here. -/
def loadCorpus (mgr : Manager) (candidates : List Candidate) (enabledSyscalls : Syscall → Bool) :
    Manager × List Candidate :=
  let ret := filterCandidates env candidates enabledSyscalls true
  let mgr :=
    if mgr.preserveCorpus then
      { mgr with disabledHashes := mgr.disabledHashes ++ ret.modifiedHashes }
    else mgr
  (mgr, Lib.StableSort.sliceStable
    (fun a b => a.prog.calls.length < b.prog.calls.length) ret.candidates)

/-- `minimizeCorpusLocked`; `kept` are the programs that `corpus.Minimize` keeps. -/
def minimizeCorpusLocked (kept : List String) (mgr : Manager) : Manager :=
  if mgr.phase.beforeTriaged then mgr
  else if mgr.corpus.length ≤ mgr.lastMinCorpus * 103 / 100 then mgr
  else
    let corpus := mgr.corpus.filter (kept.contains ·)
    let deleted := mgr.corpusDB.keys.filter fun key =>
      !corpus.contains key && !mgr.disabledHashes.contains key
    { mgr with
      corpus
      lastMinCorpus := corpus.length
      corpusDB := (deleted.foldl DB.delete mgr.corpusDB).bumpVersion currentDBVersion }

/-- What happens to the manager after the corpus was loaded. A new program gets into the corpus
(`corpus.Save`), and into the database some time later (`corpusInputHandler`). -/
inductive Event where
  | setPhase (phase : Phase)
  | save (p : Prog)
  | handleInput (p : Prog)
  | minimize (kept : List String)

def Manager.step (mgr : Manager) : Event → Manager
  | .setPhase phase => { mgr with phase }
  | .save p => { mgr with corpus := mgr.corpus.insert (env.sig p) }
  | .handleInput p =>
    { mgr with corpusDB := mgr.corpusDB.save (env.sig p) (env.serialize p) }
  | .minimize kept => minimizeCorpusLocked kept mgr

def Manager.run (mgr : Manager) (events : List Event) : Manager :=
  events.foldl (Manager.step env) mgr

/-- The manager from its start to the end of the events. -/
def runManager (preserveCorpus : Bool) (db : DB) (inputs : List Input)
    (enabledSyscalls : Syscall → Bool) (events : List Event) : Manager :=
  let seeds := loadSeeds env db inputs false
  let mgr := (loadCorpus env (.start preserveCorpus seeds) seeds.candidates enabledSyscalls).1
  mgr.run env events

end Manager

end KConfuzz
