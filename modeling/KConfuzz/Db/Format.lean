import KConfuzz.Lib.LittleEndian
import KConfuzz.Lib.Truncation
import Mathlib.Data.List.AList

/-!
# The file format of the corpus database

A database file (`pkg/db`) is a header with the user's version, followed by one record for every
`Save` and every `Delete`. A record has a magic number, the key with its length, the sequence
number and, unless the sequence number is the one reserved for deletions, the compressed value
with its length. All numbers are little endian. Reading a file replays the records into a map; it
stops quietly at `io.EOF` and reports every other error, with the records read so far.
-/

namespace KConfuzz.Db

open Lib.LittleEndian Lib.Parser

abbrev Key := List UInt8

structure Record where
  val : List UInt8
  seq : UInt64
deriving DecidableEq, Repr

/-- The in-memory cache, `map[string]Record`. -/
abbrev Records := AList fun _ : Key => Record

def dbMagic : ℕ := 0xbaddb

def recMagic : ℕ := 0xfee1bad

def curVersion : ℕ := 2

def seqDeleted : UInt64 := 0xffffffffffffffff

/-- What reading a header or a record can fail with. `eof` is `io.EOF`, the end of the file
before the first byte of what is read. -/
inductive ReadError
  | eof
  | unexpectedEOF
  | badDbHeader (magic : ℕ)
  | badDbVersion (ver : ℕ)
  | badRecordHeader (magic : ℕ)
  | corruptInput
deriving DecidableEq, Repr

/-! ## Compression -/

/-- `compress/flate`: the stream a writer makes of a value, and what a reader that is given a
stream returns, the value with the number of bytes it took. -/
structure Flate where
  deflate : List UInt8 → List UInt8
  inflate : List UInt8 → Except ReadError (List UInt8 × ℕ)

/-- A stream is never empty, and reading it takes all of it and gives the value back. -/
structure Flate.RoundTrips (fl : Flate) : Prop where
  deflate_ne_nil : ∀ val, fl.deflate val ≠ []
  inflate_deflate : ∀ val, fl.inflate (fl.deflate val) = .ok (val, (fl.deflate val).length)

/-- A stream that ends early is reported with `io.ErrUnexpectedEOF`. -/
def Flate.ReportsTruncation (fl : Flate) : Prop :=
  ∀ val, ∀ n < (fl.deflate val).length,
    fl.inflate ((fl.deflate val).take n) = .error .unexpectedEOF

/-! ## Writing -/

def serializeHeader (version : UInt64) : List UInt8 :=
  toLE 4 dbMagic ++ (toLE 4 curVersion ++ toLE 8 version.toNat)

section Writing

variable (fl : Flate)

/-- The value of a record that is not a deletion, behind its length. The length field has 32
bits. -/
def serializeVal (val : List UInt8) : List UInt8 :=
  if val.length = 0 then toLE 4 0
  else toLE 4 (fl.deflate val).length ++ fl.deflate val

def serializeRecord (key : Key) (val : List UInt8) (seq : UInt64) : List UInt8 :=
  toLE 4 recMagic ++ (toLE 4 key.length ++ (key ++ (toLE 8 seq.toNat ++
    if seq = seqDeleted then [] else serializeVal fl val)))

def recordBytes (rec : Key × Record) : List UInt8 :=
  serializeRecord fl rec.1 rec.2.val rec.2.seq

/-- A header with the records behind it. -/
def dbFile (version : UInt64) (recs : List (Key × Record)) : List UInt8 :=
  serializeHeader version ++ recs.flatMap (recordBytes fl)

end Writing

/-! ## Reading -/

abbrev Reader := StateParser UInt8 ReadError Unit

/-- `io.ReadFull`. -/
def readBytes (n : ℕ) : Reader (List UInt8) := readFull .eof .unexpectedEOF n

/-- `binary.Read` of a number of `n` bytes. -/
def readUint (n : ℕ) : Reader ℕ := do
  let bytes ← readBytes n
  return ofLE bytes

/-- The part of `deserializeHeader` behind the magic number. -/
def deserializeVersion (magic : ℕ) : Reader UInt64 := do
  if magic ≠ dbMagic then throw (.badDbHeader magic)
  let ver ← readUint 4
  if ver = 0 ∨ curVersion < ver then throw (.badDbVersion ver)
  if 2 ≤ ver then
    let userVer ← readUint 8
    return UInt64.ofNat userVer
  else
    return 0

/-- An empty file is a new database with version 0. -/
def deserializeHeader : Reader UInt64 := fun s data =>
  match readUint 4 s data with
  | .error .eof => .ok ((0, s), data)
  | .error err => .error err
  | .ok ((magic, s), rest) => deserializeVersion magic s rest

section Reading

variable (fl : Flate)

/-- A reader of the compressed stream that is limited to the next `valLen` bytes. -/
def inflateVal (valLen : ℕ) : Reader (List UInt8) := fun s data =>
  match fl.inflate (data.take valLen) with
  | .error err => .error err
  | .ok (val, used) => .ok ((val, s), data.drop used)

/-- The part of `deserializeRecord` behind the sequence number. -/
def deserializeVal (seq : UInt64) : Reader (List UInt8) :=
  if seq = seqDeleted then return []
  else do
    let valLen ← readUint 4
    if valLen = 0 then return [] else inflateVal fl valLen

def deserializeRecord : Reader (Key × Record) := do
  let magic ← readUint 4
  if magic ≠ recMagic then throw (.badRecordHeader magic)
  let keyLen ← readUint 4
  let key ← readBytes keyLen
  let seq ← readUint 8
  let val ← deserializeVal fl (UInt64.ofNat seq)
  return (key, ⟨val, UInt64.ofNat seq⟩)

end Reading

/-- The error of `deserializeDB`, wrapped by the part of the file it is in. -/
inductive LoadError
  | header (err : ReadError)
  | record (err : ReadError)
deriving DecidableEq, Repr

/-- The results of `deserializeDB`. -/
structure Loaded where
  version : UInt64
  records : Records
  uncompacted : ℕ
  err : Option LoadError

/-- What one record of the file does to the map. -/
def applyRecord (records : Records) (rec : Key × Record) : Records :=
  if rec.2.seq = seqDeleted then records.erase rec.1 else records.insert rec.1 rec.2

section Loading

variable (fl : Flate)

/-- The loop of `deserializeDB`. Every record takes some bytes, so a file has fewer records than
bytes. -/
def deserializeRecords : ℕ → Loaded → List UInt8 → Loaded
  | 0, l, _ => l
  | fuel + 1, l, data =>
    match deserializeRecord fl () data with
    | .error .eof => l
    | .error err => { l with err := some (.record err) }
    | .ok ((rec, _), rest) =>
      deserializeRecords fuel
        { l with records := applyRecord l.records rec, uncompacted := l.uncompacted + 1 } rest

def deserializeDB (data : List UInt8) : Loaded :=
  match deserializeHeader () data with
  | .error err => ⟨0, ∅, 0, some (.header err)⟩
  | .ok ((version, _), rest) => deserializeRecords fl (rest.length + 1) ⟨version, ∅, 0, none⟩ rest

end Loading

end KConfuzz.Db
