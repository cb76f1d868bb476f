import KConfuzz.Exec.Encoding
import KConfuzz.Lib.LittleEndian
import KConfuzz.Lib.Parser
import KConfuzz.Lib.Rounding
import KConfuzz.Lib.WorkList
import Mathlib.Data.List.FinRange

/-!
# Flattening an argument for KFuzzTest (`prog/kfuzztest.go`)

The argument of a KFuzzTest call goes to the kernel as one blob. What a pointer points to is a
region of its own; the blob lists the regions, then the pointer slots to be relocated, then the
payload with the bytes of the regions.

Pointers of the source are references, so two of them can share a pointee and a pointee can
lead back to itself. Here the arguments that are pointed to are numbered, and an argument is a
tree whose pointers hold such numbers. `readBlob` at the end is the reader's side of the format.
-/

namespace KConfuzz.KFuzzTest

open Lib.LittleEndian Lib.Parser Lib.WorkList

def kFuzzTestRegionIDNull : UInt32 := 0xffffffff
def kFuzzTestPoisonSize : UInt64 := 0x8
def kFuzzTestVersion : UInt32 := 0
def kFuzzTestMagic : UInt32 := 0xBFACE
def kFuzzTestMinalign : UInt64 := 8
def kFuzzTestPlaceHolderPtr : UInt64 := 0xFFFFFFFFFFFFFFFF

inductive Panic where
  | notPowerOfTwo
  | unsupportedConstantSize (size : UInt64)
  | unsupportedType (name : String)
deriving DecidableEq, Repr

/-! ## Alignment -/

def isPowerOfTwo (n : UInt64) : Bool := n > 0 && n &&& (n - 1) == 0

def roundUpPowerOfTwo (x n : UInt64) : Except Panic UInt64 :=
  if isPowerOfTwo n then .ok ((x + n - 1) &&& ~~~(n - 1)) else .error .notPowerOfTwo

/-- Pads `b` to a multiple of the alignment, with at least `minPadding` bytes. -/
def padWithAlignment (b : List UInt8) (alignment minPadding : UInt64) :
    Except Panic (List UInt8) := do
  let len := b.length.toUInt64
  let newSize ←
    if alignment = 0 then .ok (len + minPadding) else roundUpPowerOfTwo (len + minPadding) alignment
  return b ++ List.replicate (newSize - len).toNat 0

/-- The alignment of a type: the compiler lets through powers of two, and leaves 0 where it has
not computed one. -/
structure TypeAlign where
  value : UInt64
  sane : value = 0 ∨ isPowerOfTwo value = true
deriving DecidableEq, Repr

/-! ## Arguments -/

/-- An argument with the pointees numbered by `ρ`. Every kind has the alignment of its type. The
option of a union and the value of a resource are not kept, since neither kind is supported. -/
inductive RegionArg (ρ : Type) where
  | pointer (align : TypeAlign) (res : Option ρ)
  | group (align : TypeAlign) (inner : List (RegionArg ρ))
  | data (align : TypeAlign) (typ : BufferType) (data : List UInt8)
  | const (align : TypeAlign) (typ : ScalarType) (val : UInt64)
  | union (align : TypeAlign) (typ : UnionType)
  | result (align : TypeAlign) (typ : ResourceType)

variable {ρ : Type} {n : ℕ}

/-- `arg.Type().Alignment()` -/
def RegionArg.alignment : RegionArg ρ → UInt64
  | pointer align _ | group align _ | data align _ _ | const align _ _ | union align _
  | result align _ => align.value

mutual

/-- How many arguments a region is made of; pointees are other regions. -/
def RegionArg.nodes : RegionArg ρ → ℕ
  | .group _ inner => 1 + nodesAll inner
  | .pointer _ _ | .data _ _ _ | .const _ _ _ | .union _ _ | .result _ _ => 1

def nodesAll : List (RegionArg ρ) → ℕ
  | [] => 0
  | arg :: args => arg.nodes + nodesAll args

end

/-- What all the regions of an argument look like. -/
abbrev ArgGraph (n : ℕ) := Fin n → RegionArg (Fin n)

/-! ## Expanding a region -/

structure Relocation (ρ : Type) where
  offset : UInt32
  srcRegion : ρ
  dstRegion : Option ρ
deriving DecidableEq, Repr

structure Expansion (ρ : Type) where
  encoded : List UInt8
  relocations : List (Relocation ρ)
deriving DecidableEq, Repr

/-- Strings are forcibly terminated. -/
def terminated (typ : BufferType) (data : List UInt8) : List UInt8 :=
  if typ.kind = .bufferString ∧ data.getLast? ≠ some 0 then data ++ [0] else data

/-- The little-endian bytes of a constant. -/
def writeConst (size val : UInt64) : Except Panic (List UInt8) :=
  if size = 1 ∨ size = 2 ∨ size = 4 ∨ size = 8 then .ok (toLE size.toNat val.toNat)
  else .error (.unsupportedConstantSize size)

/-- One round of the loop in `kFuzzTestExpandRegion`: the fields of a group go to the end of the
queue. -/
def expandArg (reg : ρ) (s : Expansion ρ) (arg : RegionArg ρ) :
    Except Panic (Expansion ρ × List (RegionArg ρ)) := do
  let encoded ← padWithAlignment s.encoded arg.alignment 0
  match arg with
  | .pointer _ res =>
    return ({ encoded := encoded ++ toLE 8 kFuzzTestPlaceHolderPtr.toNat
              relocations := s.relocations ++ [⟨encoded.length.toUInt32, reg, res⟩] }, [])
  | .group _ inner => return ({ s with encoded }, inner)
  | .data _ typ data => return ({ s with encoded := encoded ++ terminated typ data }, [])
  | .const _ typ val =>
    let bytes ← writeConst typ.common.typeSize (typ.value val).1
    return ({ s with encoded := encoded ++ bytes }, [])
  | .union _ typ => .error (.unsupportedType typ.typeName)
  | .result _ typ => .error (.unsupportedType typ.typeName)

variable (g : ArgGraph n) (regToID : List (ρ × ℕ))

/-- `kFuzzTestExpandRegion`; every argument of the region passes the queue once. -/
def kFuzzTestExpandRegion (reg : Fin n) : Except Panic (Expansion (Fin n)) := do
  let (s, _) ← drain (expandArg reg) (g reg).nodes [g reg] ⟨[], []⟩
  return s

/-! ## Collecting the regions -/

structure Region where
  offset : UInt32
  size : UInt32
deriving DecidableEq, Repr

/-- The variables of `MarshallKFuzztestArg`. -/
structure Marshalled (ρ : Type) where
  regions : List Region
  allRelocations : List (Relocation ρ)
  visitedRegions : List (ρ × ℕ)
  payload : List UInt8
  maxAlignment : UInt64
deriving DecidableEq, Repr

def Marshalled.init : Marshalled ρ :=
  { regions := []
    allRelocations := []
    visitedRegions := []
    payload := []
    maxAlignment := 8 }

def Marshalled.visited [DecidableEq ρ] (s : Marshalled ρ) (reg : ρ) : Bool :=
  (s.visitedRegions.lookup reg).isSome

/-- The alignment of a region in the payload. -/
def regionAlignment (arg : RegionArg ρ) : UInt64 := max kFuzzTestMinalign arg.alignment

/-- The pointees that have not been visited yet. -/
def Marshalled.unvisited [DecidableEq ρ] (s : Marshalled ρ) (relocations : List (Relocation ρ)) :
    List ρ :=
  (relocations.filterMap (·.dstRegion)).filter (!s.visited ·)

/-- One round of the loop in `MarshallKFuzztestArg`. -/
def visitRegion (s : Marshalled (Fin n)) (reg : Fin n) :
    Except Panic (Marshalled (Fin n) × List (Fin n)) :=
  if s.visited reg then .ok (s, []) else do
    let alignment := regionAlignment (g reg)
    let expanded ← kFuzzTestExpandRegion g reg
    let start ← padWithAlignment s.payload alignment 0
    let payload ←
      padWithAlignment (start ++ expanded.encoded) kFuzzTestPoisonSize kFuzzTestPoisonSize
    let s' : Marshalled (Fin n) :=
      { regions := s.regions ++ [⟨start.length.toUInt32, expanded.encoded.length.toUInt32⟩]
        allRelocations := s.allRelocations ++ expanded.relocations
        visitedRegions := s.visitedRegions ++ [(reg, s.regions.length)]
        payload
        maxAlignment := max s.maxAlignment alignment }
    return (s', s.unvisited expanded.relocations)

/-! ## Writing the blob -/

/-- `binary.Write` of a `uint32`. -/
def writeUInt32 (v : UInt32) : List UInt8 := toLE 4 v.toNat

/-- The magic in the low half and the version in the high one. -/
def kFuzzTestWritePrefix : List UInt8 :=
  toLE 8 (kFuzzTestVersion.toUInt64 <<< 32 ||| kFuzzTestMagic.toUInt64).toNat

def kFuzzTestWriteRegion (region : Region) : List UInt8 :=
  writeUInt32 region.offset ++ writeUInt32 region.size

def kFuzzTestWriteRegionArray (regions : List Region) : List UInt8 :=
  writeUInt32 regions.length.toUInt32 ++ regions.flatMap kFuzzTestWriteRegion

/-- `(*regToID)[reg]`, which is 0 for a region that is not in the map. -/
def regionID [DecidableEq ρ] (reg : ρ) : UInt32 :=
  ((regToID.lookup reg).getD 0).toUInt32

def destinationID [DecidableEq ρ] : Option ρ → UInt32
  | none => kFuzzTestRegionIDNull
  | some reg => regionID regToID reg

def kFuzzTestWriteReloc [DecidableEq ρ] (reloc : Relocation ρ) : List UInt8 :=
  writeUInt32 (regionID regToID reloc.srcRegion) ++ writeUInt32 reloc.offset ++
    writeUInt32 (destinationID regToID reloc.dstRegion)

def kFuzzTestWriteRelocTable [DecidableEq ρ] (relocations : List (Relocation ρ))
    (paddingBytes : UInt64) : List UInt8 :=
  writeUInt32 relocations.length.toUInt32 ++ writeUInt32 paddingBytes.toUInt32 ++
    relocations.flatMap (kFuzzTestWriteReloc regToID) ++ List.replicate paddingBytes.toNat 0

def kFuzzTestRegionArraySize (numRegions : ℕ) : ℕ := 4 + 8 * numRegions

def kFuzzTestRelocTableSize (numRelocs : ℕ) : ℕ := 8 + 12 * numRelocs

/-- Magic, version and the two tables. -/
def metadataLen (numRegions numRelocs : ℕ) : ℕ :=
  0x8 + kFuzzTestRegionArraySize numRegions + kFuzzTestRelocTableSize numRelocs

/-- The end of `MarshallKFuzztestArg`, from the collected regions on. -/
def Marshalled.write [DecidableEq ρ] (s : Marshalled ρ) : Except Panic (List UInt8) := do
  let len := (metadataLen s.regions.length s.allRelocations.length).toUInt64
  let payloadStart ← roundUpPowerOfTwo (len + kFuzzTestPoisonSize) s.maxAlignment
  return kFuzzTestWritePrefix ++ kFuzzTestWriteRegionArray s.regions ++
    kFuzzTestWriteRelocTable s.visitedRegions s.allRelocations (payloadStart - len) ++ s.payload

/-- Enough rounds for the work list: every region pushes at most one item per argument. -/
def rounds : ℕ := 1 + ((List.finRange n).map fun reg => (g reg).nodes).sum

def marshallKFuzztestArg : Option (Fin n) → Except Panic (List UInt8)
  | none => .ok []
  | some topLevel => do
    let (s, _) ← drain (visitRegion g) (rounds g) [topLevel] .init
    s.write

/-! ## The reader's side -/

/-- A pointer slot of a region and the region it is to point to. -/
structure RelocationEntry where
  srcID : UInt32
  offset : UInt32
  dstID : UInt32
deriving DecidableEq, Repr

structure Blob where
  regions : List Region
  relocations : List RelocationEntry
  padding : List UInt8
  payload : List UInt8
deriving DecidableEq, Repr

/-- Why a blob cannot be read. -/
inductive ReadError where
  | tooShort
  | badHeader
deriving DecidableEq, Repr

abbrev BlobReader := StateParser UInt8 ReadError Unit

def readUInt32 : BlobReader UInt32 :=
  token (fun data => (readLE 4 data).map fun (v, rest) => (UInt32.ofNat v, rest)) .tooShort

def readBytes (n : ℕ) : BlobReader (List UInt8) :=
  token (fun data => if n ≤ data.length then some (data.take n, data.drop n) else none) .tooShort

def readRegion : BlobReader Region := do
  let offset ← readUInt32
  let size ← readUInt32
  return { offset, size }

def readRelocation : BlobReader RelocationEntry := do
  let srcID ← readUInt32
  let offset ← readUInt32
  let dstID ← readUInt32
  return { srcID, offset, dstID }

/-- Everything before the payload. -/
def readTables : BlobReader (List Region × List RelocationEntry × List UInt8) := do
  let magic ← readUInt32
  let version ← readUInt32
  if magic = kFuzzTestMagic ∧ version = kFuzzTestVersion then
    let numRegions ← readUInt32
    let regions ← times readRegion numRegions.toNat
    let numEntries ← readUInt32
    let paddingBytes ← readUInt32
    let relocations ← times readRelocation numEntries.toNat
    let padding ← readBytes paddingBytes.toNat
    return (regions, relocations, padding)
  else
    throw .badHeader

def readBlob (bytes : List UInt8) : Except ReadError Blob := do
  let (((regions, relocations, padding), _), payload) ← readTables () bytes
  return { regions, relocations, padding, payload }

end KConfuzz.KFuzzTest
