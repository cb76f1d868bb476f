import Mathlib.Algebra.Ring.Nat

/-!
# Types of arguments (`prog/types.go`)

One structure per Go type, with the fields that the functions of this development read. An
argument of the source carries a reference to a type of any kind and `validate` rejects the
ones whose kind does not fit (a `ConstArg` of a struct type, say); here the types are grouped
by the argument they go with (`ScalarType`, `PointerType`, `GroupType`, …), so that an
argument of the wrong kind cannot be built.
-/

namespace KConfuzz

/-- Direction of an argument. -/
inductive Dir where
  | dirIn
  | dirOut
  | dirInOut
deriving DecidableEq, Repr

inductive BinaryFormat where
  | formatNative
  | formatBigEndian
  | formatStrDec
  | formatStrHex
  | formatStrOct
deriving DecidableEq, Repr

/-- `uint64(format)` -/
def BinaryFormat.toUInt64 : BinaryFormat → UInt64
  | formatNative => 0
  | formatBigEndian => 1
  | formatStrDec => 2
  | formatStrHex => 3
  | formatStrOct => 4

/-- What all types have. `typeSize` is 0 for types of variable size and for all but the last
bitfield of a group. -/
structure TypeCommon where
  typeName : String
  typeSize : UInt64
deriving DecidableEq, Repr

/-- For template structs the name without arguments. -/
def TypeCommon.templateName (t : TypeCommon) : String :=
  String.ofList (t.typeName.toList.takeWhile (· != '['))

/-- A resource and its special values; the first of them is the default. -/
structure ResourceDesc where
  name : String
  values : List UInt64
  values_ne_nil : values ≠ []
deriving DecidableEq, Repr

structure ResourceType extends TypeCommon where
  argFormat : BinaryFormat
  desc : ResourceDesc
deriving DecidableEq, Repr

/-- `ResourceType.Default` -/
def ResourceType.default (t : ResourceType) : UInt64 := t.desc.values.head t.desc.values_ne_nil

structure IntTypeCommon extends TypeCommon where
  argFormat : BinaryFormat
  bitfieldOff : UInt64
  bitfieldLen : UInt64
  bitfieldUnit : UInt64
  bitfieldUnitOff : UInt64
deriving DecidableEq, Repr

def IntTypeCommon.isBitfield (t : IntTypeCommon) : Bool := t.bitfieldLen != 0

/-- `UnitSize`: the size of the underlying type for a bitfield, the size itself otherwise. -/
def IntTypeCommon.unitSize (t : IntTypeCommon) : UInt64 :=
  if t.bitfieldLen != 0 then t.bitfieldUnit else t.typeSize

structure ConstType extends IntTypeCommon where
  val : UInt64 := 0
  isPad : Bool
deriving DecidableEq, Repr

inductive IntKind where
  | intPlain
  | intRange
deriving DecidableEq, Repr

/-- The range is the one of an `intRange`. -/
structure IntType extends IntTypeCommon where
  kind : IntKind := .intPlain
  rangeBegin : UInt64 := 0
  rangeEnd : UInt64 := 0
deriving DecidableEq, Repr

structure ProcType extends IntTypeCommon where
  valuesStart : UInt64
  valuesPerProc : UInt64
deriving DecidableEq, Repr

inductive CsumKind where
  | csumInet
  | csumPseudo
deriving DecidableEq, Repr

structure CsumType extends IntTypeCommon where
  kind : CsumKind
  buf : String
  protocol : UInt64
deriving DecidableEq, Repr

/-- The types of a `ConstArg`. -/
inductive ScalarType where
  | int (t : IntType)
  | const (t : ConstType)
  | flags (t : IntTypeCommon)
  | len (t : IntTypeCommon)
  | proc (t : ProcType)
  | csum (t : CsumType)
deriving DecidableEq, Repr

def ScalarType.common : ScalarType → IntTypeCommon
  | flags t | len t => t
  | int t => t.toIntTypeCommon
  | const t => t.toIntTypeCommon
  | proc t => t.toIntTypeCommon
  | csum t => t.toIntTypeCommon

/-- `IsPad` -/
def ScalarType.isPad : ScalarType → Bool
  | const t => t.isPad
  | _ => false

/-- The types of a `PointerArg`. -/
inductive PointerType where
  | ptr (t : TypeCommon)
  | vma (t : TypeCommon)
deriving DecidableEq, Repr

def PointerType.common : PointerType → TypeCommon
  | ptr t | vma t => t

inductive BufferKind where
  | bufferBlobRand
  | bufferBlobRange
  | bufferString
  | bufferFilename
  | bufferText
  | bufferGlob
  | bufferCompressed
deriving DecidableEq, Repr

/-- The type of a `DataArg`. -/
structure BufferType extends TypeCommon where
  kind : BufferKind
deriving DecidableEq, Repr

structure ArrayType extends TypeCommon where
  isVarlen : Bool
deriving DecidableEq, Repr

/-- `fields` holds the names of the fields. `overlayField` is the index of the field marked
with the `out_overlay` attribute, 0 if there is none. -/
structure StructType extends TypeCommon where
  isVarlen : Bool
  fields : List String
  alignAttr : UInt64
  overlayField : ℕ
deriving DecidableEq, Repr

/-- The types of a `GroupArg`. -/
inductive GroupType where
  | array (t : ArrayType)
  | struct (t : StructType)
deriving DecidableEq, Repr

def GroupType.common : GroupType → TypeCommon
  | array t => t.toTypeCommon
  | struct t => t.toTypeCommon

def GroupType.isVarlen : GroupType → Bool
  | array t => t.isVarlen
  | struct t => t.isVarlen

def GroupType.isStruct : GroupType → Bool
  | array _ => false
  | struct _ => true

structure UnionType extends TypeCommon where
  isVarlen : Bool
deriving DecidableEq, Repr

/-- A system call description: its position in `Target.Syscalls`, its name and the attributes
the serializer and the minimizer look at. -/
structure Syscall where
  id : ℕ
  name : String
  kfuzzTest : Bool := false
  noMinimize : Bool := false
deriving DecidableEq, Repr

/-- `CallName`: the name up to the variant. -/
def Syscall.callName (s : Syscall) : String := String.ofList (s.name.toList.takeWhile (· != '$'))

/-- `fallbackCallMask` -/
def fallbackCallMask : ℕ := 0x1fffff

/-- A target after `initTarget`, which numbers its calls and checks that there are not too many
of them (`checkMaxCallID`). -/
structure Target where
  syscalls : List Syscall
  dataOffset : UInt64
  specialPointers : List UInt64
  ids : syscalls.map (·.id) = List.range syscalls.length := by decide
  maxCallID : syscalls.length ≤ fallbackCallMask + 1 := by decide
deriving DecidableEq, Repr

namespace Target

lemma getElem?_id {target : Target} {c : Syscall} (hc : c ∈ target.syscalls) :
    target.syscalls[c.id]? = some c := by
  obtain ⟨i, hi, hget⟩ := List.mem_iff_getElem.mp hc
  have hid : (target.syscalls.map (·.id))[i]? = (List.range target.syscalls.length)[i]? := by
    rw [target.ids]
  simp only [List.getElem?_map, List.getElem?_range hi, List.getElem?_eq_getElem hi, hget,
    Option.map_some, Option.some.injEq] at hid
  rw [hid, List.getElem?_eq_getElem hi, hget]

end Target

end KConfuzz
