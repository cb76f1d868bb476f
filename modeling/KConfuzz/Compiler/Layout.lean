import KConfuzz.Lib.Rounding

/-!
# Layout of structs (`pkg/compiler/gen.go`)

`layoutStructFields` goes over the fields of a struct with a byte offset and a number of pending
bits. It adds paddings and tells bitfields which bits of their unit they are. The size of a
bitfield is set when the next field is placed, or at the end.

Fields have what the pass reads of their types. The alignment of a struct that contains itself in
an array is not assigned yet when its own fields are laid out, and is 0 then; `finalAlign` is what
it becomes later.
-/

namespace KConfuzz.Compiler

/-! ## Fields -/

inductive FieldKind where
  | fixed (size : UInt64)
  /-- A field without a static size; `size` is the size of an argument for it. -/
  | varlen (size : ℕ)
  | bitfield (unit length : UInt64)
deriving DecidableEq, Repr

/-- The units that `typeArgBase` accepts and the lengths it allows for them. -/
def FieldKind.Ok : FieldKind → Prop
  | .bitfield unit length =>
    unit ∈ [1, 2, 4, 8] ∧ 0 < length.toNat ∧ length.toNat ≤ 8 * unit.toNat
  | _ => True

instance (kind : FieldKind) : Decidable kind.Ok := by
  unfold FieldKind.Ok
  split <;> infer_instance

def FieldKind.isBitfield : FieldKind → Bool
  | .bitfield .. => true
  | _ => false

def FieldKind.isVarlen : FieldKind → Bool
  | .varlen _ => true
  | _ => false

/-- The alignments that types can have. -/
def IsAlign (a : UInt64) : Prop := ∃ k ≤ 30, a.toNat = 2 ^ k

/-- A field that the compiler accepts. -/
structure Field where
  name : String
  kind : FieldKind
  align : UInt64
  finalAlign : UInt64
  kind_ok : kind.Ok
  isAlign : IsAlign finalAlign
  align_eq : align = finalAlign ∨ (align = 0 ∧ kind.isBitfield = false)

/-- A field after the pass; a padding has no description. -/
structure OutField where
  field : Option Field
  typeSize : UInt64
  bitfieldOff : UInt64
  bitfieldUnitOff : UInt64

def genPad (size : UInt64) : OutField :=
  { field := none, typeSize := size, bitfieldOff := 0, bitfieldUnitOff := 0 }

/-- The size that `genIntCommon` gives a bitfield is 0. -/
def FieldKind.typeSize : FieldKind → UInt64
  | .fixed size => size
  | .varlen _ | .bitfield .. => 0

/-! ## Rounding -/

def rounddown (v a : UInt64) : Except String UInt64 :=
  if a &&& (a - 1) ≠ 0 then .error s!"rounddown({a})" else .ok (v &&& ~~~(a - 1))

def roundup (v a : UInt64) : Except String UInt64 := rounddown (v + a - 1) a

/-! ## One field -/

structure LayoutState where
  newFields : List OutField
  structAlign : UInt64
  byteOffset : UInt64
  bitOffset : UInt64

def LayoutState.init : LayoutState :=
  { newFields := [], structAlign := 0, byteOffset := 0, bitOffset := 0 }

/-- Where a field is put: the offset of the field or of the unit of a bitfield, the place of a
bitfield in its unit, and the bits that are pending afterwards. -/
structure Place where
  fieldOffset : UInt64
  fieldBitOffset : UInt64
  bitOffset : UInt64

def placeBitfield (packed : Bool) (unit length byteOffset bitOffset : UInt64) :
    Except String Place := do
  let fullBitOffset := byteOffset * 8 + bitOffset
  let unitAlign := if packed then 1 else unit
  let fieldOffset ← rounddown (fullBitOffset / 8) unitAlign
  let unitBits := unit * 8
  let occupiedBits := fullBitOffset - fieldOffset * 8
  let remainBits := unitBits - occupiedBits
  if remainBits < length then
    let fieldOffset ← roundup ((← roundup fullBitOffset 8) / 8) unitAlign
    return { fieldOffset, fieldBitOffset := (0 - fieldOffset * 8) % unitBits, bitOffset := 0 }
  else if fullBitOffset ≤ fieldOffset * 8 then
    return { fieldOffset
             fieldBitOffset := (fieldOffset * 8 - fieldOffset * 8) % unitBits, bitOffset := 0 }
  else
    return { fieldOffset
             fieldBitOffset := (fullBitOffset - fieldOffset * 8) % unitBits, bitOffset }

def placePlain (fieldAlign byteOffset bitOffset : UInt64) : Except String Place := do
  let fullBitOffset := byteOffset * 8 + bitOffset
  let fieldOffset ← roundup ((← roundup fullBitOffset 8) / 8) fieldAlign
  return { fieldOffset, fieldBitOffset := 0, bitOffset := 0 }

def placeField (packed : Bool) (f : Field) (byteOffset bitOffset : UInt64) : Except String Place :=
  match f.kind with
  | .bitfield unit length => placeBitfield packed unit length byteOffset bitOffset
  | _ => placePlain (if packed then 1 else f.align) byteOffset bitOffset

/-- `setBitfieldTypeSize` for the field that was added last. -/
def setLastTypeSize (size : UInt64) (fields : List OutField) : List OutField :=
  fields.modifyLast fun f => { f with typeSize := size }

/-- Closes the gap before a field. The previous field gets it if it is a bitfield. -/
def fillGap (structName : String) (prev : Option Field) (f : Field) (st : LayoutState)
    (place : Place) : Except String LayoutState :=
  if st.byteOffset < place.fieldOffset then
    let pad := place.fieldOffset - st.byteOffset
    let byteOffset := st.byteOffset + pad
    let bitOffset := place.bitOffset
    if prev.any (·.kind.isBitfield) then
      let newFields := setLastTypeSize pad st.newFields
      -- The padding is due to bitfields, so consume the bitOffset.
      if 8 * pad ≤ bitOffset then
        .ok { st with newFields, byteOffset, bitOffset := bitOffset - 8 * pad }
      else if 8 ≤ bitOffset then
        let name := f.name
        .error s!"bad bitOffset: {structName}.{name} pad={pad} bitOffset={bitOffset}"
      else .ok { st with newFields, byteOffset, bitOffset }
    else .ok { st with newFields := st.newFields ++ [genPad pad], byteOffset, bitOffset }
  else .ok { st with bitOffset := place.bitOffset }

def addField (f : Field) (st : LayoutState) (place : Place) : LayoutState :=
  match f.kind with
  | .bitfield _ length =>
    { st with
      newFields := st.newFields ++ [{
        field := some f
        typeSize := f.kind.typeSize
        bitfieldOff := place.fieldBitOffset
        bitfieldUnitOff :=
          if place.fieldOffset < st.byteOffset then st.byteOffset - place.fieldOffset else 0 }]
      bitOffset := st.bitOffset + length }
  | _ =>
    { st with
      newFields := st.newFields ++ [{
        field := some f, typeSize := f.kind.typeSize, bitfieldOff := 0, bitfieldUnitOff := 0 }]
      -- The offset is not increased for a field of variable length.
      byteOffset := st.byteOffset + f.kind.typeSize }

/-- The body of the loop over the fields. -/
def layoutField (structName : String) (packed : Bool) (prev : Option Field) (st : LayoutState)
    (f : Field) : Except String LayoutState := do
  let st := if packed then st else { st with structAlign := max st.structAlign f.align }
  let place ← placeField packed f st.byteOffset st.bitOffset
  let st ← fillGap structName prev f st place
  return addField f st place

/-! ## All fields -/

/-- The loop, up to the overlay or to the end. -/
def layoutLoop (structName : String) (packed : Bool) :
    Option Field → LayoutState → List Field → Except String LayoutState
  | _, st, [] => return st
  | prev, st, f :: fields => do
    let st ← layoutField structName packed prev st f
    layoutLoop structName packed (some f) st fields

/-- The last bitfield gets the bytes of the pending bits. -/
def finishBits (st : LayoutState) : Except String LayoutState :=
  if st.bitOffset ≠ 0 then do
    let pad := (← roundup st.bitOffset 8) / 8
    let byteOffset := st.byteOffset + pad
    if st.newFields.getLast?.any fun f => f.field.any (·.kind.isBitfield) then
      return { st with newFields := setLastTypeSize pad st.newFields, byteOffset, bitOffset := 0 }
    else return { st with newFields := st.newFields ++ [genPad pad], byteOffset, bitOffset := 0 }
  else return st

/-- The padding at the end. -/
def padEnd (varlen : Bool) (structAlign : UInt64) (st : LayoutState) : List OutField :=
  if varlen = false ∧ structAlign ≠ 0 ∧ st.byteOffset % structAlign ≠ 0 then
    st.newFields ++ [genPad (structAlign - st.byteOffset % structAlign)]
  else st.newFields

def finalizeStructFields (varlen : Bool) (alignAttr : UInt64) (st : LayoutState) :
    Except String (List OutField) := do
  let st ← finishBits st
  return padEnd varlen (if alignAttr ≠ 0 then alignAttr else st.structAlign) st

/-- A struct that the compiler accepts. A struct that is not packed has at most one field of
variable length, the last one; the overlay does not start with the first field. -/
structure StructDesc where
  name : String
  fields : List Field
  packed : Bool
  alignAttr : UInt64
  overlayField : Option ℕ
  align_ok : alignAttr = 0 ∨ IsAlign alignAttr
  varlen_last : packed = false → ∀ f ∈ fields.dropLast, f.kind.isVarlen = false
  overlay_ok : ∀ k ∈ overlayField, 0 < k ∧ k < fields.length

def StructDesc.varlen (t : StructDesc) : Bool := t.fields.any (·.kind.isVarlen)

/-- The fields before the overlay, or the overlay, or all fields: the source lays them out
"effectively as 2 independent structs". The first field of the overlay starts at 0 without a gap,
so it does not matter which field is before it. -/
def layoutPart (t : StructDesc) (fields : List Field) : Except String (List OutField) := do
  let st ← layoutLoop t.name t.packed none .init fields
  finalizeStructFields t.varlen t.alignAttr st

/-- The new fields and the new index of the overlay. -/
def layoutStructFields (t : StructDesc) : Except String (List OutField × Option ℕ) :=
  match t.overlayField with
  | none => do
    let newFields ← layoutPart t t.fields
    return (newFields, none)
  | some k => do
    let newFields ← layoutPart t (t.fields.take k)
    let overlay ← layoutPart t (t.fields.drop k)
    return (newFields ++ overlay, some newFields.length)

end KConfuzz.Compiler
