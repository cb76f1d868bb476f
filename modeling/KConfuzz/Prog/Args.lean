import Mathlib.Data.UInt
import KConfuzz.Prog.Types

/-!
# Programs and their argument trees (`prog/prog.go`, `prog/analysis.go`)

Arguments of the source are heap objects: a `ResultArg` refers to another one by pointer, and
maps are keyed by argument pointers. Here every argument carries an identifier that stands for
its address, and references are identifiers.
-/

namespace KConfuzz

open List

/-- The identity of an argument object. -/
abbrev ArgId := ℕ

/-- Used for `ResourceType`, and as the return value of a call. Either holds a constant value
(`res = none`) or references another result; `uses` are the arguments that use this one. -/
structure ResultArg where
  id : ArgId
  dir : Dir
  typ : ResourceType
  res : Option ArgId
  opDiv : UInt64
  opAdd : UInt64
  val : UInt64
  uses : List ArgId
deriving DecidableEq, Repr

/-- An argument tree. A pointer has no pointee (`res = none`) for a vma and for special
pointers; a data argument holds `data` for in and inout buffers and only a `size` for output
ones. -/
inductive Arg where
  | const (id : ArgId) (dir : Dir) (typ : ScalarType) (val : UInt64)
  | pointer (id : ArgId) (dir : Dir) (typ : PointerType) (address vmaSize : UInt64)
      (res : Option Arg)
  | data (id : ArgId) (dir : Dir) (typ : BufferType) (data : List UInt8) (size : UInt64)
  | group (id : ArgId) (dir : Dir) (typ : GroupType) (inner : List Arg)
  | union (id : ArgId) (dir : Dir) (typ : UnionType) (option : Arg) (index : ℕ)
  | result (r : ResultArg)

namespace Arg

def id : Arg → ArgId
  | const id .. | pointer id .. | data id .. | group id .. | union id .. => id
  | result r => r.id

@[simp] lemma id_result (r : ResultArg) : (result r).id = r.id := rfl

def dir : Arg → Dir
  | const _ dir .. | pointer _ dir .. | data _ dir .. | group _ dir .. | union _ dir .. => dir
  | result r => r.dir

def typeCommon : Arg → TypeCommon
  | const _ _ typ _ => typ.common.toTypeCommon
  | pointer _ _ typ .. => typ.common
  | data _ _ typ .. => typ.toTypeCommon
  | group _ _ typ _ => typ.common
  | union _ _ typ .. => typ.toTypeCommon
  | result r => r.typ.toTypeCommon

/-- `arg.Type().UnitOffset()`: only bitfields have one. -/
def unitOffset : Arg → UInt64
  | const _ _ typ _ => typ.common.bitfieldUnitOff
  | _ => 0

/-- `arg.Type().IsBitfield()` -/
def isBitfield : Arg → Bool
  | const _ _ typ _ => typ.common.isBitfield
  | _ => false

/-- `IsPad(arg.Type())` -/
def isPad : Arg → Bool
  | const _ _ typ _ => typ.isPad
  | _ => false

/-- The result argument an argument is, if it is one. -/
def result? : Arg → Option ResultArg
  | result r => some r
  | _ => none

end Arg

/-! ## Sizes -/

/-- The loop of `GroupArg.Size` over the fields of a struct, given their sizes: `i` is the
index of the first field left. -/
def structSize (t : StructType) : ℕ → UInt64 → UInt64 → List UInt64 → UInt64
  | _, size, _, [] => size
  | i, size, offset, fld :: rest =>
    let offset := (if i = t.overlayField then 0 else offset) + fld
    -- Add dynamic alignment at the end and before the overlay part.
    let offset :=
      if (rest.isEmpty || i + 1 == t.overlayField) && t.alignAttr != 0
          && offset % t.alignAttr != 0
        then offset + (t.alignAttr - offset % t.alignAttr) else offset
    structSize t (i + 1) (max size offset) offset rest

mutual

/-- `Arg.Size` -/
def Arg.size : Arg → UInt64
  | .const _ _ typ _ => typ.common.typeSize
  | .pointer _ _ typ .. => typ.common.typeSize
  | .data _ _ _ bytes size => if bytes.length != 0 then UInt64.ofNat bytes.length else size
  | .group _ _ typ inner =>
    if typ.isVarlen then
      match typ with
      | .struct t => structSize t 0 0 0 (Arg.sizes inner)
      | .array _ => (Arg.sizes inner).sum
    else typ.common.typeSize
  | .union _ _ typ option _ => if typ.isVarlen then option.size else typ.typeSize
  | .result r => r.typ.typeSize

def Arg.sizes : List Arg → List UInt64
  | [] => []
  | arg :: args => arg.size :: Arg.sizes args

end

/-! ## Walking the tree -/

/-- Where a visited argument lies: the address of the pointer to the heap object that contains
it (`Base.Address`; none outside of heap objects) and the offset in that object. -/
structure ArgCtx where
  base : Option UInt64
  offset : UInt64
deriving DecidableEq, Repr

mutual

/-- `foreachArgImpl`: the visited arguments, in the order of the visits. -/
def foreachArgImpl (ctx : ArgCtx) : Arg → List (Arg × ArgCtx)
  | arg@(.group _ _ (.struct t) inner) =>
    (arg, ctx) :: foreachInner ctx t.overlayField 0 ctx.offset inner
  | arg@(.group _ _ (.array _) inner) => (arg, ctx) :: foreachInner ctx 0 0 ctx.offset inner
  | arg@(.pointer _ _ _ address _ res) => (arg, ctx) :: foreachPointee address res
  | arg@(.union _ _ _ option _) => (arg, ctx) :: foreachArgImpl ctx option
  | arg@(.const ..) | arg@(.data ..) | arg@(.result _) => [(arg, ctx)]

/-- The elements of a group from the `i`-th on, which starts at `offset`. -/
def foreachInner (ctx0 : ArgCtx) (overlayField : ℕ) :
    ℕ → UInt64 → List Arg → List (Arg × ArgCtx)
  | _, _, [] => []
  | i, offset, arg :: args =>
    let offset := if i = overlayField then ctx0.offset else offset
    foreachArgImpl { ctx0 with offset := offset } arg ++
      foreachInner ctx0 overlayField (i + 1) (offset + arg.size) args

def foreachPointee (address : UInt64) : Option Arg → List (Arg × ArgCtx)
  | none => []
  | some res => foreachArgImpl { base := some address, offset := 0 } res

end

/-! ## Calls and programs -/

structure CallProps where
  failNth : ℤ
  async : Bool
  rerun : ℤ
deriving DecidableEq, Repr

/-- `CallProps{}` -/
def CallProps.zero : CallProps := ⟨0, false, 0⟩

structure Call where
  callMeta : Syscall
  args : List Arg
  ret : Option ResultArg
  props : CallProps

/-- `ForeachArg`: the return value first, then the arguments. -/
def foreachArg (c : Call) : List (Arg × ArgCtx) :=
  let ctx : ArgCtx := { base := none, offset := 0 }
  (match c.ret with
    | some r => foreachArgImpl ctx (.result r)
    | none => []) ++ c.args.flatMap (foreachArgImpl ctx)

/-! ## The arguments of a call without their places -/

mutual

/-- An argument and everything below it, in the order of a visit. -/
def Arg.subtree : Arg → List Arg
  | arg@(.group _ _ _ inner) => arg :: Arg.subtrees inner
  | arg@(.pointer _ _ _ _ _ res) => arg :: Arg.subtreeOf res
  | arg@(.union _ _ _ option _) => arg :: option.subtree
  | arg@(.const ..) | arg@(.data ..) | arg@(.result _) => [arg]

def Arg.subtrees : List Arg → List Arg
  | [] => []
  | arg :: args => arg.subtree ++ Arg.subtrees args

def Arg.subtreeOf : Option Arg → List Arg
  | none => []
  | some res => res.subtree

end

mutual

lemma map_fst_foreachArgImpl (ctx : ArgCtx) : ∀ arg : Arg,
    (foreachArgImpl ctx arg).map Prod.fst = arg.subtree
  | .group _ _ (.struct t) inner => by
    simp only [foreachArgImpl, Arg.subtree, map_cons,
      map_fst_foreachInner ctx t.overlayField 0 ctx.offset inner]
  | .group _ _ (.array _) inner => by
    simp only [foreachArgImpl, Arg.subtree, map_cons, map_fst_foreachInner ctx 0 0 ctx.offset inner]
  | .pointer _ _ _ address _ res => by
    simp only [foreachArgImpl, Arg.subtree, map_cons, map_fst_foreachPointee address res]
  | .union _ _ _ option _ => by
    simp only [foreachArgImpl, Arg.subtree, map_cons, map_fst_foreachArgImpl ctx option]
  | .const .. | .data .. | .result _ => by
    simp only [foreachArgImpl, Arg.subtree, map_cons, map_nil]

lemma map_fst_foreachInner (ctx0 : ArgCtx) (overlayField : ℕ) :
    ∀ (i : ℕ) (offset : UInt64) (args : List Arg),
      (foreachInner ctx0 overlayField i offset args).map Prod.fst = Arg.subtrees args
  | _, _, [] => by
    simp only [foreachInner, Arg.subtrees, map_nil]
  | i, offset, arg :: args => by
    simp only [foreachInner, Arg.subtrees, map_append, map_fst_foreachArgImpl _ arg,
      map_fst_foreachInner ctx0 overlayField (i + 1) _ args]

lemma map_fst_foreachPointee (address : UInt64) : ∀ res : Option Arg,
    (foreachPointee address res).map Prod.fst = Arg.subtreeOf res
  | none => by
    simp only [foreachPointee, Arg.subtreeOf, map_nil]
  | some res => by
    simp only [foreachPointee, Arg.subtreeOf, map_fst_foreachArgImpl _ res]

end

lemma Arg.subtrees_eq_flatMap (args : List Arg) : Arg.subtrees args = args.flatMap Arg.subtree := by
  induction args with
  | nil => rfl
  | cons arg args ih => rw [Arg.subtrees, ih, flatMap_cons]

lemma Arg.mem_subtree_self (arg : Arg) : arg ∈ arg.subtree := by
  cases arg <;> simp [Arg.subtree]

/-- The arguments right below an argument. -/
def Arg.children : Arg → List Arg
  | .group _ _ _ inner => inner
  | .pointer _ _ _ _ _ res => res.toList
  | .union _ _ _ option _ => [option]
  | .const .. | .data .. | .result _ => []

lemma Arg.subtree_eq (arg : Arg) : arg.subtree = arg :: arg.children.flatMap Arg.subtree := by
  cases arg with
  | group _ _ _ inner => rw [Arg.subtree, Arg.subtrees_eq_flatMap, Arg.children]
  | pointer _ _ _ _ _ res => cases res <;> simp [Arg.subtree, Arg.subtreeOf, Arg.children]
  | _ => simp [Arg.subtree, Arg.children]

/-- Induction on argument trees. -/
@[elab_as_elim]
lemma Arg.childInduction {motive : Arg → Prop}
    (step : ∀ arg : Arg, (∀ child ∈ arg.children, motive child) → motive arg) (arg : Arg) :
    motive arg :=
  @Arg.rec motive (fun res => ∀ child ∈ res.toList, motive child)
    (fun inner => ∀ child ∈ inner, motive child) (fun _ _ _ _ => step _ nofun)
    (fun _ _ _ _ _ _ ih => step _ ih) (fun _ _ _ _ _ => step _ nofun)
    (fun _ _ _ _ ih => step _ ih) (fun _ _ _ _ _ ih => step _ (forall_mem_singleton.mpr ih))
    (fun _ => step _ nofun) nofun (fun _ ih => forall_mem_singleton.mpr ih) nofun
    (fun _ _ ih ihs => forall_mem_cons.mpr ⟨ih, ihs⟩) arg

lemma Arg.subtree_subset {arg' : Arg} (arg : Arg) (h : arg' ∈ arg.subtree) :
    arg'.subtree ⊆ arg.subtree := by
  induction arg using Arg.childInduction with
  | step arg ih =>
    intro x hx
    rw [Arg.subtree_eq] at h
    rcases mem_cons.mp h with rfl | h
    · exact hx
    · obtain ⟨child, hchild, h⟩ := mem_flatMap.mp h
      rw [Arg.subtree_eq]
      exact mem_cons_of_mem _ (mem_flatMap.mpr ⟨child, hchild, ih child hchild h hx⟩)

lemma Arg.mem_subtree_of_mem_inner {id : ArgId} {dir : Dir} {typ : GroupType} {inner : List Arg}
    {field : Arg} (hfield : field ∈ inner) (arg : Arg)
    (h : .group id dir typ inner ∈ arg.subtree) : field ∈ arg.subtree := by
  apply Arg.subtree_subset arg h
  rw [Arg.subtree_eq]
  exact mem_cons_of_mem _ (mem_flatMap.mpr ⟨field, hfield, field.mem_subtree_self⟩)

/-- The arguments of a call, in the order of the checks. -/
def Call.argNodes (c : Call) : List Arg := c.args.flatMap Arg.subtree

def Call.retNodes (c : Call) : List Arg := (c.ret.map Arg.result).toList

def Call.nodes (c : Call) : List Arg := c.argNodes ++ c.retNodes

lemma map_fst_foreachArg (c : Call) : (foreachArg c).map Prod.fst = c.retNodes ++ c.argNodes := by
  unfold foreachArg Call.retNodes Call.argNodes
  simp only [map_append, map_flatMap, map_fst_foreachArgImpl]
  cases c.ret with
  | none => rfl
  | some r => simp [map_fst_foreachArgImpl, Arg.subtree]

structure Prog where
  target : Target
  calls : List Call
  callMeta_mem : ∀ c ∈ calls, c.callMeta ∈ target.syscalls

/-- `maxSpecialPointers` -/
def maxSpecialPointers : UInt64 := 16

/-- `PointerArg.IsSpecial` -/
def isSpecial (address vmaSize : UInt64) (hasRes : Bool) : Bool :=
  vmaSize == 0 && !hasRes && decide (-address < maxSpecialPointers)

/-- `Target.PhysicalAddr`; a special pointer outside of the target's table is an index
out of range. -/
def physicalAddr (target : Target) (address vmaSize : UInt64) (hasRes : Bool) :
    Except String UInt64 :=
  if isSpecial address vmaSize hasRes then
    match target.specialPointers[(-address).toNat]? with
    | some addr => .ok addr
    | none => .error "index out of range"
  else .ok (target.dataOffset + address)

end KConfuzz
