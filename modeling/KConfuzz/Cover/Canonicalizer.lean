import KConfuzz.Lib.BinarySearch
import KConfuzz.Lib.MapLog
import Mathlib.Data.List.Sort

/-!
# Canonical addresses of coverage

The kernel modules of two machines are loaded at different addresses. `pkg/cover` converts the
program counters of an instance to those of the first machine, the canonical one, and back. The
module of a program counter is found by a binary search in the sorted addresses of the modules,
and the conversion map says by how much the module is shifted, where it ends, and whether its
program counters are to be discarded.
-/

namespace KConfuzz.Cover

structure KernelModule where
  name : String
  addr : UInt64
  size : UInt64
deriving DecidableEq, Repr

structure CanonicalizerModule where
  /-- The shift, a signed number in two's complement. -/
  offset : UInt64
  name : String
  endAddr : UInt64
  discard : Bool
deriving DecidableEq, Repr

/-- The canonical modules by name, and their sorted addresses; `none` without canonicalization. -/
structure Canonicalizer where
  modules : String → Option KernelModule
  moduleKeys : Option (List UInt64)

structure Convert where
  conversionHash : UInt64 → Option CanonicalizerModule
  moduleKeys : List UInt64

/-- The conversions of an instance; `none` converts nothing. -/
structure CanonicalizerInstance where
  canonicalize : Option Convert
  decanonicalize : Option Convert

/-! ## The conversion maps -/

/-- The sorted list of addresses. -/
def setModuleKeys (modules : List KernelModule) : List UInt64 :=
  (modules.map KernelModule.addr).insertionSort (· ≤ ·)

def newCanonicalizer (modules : List KernelModule) (flagSignal : Bool) : Canonicalizer :=
  if modules.length = 0 ∨ ¬ flagSignal then ⟨fun _ => none, none⟩
  else ⟨Lib.MapLog.applyWrites KernelModule.name some (fun _ => none) modules,
    some (setModuleKeys modules)⟩

section Instance

variable (can : Canonicalizer)

/-- The module is not there in the canonical list, or it is another one. -/
def Canonicalizer.discards (module : KernelModule) : Bool :=
  match can.modules module.name with
  | some canonicalModule => canonicalModule.size != module.size
  | none => true

/-- The address of the canonical module, zero if there is none. -/
def Canonicalizer.canonicalAddr (module : KernelModule) : UInt64 :=
  match can.modules module.name with
  | some canonicalModule => canonicalModule.addr
  | none => 0

/-- The entry for a module that is at `src` in the list that is converted, and at `dst` in the
other. -/
def Canonicalizer.entry (module : KernelModule) (src dst : UInt64) : CanonicalizerModule where
  offset := dst - src
  name := module.name
  endAddr := module.size + src
  discard := can.discards module

def Canonicalizer.canonicalToInst (module : KernelModule) : UInt64 × CanonicalizerModule :=
  (can.canonicalAddr module, can.entry module (can.canonicalAddr module) module.addr)

def Canonicalizer.instToCanonical (module : KernelModule) : UInt64 × CanonicalizerModule :=
  (module.addr, can.entry module module.addr (can.canonicalAddr module))

/-- The map with the given entries, a later one in the place of an earlier one. -/
def conversionMap (entries : List (UInt64 × CanonicalizerModule)) :
    UInt64 → Option CanonicalizerModule :=
  Lib.MapLog.applyWrites Prod.fst (fun e => some e.2) (fun _ => none) entries

def Canonicalizer.newInstance (modules : List KernelModule) : CanonicalizerInstance :=
  match can.moduleKeys with
  | none => ⟨none, none⟩
  | some canonicalKeys =>
    { canonicalize := some
        ⟨conversionMap (modules.map can.instToCanonical), setModuleKeys modules⟩
      decanonicalize := some
        ⟨conversionMap (modules.map can.canonicalToInst), canonicalKeys⟩ }

end Instance

/-! ## Converting -/

/-- The index of the last address that is not above the program counter. -/
def findModule (pc : UInt64) (moduleKeys : List UInt64) : Option ℕ :=
  let above i := decide (moduleKeys[i]?.any fun key => key ≤ pc)
  match Lib.BinarySearch.find above moduleKeys.length with
  | 0 => none
  | idx + 1 => some idx

/-- The converted program counter, or none if it is discarded. -/
def Convert.convertPC (convert : Convert) (pc : UInt64) : Option UInt64 :=
  match findModule pc convert.moduleKeys with
  | none => some pc
  | some idx =>
    match convert.moduleKeys[idx]?.bind convert.conversionHash with
    | none => none
    | some module =>
      if pc < module.endAddr then
        if module.discard then none
        else if module.name ≠ "" then some (pc + module.offset)
        else some pc
      else some pc

def convertPCs (convert : Option Convert) (pcs : List UInt64) : List UInt64 :=
  match convert with
  | none => pcs
  | some convert => pcs.filterMap convert.convertPC

def CanonicalizerInstance.canonicalizePCs (ci : CanonicalizerInstance) (elems : List UInt64) :
    List UInt64 :=
  convertPCs ci.canonicalize elems

def CanonicalizerInstance.decanonicalizePCs (ci : CanonicalizerInstance) (elems : List UInt64) :
    List UInt64 :=
  convertPCs ci.decanonicalize elems

end KConfuzz.Cover
