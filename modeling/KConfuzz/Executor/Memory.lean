import KConfuzz.Executor.Input
import KConfuzz.Lib.ByteMemory
import KConfuzz.Lib.LittleEndian

/-!
# Copyin instructions in memory (`executor/executor.cc`, `executor/common.h`)

What the executor stores for the copyin instructions of a call, in a data area that is mapped.
`copyin_int` depends on the byte order of the machine; everything else is for a little-endian one.
Addresses are relative to `SYZ_DATA_OFFSET`, as they stand in the instructions.

The executor adds the carries of a checksum with a `while` loop over a 32-bit accumulator; two
rounds of it are enough for any accumulator. Shifts by 64 and more are undefined in the source
and taken modulo 64 here, as the machine does.
-/

namespace KConfuzz.Executor

open Lib.ByteMemory Lib.LittleEndian

/-- What the values of a call depend on at run time: the number of the process, the start of the
data area, and the results of the calls that have been executed. -/
structure Runtime where
  procid : UInt64
  dataOffset : UInt64
  results : UInt64 → Option UInt64

/-! ## Integers -/

/-- The byte order of the machine that the executor runs on. -/
inductive Host where
  | littleEndian
  | bigEndian
deriving DecidableEq, Repr

/-- The bytes of an integer, the lowest one first, in the order of memory, and back. -/
def Host.order : Host → List UInt8 → List UInt8
  | littleEndian, bytes => bytes
  | bigEndian, bytes => bytes.reverse

/-- `swap`; `htobe16` and the like do nothing on a big-endian machine. -/
def swap (host : Host) (v size bf : UInt64) : UInt64 :=
  if bf = binaryFormatNative ∨ host = .bigEndian then v
  else UInt64.ofNat (ofLE (toLE size.toNat v.toNat).reverse)

/-- `BITMASK` -/
def bitmask (bfOff bfLen : UInt64) : UInt64 := (1 <<< bfLen - 1) <<< bfOff

/-- The place of a bitfield in its unit, from the lowest bit: a big-endian machine counts the
offset from the highest one. -/
def bitfieldShift (host : Host) (size bfOff bfLen : UInt64) : UInt64 :=
  match host with
  | .littleEndian => bfOff
  | .bigEndian => size * 8 - bfOff - bfLen

variable (rt : Runtime) (mem : Memory)

/-- `copyin_int`, for the type of the given size. -/
def copyinInt (host : Host) (addr val size bf bfOff bfLen : UInt64) : Memory :=
  let write v := store mem addr (host.order (toLE size.toNat (swap host v size bf).toNat))
  if bfOff = 0 ∧ bfLen = 0 then write val
  else
    let x := swap host (UInt64.ofNat (ofLE (host.order (load mem addr size.toNat)))) size bf
    let shift := bitfieldShift host size bfOff bfLen
    write (x &&& ~~~bitmask shift bfLen ||| val <<< shift &&& bitmask shift bfLen)

/-! ## Text formats -/

def digitChar (d : ℕ) : UInt8 := UInt8.ofNat (if d < 10 then 0x30 + d else 0x61 + (d - 10))

/-- The last `width` digits of a number; with a width that fits, what `sprintf` prints for a
number padded with zeros. -/
def digits (base : ℕ) : ℕ → ℕ → List UInt8
  | 0, _ => []
  | width + 1, v => digits base width (v / base) ++ [digitChar (v % base)]

/-- The text of a number in the given format. -/
def numberText (val bf : UInt64) : List UInt8 :=
  if bf = binaryFormatStrdec then digits 10 20 val.toNat
  else if bf = binaryFormatStrhex then 0x30 :: 0x78 :: digits 16 16 val.toNat
  else digits 8 23 val.toNat

/-- `copyin`; `sprintf` writes a zero byte after the text. -/
def copyin (addr val size bf bfOff bfLen : UInt64) : Memory :=
  if bf = binaryFormatNative ∨ bf = binaryFormatBigendian then
    copyinInt mem .littleEndian addr val size bf bfOff bfLen
  else store mem addr (numberText val bf ++ [0])

/-! ## Checksums -/

/-- The loop of `csum_inet_update` over the words of the data, with the odd byte at the end. -/
def addWords : UInt32 → List UInt8 → UInt32
  | acc, [] => acc
  | acc, [a] => acc + a.toUInt32
  | acc, a :: b :: data => addWords (acc + (a.toUInt32 + 256 * b.toUInt32)) data

/-- A round of the loop that brings the carries around. -/
def foldCarry (acc : UInt32) : UInt32 :=
  if acc > 0xffff then (acc &&& (0xffff : UInt32)) + (acc >>> 16) else acc

def csumInetUpdate (acc : UInt32) (data : List UInt8) : UInt32 :=
  foldCarry (foldCarry (addWords acc data))

def csumInetDigest (acc : UInt32) : UInt16 := ~~~acc.toUInt16

/-- The bytes of a chunk. -/
def chunkBytes (chunk : InstrChunk) : List UInt8 :=
  if chunk.kind = execArgCsumChunkData then load mem chunk.value chunk.size.toNat
  else (toLE 8 chunk.value.toNat).take chunk.size.toNat

def csumInet (chunks : List InstrChunk) : UInt16 :=
  csumInetDigest ((chunks.map (chunkBytes mem)).foldl csumInetUpdate 0)

/-! ## Instructions -/

/-- `read_const_arg` -/
def readConstArg (info val : UInt64) : UInt64 := val + (info >>> 32) * rt.procid

/-- `read_result` -/
def readResult (idx opDiv opAdd default : UInt64) : UInt64 :=
  match rt.results idx with
  | some v => (if opDiv ≠ 0 then v / opDiv else v) + opAdd
  | none => default

def storeArg (addr : UInt64) : InstrArg → Memory
  | .const info val =>
    copyin mem addr (readConstArg rt info val) (info &&& 0xff) ((info >>> 8) &&& 0xff)
      ((info >>> 16) &&& 0xff) ((info >>> 24) &&& 0xff)
  | .addr32 val => store mem addr (toLE 4 (val + rt.dataOffset).toNat)
  | .addr64 val => store mem addr (toLE 8 (val + rt.dataOffset).toNat)
  | .result info idx opDiv opAdd default =>
    copyin mem addr (readResult rt idx opDiv opAdd default) (info &&& 0xff) (info >>> 8) 0 0
  | .data _ blob => store mem addr blob
  | .csum _ _ chunks =>
    copyin mem addr (csumInet mem chunks).toUInt64 2 binaryFormatNative 0 0

/-- The value of an argument that is not in memory. -/
def argValue : InstrArg → UInt64
  | .const info val =>
    swap .littleEndian (readConstArg rt info val) (info &&& 0xff) ((info >>> 8) &&& 0xff)
  | .addr32 val | .addr64 val => val + rt.dataOffset
  | .result _ idx opDiv opAdd default => readResult rt idx opDiv opAdd default
  | .data .. | .csum .. => 0

/-- `read_arg` -/
def readArg (arg : InstrArg) : Except String UInt64 := do
  checkArg arg
  return argValue rt arg

/-- One copyin instruction of `execute_one`. -/
def execCopyin (i : CopyinInstr) : Except String Memory := do
  checkCopyinArg i.arg
  return storeArg rt mem i.addr i.arg

def execCopyins (is : List CopyinInstr) : Except String Memory :=
  is.foldlM (execCopyin rt) mem

end KConfuzz.Executor
