import KConfuzz.Exec.Format
import KConfuzz.Lib.ExceptFold
import KConfuzz.Lib.Parser

/-!
# Reading the input (`executor/executor.cc`)

The executor reads the serialized program word by word (`read_input`) while it executes it. Here
the words of an instruction are collected first (`fetchInstr`), and what the source checks about
them on the way is a second step (`checkInstr`, `copyoutCallResults`). A failed check ends the
process with its message, so it does not matter how many of the other words were read before.

The values that are copied to and from memory are left out: what the calls do is arbitrary
anyway, and no check depends on them.
-/

namespace KConfuzz.Executor

open Lib.ExceptFold Lib.Parser Lib.Varint

def kMaxCommands : ℕ := 1000

def kMaxArgs : ℕ := 9

/-- A reader of the bytes at `input_pos`. -/
abbrev Reader := StateParser UInt8 String Unit

/-- `read_input` -/
def readInput : Reader UInt64 := token varint "varint overflow"

/-! ## Instructions -/

def readBlob (size : UInt64) : Reader (List UInt8) :=
  token (fun data => if data.length < size.toNat then none
    else some (data.take size.toNat, data.drop size.toNat)) "data arg overflow"

def readChunk : Reader InstrChunk := do
  let kind ← readInput
  let value ← readInput
  let size ← readInput
  return { kind, value, size }

/-- The words of an argument. -/
def readInstrArg : Reader InstrArg := do
  let typ ← readInput
  if typ = execArgConst then do
    let info ← readInput
    let val ← readInput
    return .const info val
  else if typ = execArgAddr32 then do
    let addr ← readInput
    return .addr32 addr
  else if typ = execArgAddr64 then do
    let addr ← readInput
    return .addr64 addr
  else if typ = execArgResult then do
    let info ← readInput
    let idx ← readInput
    let opDiv ← readInput
    let opAdd ← readInput
    let default ← readInput
    return .result info idx opDiv opAdd default
  else if typ = execArgData then do
    let size ← readInput
    let blob ← readBlob (size &&& ~~~execArgDataReadable)
    return .data (size &&& execArgDataReadable != 0) blob
  else if typ = execArgCsum then do
    let size ← readInput
    let kind ← readInput
    if kind = execArgCsumInet then do
      let chunksNum ← readInput
      let chunks ← times readChunk chunksNum.toNat
      return .csum size kind chunks
    else throw "bad checksum kind"
  else throw "bad argument type"

/-- A conversion to `int`. -/
def cInt (w : UInt64) : ℤ := w.toUInt32.toInt32.toInt

/-- The words of the next instruction. A number that stands for no other instruction is the one
of a call. -/
def fetchInstr : Reader Instr := do
  let callNum ← readInput
  if callNum = execInstrEOF then return .eof
  else if callNum = execInstrCopyin then do
    let addr ← readInput
    let arg ← readInstrArg
    return .copyin { addr, arg }
  else if callNum = execInstrCopyout then do
    let idx ← readInput
    let addr ← readInput
    let size ← readInput
    return .copyout { idx, addr, size }
  else if callNum = execInstrSetProps then do
    let failNth ← readInput
    let async ← readInput
    let rerun ← readInput
    return .setProps { failNth := cInt failNth, async := async != 0, rerun := cInt rerun }
  else if callNum = execInstrKConfuzzConfig then do
    let paramID ← readInput
    let valueID ← readInput
    let flags ← readInput
    return .kconfuzzConfig { paramID, valueID, flags }
  else do
    let copyoutIndex ← readInput
    let numArgs ← readInput
    let args ← times readInstrArg numArgs.toNat
    return .call callNum copyoutIndex args

/-! ## Checks -/

/-- `binary_format_native` and the formats after it. -/
def binaryFormatNative : UInt64 := 0

def binaryFormatBigendian : UInt64 := 1

def binaryFormatStrdec : UInt64 := 2

def binaryFormatStrhex : UInt64 := 3

def binaryFormatStroct : UInt64 := 4

/-- `swap` -/
def checkSwap (size bf : UInt64) : Except String Unit := do
  if bf = binaryFormatNative then return
  failIf (bf ≠ binaryFormatBigendian) "bad binary format in swap"
  failIf (size ∉ [2, 4, 8]) "bad big-endian int size"

/-- `copyin` -/
def checkCopyin (size bf bfOff bfLen : UInt64) : Except String Unit := do
  failIf (bf ≠ binaryFormatNative ∧ bf ≠ binaryFormatBigendian ∧ (bfOff ≠ 0 ∨ bfLen ≠ 0))
    "bitmask for string format"
  if bf = binaryFormatNative ∨ bf = binaryFormatBigendian then
    failIf (size ∉ [1, 2, 4, 8]) "copyin: bad argument size"
    checkSwap size bf
  else if bf = binaryFormatStrdec then failIf (size ≠ 20) "bad strdec size"
  else if bf = binaryFormatStrhex then failIf (size ≠ 18) "bad strhex size"
  else if bf = binaryFormatStroct then failIf (size ≠ 23) "bad stroct size"
  else throw "unknown binary format"

/-- `read_result` -/
def checkResult (idx : UInt64) : Except String Unit :=
  failIf (kMaxCommands ≤ idx.toNat) "command refers to bad result"

def checkChunk (chunk : InstrChunk) : Except String Unit :=
  if chunk.kind = execArgCsumChunkData then .ok ()
  else if chunk.kind = execArgCsumChunkConst then
    failIf (chunk.size ∉ [2, 4, 8]) "bad checksum const chunk size"
  else .error "bad checksum chunk kind"

/-- The argument of a copyin. -/
def checkCopyinArg : InstrArg → Except String Unit
  | .const info _ =>
    checkCopyin (info &&& 0xff) ((info >>> 8) &&& 0xff) ((info >>> 16) &&& 0xff)
      ((info >>> 24) &&& 0xff)
  | .addr32 _ | .addr64 _ | .data .. => .ok ()
  | .result info idx _ _ _ => do
    checkResult idx
    checkCopyin (info &&& 0xff) (info >>> 8) 0 0
  | .csum size _ chunks => do
    failIf (size ≠ 2) "bag inet checksum size"
    chunks.forM checkChunk

/-- `read_arg`, for the arguments of a call. -/
def checkArg : InstrArg → Except String Unit
  | .const info _ => do
    let bf := (info >>> 8) &&& 0xff
    failIf (bf ≠ binaryFormatNative ∧ bf ≠ binaryFormatBigendian) "bad argument binary format"
    failIf ((info >>> 16) &&& 0xff ≠ 0 ∨ (info >>> 24) &&& 0xff ≠ 0) "bad argument bitfield"
    checkSwap (info &&& 0xff) bf
  | .addr32 _ | .addr64 _ => .ok ()
  | .result info idx _ _ _ => do
    failIf (info >>> 8 ≠ binaryFormatNative) "bad result argument format"
    checkResult idx
  | .data .. | .csum .. => .error "bad argument type"

/-- What the executor checks about an instruction before it carries it out. -/
def checkInstr : Instr → Except String Unit
  | .copyin i => checkCopyinArg i.arg
  | .call _ _ args => do
    failIf (kMaxArgs < args.length) "command has bad number of arguments"
    args.forM checkArg
  | _ => .ok ()

/-! ## Results of a call -/

/-- The copyout instructions at the position, up to the next instruction of another kind. The
source has no bound on their number; here it is the number of bytes that are left. -/
def readCopyouts : ℕ → Reader (List CopyoutInstr)
  | 0 => throw "input command overflows input"
  | fuel + 1 => do
    let instr ← readInput
    if instr = execInstrCopyout then do
      let idx ← readInput
      let addr ← readInput
      let size ← readInput
      let rest ← readCopyouts fuel
      return { idx, addr, size } :: rest
    else return []

def checkCopyout (i : CopyoutInstr) : Except String Unit := do
  failIf (kMaxCommands ≤ i.idx.toNat) "result overflows kMaxCommands"
  failIf (i.size ∉ [1, 2, 4, 8]) "copyout: bad argument size"

/-- The copyout instructions that belong to a call, read from the position after it. -/
def copyoutsAt (pos : List UInt8) : Except String (List CopyoutInstr) :=
  (readCopyouts pos.length () pos).map (·.1.1)

/-- `copyout_call_results` -/
def copyoutCallResults (copyoutIndex : UInt64) (copyoutPos : List UInt8) :
    Except String Unit := do
  failIf (copyoutIndex ≠ execNoCopyout ∧ kMaxCommands ≤ copyoutIndex.toNat)
    "result overflows kMaxCommands"
  let copyouts ← copyoutsAt copyoutPos
  copyouts.forM checkCopyout

end KConfuzz.Executor
