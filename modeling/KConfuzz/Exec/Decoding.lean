import KConfuzz.Exec.Format
import KConfuzz.Lib.Parser

/-!
# Decoding of serialized programs (`prog/decodeexec.go`)

The decoder reads one instruction after another and collects the current call in `call`; the
call is committed when the first instruction of the next one (or the end) shows that it is
complete. The statistics about sizes are left out. An error ends the decoding at once: the source
keeps the first error and reads zeros from there on, which nobody sees.
-/

namespace KConfuzz

open Lib.Parser Lib.Varint

/-- An argument of a decoded program. `format` is the number of a `BinaryFormat`. -/
inductive ExecArg where
  | const (size format value bitfieldOffset bitfieldLength pidStride : UInt64)
  | result (size format index divOp addOp default : UInt64)
  | data (bytes : List UInt8) (readable : Bool)
  | csum (size kind : UInt64) (chunks : List InstrChunk)
deriving DecidableEq, Repr

/-- The arguments a call can have. -/
def ExecArg.isScalar : ExecArg → Bool
  | .const .. | .result .. => true
  | _ => false

structure ExecCopyin where
  addr : UInt64
  arg : ExecArg
deriving DecidableEq, Repr

structure ExecCopyout where
  index : UInt64
  addr : UInt64
  size : UInt64
deriving DecidableEq, Repr

structure ExecCall where
  callMeta : Option Syscall
  props : CallProps
  index : UInt64
  args : List ExecArg
  copyin : List ExecCopyin
  copyout : List ExecCopyout
deriving DecidableEq, Repr

/-- `ExecCall{}` -/
def ExecCall.zero : ExecCall :=
  { callMeta := none, props := .zero, index := 0, args := [], copyin := [], copyout := [] }

structure ExecKConfuzzConfigAction where
  beforeCall : UInt64
  paramID : UInt64
  valueID : UInt64
  flags : UInt64
deriving DecidableEq, Repr

structure ExecProg where
  calls : List ExecCall
  vars : List UInt64
  kconfuzzActions : List ExecKConfuzzConfigAction
deriving DecidableEq, Repr

/-- The fields of `execDecoder` other than the data that is left. -/
structure ExecDecoder where
  numVars : UInt64
  vars : List UInt64
  call : ExecCall
  calls : List ExecCall
  kconfuzzActions : List ExecKConfuzzConfigAction
deriving DecidableEq, Repr

namespace ExecDecoder

def init : ExecDecoder :=
  { numVars := 0, vars := [], call := .zero, calls := [], kconfuzzActions := [] }

abbrev Decoder := StateParser UInt8 String ExecDecoder

/-- The number of variables once a call is counted in. -/
def countVars (numVars : UInt64) (call : ExecCall) : UInt64 :=
  let numVars :=
    if call.index ≠ execNoCopyout ∧ numVars < call.index + 1 then call.index + 1 else numVars
  call.copyout.foldl (fun n copyout => max n (copyout.index + 1)) numVars

def commitCall (dec : ExecDecoder) : ExecDecoder :=
  if dec.call.callMeta = none then dec
  else
    { dec with
      numVars := countVars dec.numVars dec.call
      calls := dec.calls ++ [dec.call]
      call := .zero }

def read : Decoder UInt64 := token varint "exec program overflow"

def readBlob (size : UInt64) : Decoder (List UInt8) :=
  token
    (fun data =>
      if data.length < size.toNat then none
      else some (data.take size.toNat, data.drop size.toNat))
    "exec program overflow"

/-- The default of a result is the initial value of its variable. -/
def setVar (vars : List UInt64) : ExecArg → List UInt64
  | .result _ _ index _ _ default =>
    (vars ++ List.replicate (index.toNat + 1 - vars.length) 0).set index.toNat default
  | _ => vars

def recordVar (dec : ExecDecoder) (arg : ExecArg) : ExecDecoder :=
  { dec with vars := setVar dec.vars arg }

def readChunk (target : Target) : Decoder InstrChunk := do
  let kind ← read
  let addr ← read
  let size ← read
  let addr := if kind = execArgCsumChunkData then addr + target.dataOffset else addr
  return { kind, value := addr, size }

def readArg (target : Target) : Decoder ExecArg := do
  let typ ← read
  if typ = execArgConst then do
    let info ← read
    let value ← read
    return .const (info &&& 0xff) ((info >>> 8) &&& 0xff) value ((info >>> 16) &&& 0xff)
      ((info >>> 24) &&& 0xff) (info >>> 32)
  else if typ = execArgAddr32 then do
    let addr ← read
    return .const 4 0 (addr + target.dataOffset) 0 0 0
  else if typ = execArgAddr64 then do
    let addr ← read
    return .const 8 0 (addr + target.dataOffset) 0 0 0
  else if typ = execArgResult then do
    let info ← read
    let index ← read
    let divOp ← read
    let addOp ← read
    let default ← read
    let arg := .result (info &&& 0xff) ((info >>> 8) &&& 0xff) index divOp addOp default
    modify (recordVar · arg)
    return arg
  else if typ = execArgData then do
    let flags ← read
    let data ← readBlob (flags &&& ~~~execArgDataReadable)
    return .data data (flags &&& execArgDataReadable != 0)
  else if typ = execArgCsum then do
    let size ← read
    let kind ← read
    if kind = execArgCsumInet then do
      let nchunks ← read
      let chunks ← times (readChunk target) nchunks.toNat
      return .csum size kind chunks
    else throw "unknown csum kind"
  else throw "bad argument type"

def readCallArg (target : Target) : Decoder ExecArg := do
  let arg ← readArg target
  if arg.isScalar then return arg else throw "bad call arg"

/-- An integer property, from its word. -/
def propInt (v : UInt64) : ℤ := v.toInt64.toInt

/-- Reads an instruction and tells whether it was the last one. -/
def parseInstr (target : Target) (ncalls : UInt64) : Decoder Bool := do
  let instr ← read
  if instr = execInstrCopyin then do
    modify commitCall
    let addr ← read
    let arg ← readArg target
    modify fun dec =>
      { dec with
        call.copyin := dec.call.copyin ++ [{ addr := addr + target.dataOffset, arg }] }
    return false
  else if instr = execInstrCopyout then do
    let index ← read
    let addr ← read
    let size ← read
    modify fun dec =>
      { dec with
        call.copyout := dec.call.copyout ++ [{ index, addr := addr + target.dataOffset, size }] }
    return false
  else if instr = execInstrEOF then do
    modify commitCall
    let dec ← get
    if ncalls = wordLength dec.calls then return true else throw "bad number of calls"
  else if instr = execInstrSetProps then do
    modify commitCall
    let failNth ← read
    let async ← read
    let rerun ← read
    modify fun dec =>
      { dec with
        call.props :=
          { failNth := propInt failNth, async := dec.call.props.async || async == 1
            rerun := propInt rerun } }
    return false
  else if instr = execInstrKConfuzzConfig then do
    modify commitCall
    let paramID ← read
    let valueID ← read
    let flags ← read
    modify fun dec =>
      { dec with
        kconfuzzActions := dec.kconfuzzActions ++
          [{ beforeCall := wordLength dec.calls, paramID, valueID, flags }] }
    return false
  else do
    modify commitCall
    match target.syscalls[instr.toNat]? with
    | none => throw "bad syscall"
    | some callMeta =>
      let index ← read
      let nargs ← read
      let args ← times (readCallArg target) nargs.toNat
      modify fun dec =>
        { dec with
          call.callMeta := some callMeta
          call.index := index
          call.args := dec.call.args ++ args }
      return false

/-- The loop of `parse`. Every instruction takes a byte at least, so the number of bytes bounds
the number of rounds. -/
def parseLoop (target : Target) (ncalls : UInt64) : ℕ → Decoder Unit
  | 0 => throw "exec program overflow"
  | n + 1 => do
    let done ← parseInstr target ncalls
    if done then return () else parseLoop target ncalls n

def parse (target : Target) (bytes : ℕ) : Decoder Unit := do
  let ncalls ← read
  parseLoop target ncalls bytes

/-- The checks after the parse. -/
def finish (dec : ExecDecoder) : Except String ExecProg :=
  if wordLength dec.vars ≠ dec.numVars then .error "mismatching number of vars"
  else .ok { calls := dec.calls, vars := dec.vars, kconfuzzActions := dec.kconfuzzActions }

end ExecDecoder

def deserializeExec (target : Target) (exec : List UInt8) : Except String ExecProg :=
  match ExecDecoder.parse target exec.length .init exec with
  | .error err => .error err
  | .ok (((), dec), _) => dec.finish

end KConfuzz
