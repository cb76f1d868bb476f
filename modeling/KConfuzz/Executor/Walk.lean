import KConfuzz.Exec.Decoding
import KConfuzz.Executor.Input

/-!
# The instructions of a program as the executor sees them (`executor/executor.cc`)

`walk` is the loop of `execute_one` with nothing but its reading left: which memory it fills
before a call, which call it makes with which arguments and properties, which config actions it
applies in between, and which memory `copyout_call_results` reads after the call, from the
position behind it. What it comes across is put together call by call, in the terms in which the
decoder of the manager describes a program, so that the two can be compared.

Checks of values that were read (`checkInstr`) are not part of the walk. An argument of a call
that `read_arg` has no case for cannot be read at all.
-/

namespace KConfuzz.Executor

open Lib.ExceptFold Lib.Parser

/-! ## Words -/

/-- The loop of `read_input` from the `i`-th byte on. -/
def readInputFrom (i : ℕ) (v : UInt64) : List UInt8 → Except String (UInt64 × List UInt8)
  | [] => .error (if i = 10 then "varint overflow" else "input command overflows input")
  | b :: pos =>
    if i = 10 then .error "varint overflow"
    else
      let v := v ||| (b &&& 0x7f).toUInt64 <<< UInt64.ofNat (7 * i)
      if b < 0x80 then if i = 9 ∧ 1 < b then .error "varint overflow" else .ok (v, pos)
      else readInputFrom (i + 1) v pos

/-- `read_input`: the word at the position and the position after it. -/
def readInputAt (pos : List UInt8) : Except String (UInt64 × List UInt8) := do
  let (v, pos) ← readInputFrom 0 0 pos
  return (if v &&& 1 ≠ 0 then ~~~(v >>> 1) else v >>> 1, pos)

/-! ## Arguments -/

def viewChunk (target : Target) (chunk : InstrChunk) : InstrChunk :=
  if chunk.kind = execArgCsumChunkData then
    { chunk with value := chunk.value + target.dataOffset }
  else chunk

/-- An argument as `execute_one`, `read_const_arg` and `read_result` take its words apart. The
format of a result is all of its first word above the size. -/
def viewArg (target : Target) : InstrArg → ExecArg
  | .const info val =>
    .const (info &&& 0xff) ((info >>> 8) &&& 0xff) val ((info >>> 16) &&& 0xff)
      ((info >>> 24) &&& 0xff) (info >>> 32)
  | .addr32 addr => .const 4 0 (addr + target.dataOffset) 0 0 0
  | .addr64 addr => .const 8 0 (addr + target.dataOffset) 0 0 0
  | .result info idx opDiv opAdd default =>
    .result (info &&& 0xff) (info >>> 8) idx opDiv opAdd default
  | .data readable blob => .data blob readable
  | .csum size kind chunks => .csum size kind (chunks.map (viewChunk target))

/-- `read_arg` knows the kind of the argument. -/
def isCallArg : InstrArg → Bool
  | .const .. | .addr32 _ | .addr64 _ | .result .. => true
  | .data .. | .csum .. => false

/-! ## The loop -/

/-- What the loop came across: the calls and config actions so far, and what was read for the next
call. -/
structure Walk where
  copyin : List ExecCopyin
  props : CallProps
  calls : List ExecCall
  actions : List ExecKConfuzzConfigAction
deriving DecidableEq, Repr

def Walk.init : Walk := { copyin := [], props := .zero, calls := [], actions := [] }

/-- One round of the loop; `pos` is the position after the instruction. -/
def walkInstr (target : Target) (w : Walk) (pos : List UInt8) : Instr → Except String Walk
  | .copyin i =>
    .ok { w with
          copyin := w.copyin ++ [{ addr := i.addr + target.dataOffset, arg := viewArg target i.arg }] }
  -- The copyout will happen when the call completes.
  | .copyout _ => .ok w
  | .setProps props => .ok { w with props }
  | .kconfuzzConfig i =>
    .ok { w with
          actions := w.actions ++ [{ beforeCall := wordLength w.calls, paramID := i.paramID
                                     valueID := i.valueID, flags := i.flags }] }
  | .call id copyoutIdx args => do
    failIf (target.syscalls.length ≤ id.toNat) "invalid syscall number"
    failIf (args.all isCallArg = false) "bad argument type"
    let copyouts ← copyoutsAt pos
    let call :=
      { callMeta := target.syscalls[id.toNat]?, props := w.props, index := copyoutIdx
        args := args.map (viewArg target), copyin := w.copyin
        copyout := copyouts.map fun i =>
          { index := i.idx, addr := i.addr + target.dataOffset, size := i.size } }
    return { copyin := [], props := .zero, calls := w.calls ++ [call], actions := w.actions }
  | .eof => .ok w

/-- Every instruction takes a byte at least, so the number of bytes bounds the number of rounds. -/
def walkLoop (target : Target) : ℕ → Walk → List UInt8 → Except String Walk
  | 0, _, _ => .error "input command overflows input"
  | n + 1, w, pos => do
    let ((instr, ()), pos) ← fetchInstr () pos
    if instr = .eof then return w
    let w ← walkInstr target w pos instr
    walkLoop target n w pos

def walk (target : Target) (buf : List UInt8) : Except String Walk := do
  let (_, pos) ← readInput () buf
  walkLoop target buf.length .init pos

end KConfuzz.Executor
