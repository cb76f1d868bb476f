import KConfuzz.Lib.Varint
import KConfuzz.Prog.Args

/-!
# The exec format (`prog/encodingexec.go`)

A program is sent to the executor as a header with its number of calls followed by a sequence of
instructions. There is no framing: an instruction is a sequence of varints that starts with the
word of its kind (any other first word is the number of a call), and binary data is inlined.
`Instr` are the instructions, `Instr.encode` the words that `execContext.write` appends for
them.
-/

namespace KConfuzz

open Lib.Varint List

/-! ## Words with a meaning -/

def execInstrEOF : UInt64 := 0xffffffffffffffff

def execInstrCopyin : UInt64 := 0xfffffffffffffffe

def execInstrCopyout : UInt64 := 0xfffffffffffffffd

def execInstrSetProps : UInt64 := 0xfffffffffffffffc

def execInstrKConfuzzConfig : UInt64 := 0xfffffffffffffffb

def execArgConst : UInt64 := 0

def execArgAddr32 : UInt64 := 1

def execArgAddr64 : UInt64 := 2

def execArgResult : UInt64 := 3

def execArgData : UInt64 := 4

def execArgCsum : UInt64 := 5

/-- Bit of the size of a data argument that marks it readable. -/
def execArgDataReadable : UInt64 := 0x8000000000000000

def execArgCsumInet : UInt64 := 0

def execArgCsumChunkData : UInt64 := 0

def execArgCsumChunkConst : UInt64 := 1

def execNoCopyout : UInt64 := 0xffffffffffffffff

/-- `ExecBufferSize`: bytes of a serialized program. -/
def execBufferSize : ℕ := 4194304

def execMaxCommands : ℕ := 1000

/-! ## Instructions -/

/-- A chunk of a checksum: its kind, its address or value, and its size. -/
structure InstrChunk where
  kind : UInt64
  value : UInt64
  size : UInt64
deriving DecidableEq, Repr

inductive InstrArg where
  | const (info val : UInt64)
  | addr32 (addr : UInt64)
  | addr64 (addr : UInt64)
  | result (info idx opDiv opAdd default : UInt64)
  | data (readable : Bool) (blob : List UInt8)
  | csum (size kind : UInt64) (chunks : List InstrChunk)
deriving DecidableEq, Repr

/-- Fill `arg` in at the address. -/
structure CopyinInstr where
  addr : UInt64
  arg : InstrArg
deriving DecidableEq, Repr

/-- Save the value at the address as the result of the given index. -/
structure CopyoutInstr where
  idx : UInt64
  addr : UInt64
  size : UInt64
deriving DecidableEq, Repr

/-- Write a runtime parameter. -/
structure ConfigInstr where
  paramID : UInt64
  valueID : UInt64
  flags : UInt64
deriving DecidableEq, Repr

inductive Instr where
  | copyin (i : CopyinInstr)
  | copyout (i : CopyoutInstr)
  | setProps (props : CallProps)
  | kconfuzzConfig (i : ConfigInstr)
  | call (id copyoutIdx : UInt64) (args : List InstrArg)
  | eof
deriving DecidableEq, Repr

/-- `execContext.write` -/
def write (v : UInt64) : List UInt8 := appendVarint v

/-- `len(x)` of a slice of the source, as a word. -/
def wordLength {α : Type} (l : List α) : UInt64 := UInt64.ofNat l.length

def InstrChunk.encode (chunk : InstrChunk) : List UInt8 :=
  write chunk.kind ++ (write chunk.value ++ write chunk.size)

def dataFlags (readable : Bool) (blob : List UInt8) : UInt64 :=
  if readable then wordLength blob ||| execArgDataReadable else wordLength blob

def InstrArg.encode : InstrArg → List UInt8
  | const info val => write execArgConst ++ (write info ++ write val)
  | addr32 addr => write execArgAddr32 ++ write addr
  | addr64 addr => write execArgAddr64 ++ write addr
  | result info idx opDiv opAdd default =>
    write execArgResult ++ (write info ++ (write idx ++ (write opDiv ++ (write opAdd ++
      write default))))
  | data readable blob => write execArgData ++ (write (dataFlags readable blob) ++ blob)
  | csum size kind chunks =>
    write execArgCsum ++ (write size ++ (write kind ++ (write (wordLength chunks) ++
      chunks.flatMap InstrChunk.encode)))

/-- The value of a boolean call property. -/
def boolWord (b : Bool) : UInt64 := if b then 1 else 0

def Instr.encode : Instr → List UInt8
  | copyin i => write execInstrCopyin ++ (write i.addr ++ i.arg.encode)
  | copyout i =>
    write execInstrCopyout ++ (write i.idx ++ (write i.addr ++ write i.size))
  | setProps props =>
    write execInstrSetProps ++ (write (UInt64.ofInt props.failNth) ++
      (write (boolWord props.async) ++ write (UInt64.ofInt props.rerun)))
  | kconfuzzConfig i =>
    write execInstrKConfuzzConfig ++ (write i.paramID ++ (write i.valueID ++ write i.flags))
  | call id copyoutIdx args =>
    write id ++ (write copyoutIdx ++ (write (wordLength args) ++ args.flatMap InstrArg.encode))
  | eof => write execInstrEOF

def encodeAll (instrs : List Instr) : List UInt8 := instrs.flatMap Instr.encode

lemma encodeAll_cons (instr : Instr) (instrs : List Instr) :
    encodeAll (instr :: instrs) = instr.encode ++ encodeAll instrs := rfl

lemma encodeAll_append (l l' : List Instr) :
    encodeAll (l ++ l') = encodeAll l ++ encodeAll l' := flatMap_append

/-! ## Sizes

Everything of variable length takes at least a byte per element, so the lengths in a buffer that
fits in `execBufferSize` are far from overflowing a word. -/

lemma write_append_length_pos (v : UInt64) (rest : List UInt8) : 0 < (write v ++ rest).length := by
  have := appendVarint_length_pos v
  rw [length_append, write]
  omega

lemma InstrArg.encode_length_pos (arg : InstrArg) : 0 < arg.encode.length := by
  cases arg <;> exact write_append_length_pos _ _

lemma InstrChunk.encode_length_pos (chunk : InstrChunk) : 0 < chunk.encode.length :=
  write_append_length_pos _ _

lemma Instr.encode_length_pos (instr : Instr) : 0 < instr.encode.length := by
  cases instr with
  | eof => exact appendVarint_length_pos execInstrEOF
  | _ => exact write_append_length_pos _ _

end KConfuzz
