import KConfuzz.Exec.Format
import KConfuzz.Prog.Checksum
import KConfuzz.Prog.Context

/-!
# Serializing for execution (`prog/encodingexec.go`)

The writers of `execContext` append to a buffer that nothing reads back, so here each returns
the instructions it appends and passes on the rest of the context: what is known about the
arguments written so far and the number of copyout indices given out. A panic of the source is
an error, too.

The loop over the map of checksum fields visits it in any order, and the order of fields of one
address is left as it comes out; `ExecEnv.visit` is that order. `MarshallKFuzztestArg`, which
flattens the input of a KFuzzTest call into one blob, is a parameter.
-/

namespace KConfuzz

open Lib.ExceptFold Lib.StableSort

inductive ExecError where
  | badCallIndex (index : ℤ) (calls : ℕ)
  | tooLarge (size : ℕ)
  | tooManyResources (resources : ℕ)
  | panic (msg : String)
deriving DecidableEq, Repr

structure ExecEnv where
  visit : List (Arg × CsumInfo) → List (Arg × CsumInfo)
  visit_perm : ∀ l, (visit l).Perm l
  marshallKFuzztestArg : Option Arg → List UInt8

/-- What is known about a written argument: its address, the index of its copyout instruction
and whether it is a return value. -/
structure ArgInfo where
  addr : UInt64
  idx : ℕ
  ret : Bool
deriving DecidableEq, Repr

/-- `argInfo{}` -/
def ArgInfo.zero : ArgInfo := { addr := 0, idx := 0, ret := false }

structure ExecContext where
  args : ArgId → Option ArgInfo
  copyoutSeq : ℕ

def ExecContext.init : ExecContext := { args := fun _ => none, copyoutSeq := 0 }

variable (env : ExecEnv) (target : Target) (sums : Checksums) (w : ExecContext)

/-- `w.args[arg] = info` -/
def ExecContext.setArg (id : ArgId) (info : ArgInfo) : ExecContext :=
  { w with args := Function.update w.args id (some info) }

/-- `w.args[arg]`, where a missing entry reads as zero. -/
def ExecContext.argInfo (id : ArgId) : ArgInfo := (w.args id).getD .zero

/-! ## Arguments -/

/-- `procDefaultValue` -/
def procDefaultValue : UInt64 := 0xffffffffffffffff

/-- `ConstArg.Value`: the value and the pid stride. -/
def ScalarType.value : ScalarType → UInt64 → UInt64 × UInt64
  | int _, val | const _, val | flags _, val | len _, val => (val, 0)
  -- Checksums are computed dynamically in executor.
  | csum _, _ => (0, 0)
  | proc t, val =>
    if val = procDefaultValue then (0, 0) else (t.valuesStart + val, t.valuesPerProc)

def isReadableDataType (typ : BufferType) : Bool :=
  typ.kind = .bufferString || typ.kind = .bufferFilename || typ.kind = .bufferGlob

def writeConstArg (size val bfOffset bfLength pidStride : UInt64) (bf : BinaryFormat) : InstrArg :=
  .const (size ||| bf.toUInt64 <<< 8 ||| bfOffset <<< 16 ||| bfLength <<< 24 |||
    pidStride <<< 32) val

def writeArg (target : Target) (w : ExecContext) : Arg → Except ExecError InstrArg
  | .const _ _ typ val =>
    let t := typ.common
    let (val, pidStride) := typ.value val
    .ok (writeConstArg t.unitSize val t.bitfieldOff t.bitfieldLen pidStride t.argFormat)
  | .result a =>
    match a.res with
    | none => .ok (writeConstArg a.typ.typeSize a.val 0 0 0 a.typ.argFormat)
    | some res =>
      match w.args res with
      | none => .error (.panic "no copyout index")
      | some info =>
        .ok (.result (a.typ.typeSize ||| a.typ.argFormat.toUInt64 <<< 8) (UInt64.ofNat info.idx)
          a.opDiv a.opAdd a.typ.default)
  | .pointer _ _ typ address vmaSize res =>
    match physicalAddr target address vmaSize res.isSome with
    | .error msg => .error (.panic msg)
    | .ok addr =>
      if typ.common.typeSize = 4 then .ok (.addr32 (addr - target.dataOffset))
      else if typ.common.typeSize = 8 then .ok (.addr64 (addr - target.dataOffset))
      else .error (.panic "bad pointer address size")
  | .data _ dir typ data _ =>
    if dir = .dirOut then .error (.panic "getting data of output data arg")
    else if data.isEmpty then .error (.panic "writing data arg with 0 size")
    else .ok (.data (isReadableDataType typ) data)
  | .union _ _ _ option _ => writeArg target w option
  | .group .. => .error (.panic "unknown arg type")

/-! ## Copyin -/

/-- The address of an argument of the heap object at `base`; the pointer to an object is not a
special one. -/
def copyinAddr (arg : Arg) (base offset : UInt64) : UInt64 :=
  target.dataOffset + base - target.dataOffset + offset - arg.unitOffset

/-- A result that some argument uses. -/
def ResultArg.isUsed (r : ResultArg) : Bool := !r.uses.isEmpty

/-- `willBeUsed` -/
def willBeUsed (arg : Arg) : Bool :=
  arg.result?.any (·.isUsed) || sums.csumMap.any (·.1.id == arg.id) ||
    sums.csumUses.contains arg.id

/-- No copyin is written for groups and unions, whose parts are visited on their own, for output
arguments, padding, and arguments without a size. -/
def skipsCopyin : Arg → Bool
  | .group .. | .union .. => true
  | arg => arg.dir == .dirOut || arg.isPad || (arg.size == 0 && !arg.isBitfield)

/-- The visit of one argument in `writeCopyin`. -/
def copyinArg (visit : Arg × ArgCtx) : Except ExecError (List CopyinInstr × ExecContext) :=
  let (arg, ctx) := visit
  match ctx.base with
  | none => .ok ([], w)
  | some base =>
    let addr := copyinAddr target arg base ctx.offset
    let w := if willBeUsed sums arg then w.setArg arg.id { addr, idx := 0, ret := false } else w
    if skipsCopyin arg then .ok ([], w)
    else do
      let written ← writeArg target w arg
      .ok ([{ addr, arg := written }], w)

def writeCopyin (c : Call) : Except ExecError (List CopyinInstr × ExecContext) :=
  emitAll (copyinArg target sums) w (foreachArg c)

/-! ## Checksums -/

/-- A chunk of a checksum, with `addr` for the addresses of arguments. -/
def csumChunk (addr : ArgId → UInt64) : CsumChunk → InstrChunk
  | .arg a => { kind := execArgCsumChunkData, value := addr a.id, size := a.size }
  | .const value size => { kind := execArgCsumChunkConst, value, size }

def csumInstr (addr : ArgId → UInt64) (field : Arg × CsumInfo) : CopyinInstr :=
  { addr := addr field.1.id
    arg := .csum field.1.size execArgCsumInet (field.2.chunks.map (csumChunk addr)) }

/-- The fields are written from the last address to the first, since checksum values can depend
on values of the latter ones. -/
def writeChecksums (addr : ArgId → UInt64) : List CopyinInstr :=
  let csumArgs := sliceStable (fun a b => addr a.1.id < addr b.1.id) (env.visit sums.csumMap)
  csumArgs.reverse.map (csumInstr addr)

/-! ## Copyout -/

/-- The visit of one argument in `writeCopyout`. -/
def copyoutArg (visit : Arg × ArgCtx) : Except ExecError (List CopyoutInstr × ExecContext) :=
  match visit.1 with
  | .result r =>
    let info := w.argInfo r.id
    -- The index of a return value is already assigned.
    if !r.isUsed || info.ret then .ok ([], w)
    else
      let w' := w.setArg r.id { info with idx := w.copyoutSeq }
      .ok ([{ idx := UInt64.ofNat w.copyoutSeq, addr := info.addr, size := r.typ.typeSize }],
        { w' with copyoutSeq := w.copyoutSeq + 1 })
  | _ => .ok ([], w)

def writeCopyout (c : Call) : Except ExecError (List CopyoutInstr × ExecContext) :=
  emitAll copyoutArg w (foreachArg c)

/-! ## Calls -/

/-- What is written for a call, in the order of the fields. -/
structure EncodedCall where
  copyin : List CopyinInstr
  props : Option CallProps
  id : UInt64
  copyoutIdx : UInt64
  args : List InstrArg
  copyout : List CopyoutInstr
deriving DecidableEq, Repr

def EncodedCall.instrs (e : EncodedCall) : List Instr :=
  e.copyin.map .copyin ++ e.props.toList.map .setProps ++
    .call e.id e.copyoutIdx e.args :: e.copyout.map .copyout

/-- The first call with the attribute, as `lazyInit` looks it up. -/
def kFuzzTestRunID : Option ℕ :=
  (target.syscalls.find? (·.kfuzzTest)).map (·.id)

def kFuzzTestMaxInputSize : ℕ := 65536

/-- The copyin of the flattened input of a KFuzzTest call, and its arguments with the length
updated to the one of the blob. When the blob is too large, or there is no buffer for it, nothing
is written and the arguments stay. -/
def kFuzzTestBlob (args : List Arg) : Except ExecError (List CopyinInstr × List Arg) :=
  match args with
  | name :: data@(.pointer _ _ _ _ _ input) :: len :: buffer :: rest =>
    let finalBlob := env.marshallKFuzztestArg input
    if finalBlob.length > kFuzzTestMaxInputSize then .ok ([], args)
    else
      match buffer with
      | .pointer _ _ _ _ _ none => .ok ([], args)
      | .pointer _ _ _ address vmaSize (some _) =>
        match physicalAddr target address vmaSize true, len with
        | .ok addr, .const id dir typ _ =>
          let len' := .const id dir typ (wordLength finalBlob)
          .ok ([{ addr := addr - target.dataOffset, arg := .data false finalBlob }],
            name :: data :: len' :: buffer :: rest)
        | .ok _, _ => .error (.panic "interface conversion")
        | .error msg, _ => .error (.panic msg)
      | _ => .error (.panic "interface conversion")
  | _ => .error (.panic "interface conversion")

def serializeKFuzzTestCall (c : Call) : Except ExecError (EncodedCall × ExecContext) := do
  match kFuzzTestRunID target with
  | none => throw (.panic "syz_kfuzztest_run syscall is missing")
  | some runID =>
    -- Write the initial string argument (test name) normally.
    let (copyin, w) ← writeCopyin target sums w { c with args := c.args.take 1, ret := none }
    let (blob, args) ← kFuzzTestBlob env target c.args
    let args ← args.mapM (writeArg target w)
    return ({ copyin := copyin ++ blob, props := none, id := UInt64.ofNat runID
              copyoutIdx := execNoCopyout, args, copyout := [] }, w)

/-- The copyout index of the return value of a call. -/
def writeRet (c : Call) : Except ExecError (UInt64 × ExecContext) :=
  match c.ret with
  | some ret =>
    if ret.isUsed then
      match w.args ret.id with
      | some _ => .error (.panic "argInfo is already created for return value")
      | none =>
        let w' := w.setArg ret.id { addr := 0, idx := w.copyoutSeq, ret := true }
        .ok (UInt64.ofNat w.copyoutSeq, { w' with copyoutSeq := w.copyoutSeq + 1 })
    else .ok (execNoCopyout, w)
  | none => .ok (execNoCopyout, w)

/-- `calcChecksumsCall`, whose result is cached in the context, followed by `serializeCall`. -/
def serializeCall (c : Call) :
    Except ExecError (EncodedCall × ExecContext) := do
  let sums ← (calcChecksumsCall c).mapError .panic
  if c.callMeta.kfuzzTest then serializeKFuzzTestCall env target sums w c
  else do
    let (copyin, w) ← writeCopyin target sums w c
    let csums := writeChecksums env sums fun id => (w.argInfo id).addr
    let props := if c.props = .zero then none else some c.props
    let (copyoutIdx, w) ← writeRet w c
    let args ← c.args.mapM (writeArg target w)
    let (copyout, w) ← writeCopyout w c
    return ({ copyin := copyin ++ csums, props, id := UInt64.ofNat c.callMeta.id, copyoutIdx
              args, copyout }, w)

/-! ## Programs -/

/-- Actions of one call are written by parameter and value. -/
def callActionLess (a b : KConfuzzConfigAction) : Bool :=
  if a.paramID ≠ b.paramID then a.paramID < b.paramID else a.valueID < b.valueID

/-- `actionsByCall[i]` -/
def actionsByCall (actions : List KConfuzzConfigAction) (i : ℕ) : List KConfuzzConfigAction :=
  sliceStable callActionLess (actions.filter (·.beforeCall = i))

def writeKConfuzzConfigActions (actions : List KConfuzzConfigAction) : List Instr :=
  actions.map fun a =>
    .kconfuzzConfig { paramID := a.paramID, valueID := a.valueID, flags := a.flags }

/-- The loop over the calls, from the `i`-th on. -/
def serializeCalls (env : ExecEnv) (target : Target) (actions : List KConfuzzConfigAction) :
    ℕ → ExecContext → List Call → Except ExecError (List Instr × ExecContext)
  | i, w, [] => .ok (writeKConfuzzConfigActions (actionsByCall actions i), w)
  | i, w, c :: calls => do
    let (e, w) ← serializeCall env target w c
    let (rest, w) ← serializeCalls env target actions (i + 1) w calls
    .ok (writeKConfuzzConfigActions (actionsByCall actions i) ++ e.instrs ++ rest, w)

def Prog.serializeForExecWithKConfuzz (p : Prog) (actions : List KConfuzzConfigAction) :
    Except ExecError (List UInt8) :=
  match actions.find? fun a => a.beforeCall < 0 ∨ (p.calls.length : ℤ) < a.beforeCall with
  | some action => .error (.badCallIndex action.beforeCall p.calls.length)
  | none => do
    let (instrs, w) ← serializeCalls env p.target actions 0 .init p.calls
    let buf := write (wordLength p.calls) ++ encodeAll (instrs ++ [.eof])
    if buf.length > execBufferSize then throw (.tooLarge buf.length)
    if w.copyoutSeq > execMaxCommands then throw (.tooManyResources w.copyoutSeq)
    return buf

def Prog.serializeForExec (p : Prog) : Except ExecError (List UInt8) :=
  p.serializeForExecWithKConfuzz env []

end KConfuzz
