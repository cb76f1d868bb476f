import KConfuzz.Exec.Encoding
import KConfuzz.Executor.Memory
import KConfuzz.Linux.Neutralize

/-!
# What reaches the kernel

The values a call is executed with: the registers, as the executor reads them from the
serialized call, and the memory, as the copyins of the call store it. Bytes that no copyin of the
call stores are zero. `Requests` says which of these values ask the kernel for what the rules of
`neutralize` are there to prevent.
-/

namespace KConfuzz.Linux

open Executor Lib.ByteMemory Lib.LittleEndian

/-- The arguments of a system call and the memory that they may point to. -/
structure KernelView where
  args : List UInt64
  mem : Memory

namespace KernelView

variable (view : KernelView)

def arg (i : ℕ) : UInt64 := view.args.getD i 0

/-- The field `sched_policy` of the `struct sched_attr` that the second argument points to. -/
def policy : ℕ := ofLE (load view.mem (view.arg 1 + 4) 4)

end KernelView

/-- What the kernel sees of a call whose first `skip` copyins are left out. -/
def kernelViewFrom (env : ExecEnv) (target : Target) (w : ExecContext) (rt : Runtime) (skip : ℕ)
    (c : Call) : Option KernelView := do
  let (e, _) ← (serializeCall env target w c).toOption
  let mem ← (execCopyins rt (fun _ => 0) (e.copyin.drop skip)).toOption
  let args ← (e.args.mapM (readArg rt)).toOption
  return { args, mem := fun x => mem (x - rt.dataOffset) }

/-- What the kernel sees of a call. -/
def kernelView (env : ExecEnv) (target : Target) (w : ExecContext) (rt : Runtime) (c : Call) :
    Option KernelView := kernelViewFrom env target w rt 0 c

/-! ## Requests to prevent -/

/-- The file type in a mode. -/
def sIfmt : UInt64 := 0xf000

/-- The major number in an encoded device number. -/
def major (dev : UInt32) : UInt32 := (dev &&& (0xfff00 : UInt32)) >>> 8

/-- The minor number in an encoded device number. -/
def minor (dev : UInt32) : UInt32 := dev &&& (0xff : UInt32) ||| dev >>> 12 &&& (0xfff00 : UInt32)

/-- A device node other than a loop device and `/dev/null`, or the exit status of the executor. -/
def UnixRule.Requests (view : KernelView) : UnixRule → Prop
  | .mmap => False
  | .mknod pos =>
    let kind := view.arg pos &&& sIfmt
    let dev := (view.arg (pos + 1)).toUInt32
    kind = amd64.unix.sIfblk ∧ major dev ≠ 7 ∨
      kind = amd64.unix.sIfchr ∧ ¬ (major dev = 1 ∧ minor dev = 3)
  | .exit => view.arg 0 % 128 = 67

/-- The kernel reads the low half of a command, and `SCHED_FIFO` is 1 and `SCHED_RR` is 2. -/
def LinuxRule.Requests (view : KernelView) : LinuxRule → Prop
  | .syslog =>
    truncated (view.arg 0) ∈ [amd64.syslogActionConsoleOff, amd64.syslogActionConsoleOn,
      amd64.syslogActionConsoleLevel, amd64.syslogActionClear]
  | .ioctl =>
    truncated (view.arg 1) ∈ [amd64.fifreeze, amd64.snapshotFreeze, amd64.snapshotPowerOff,
      amd64.tiocsserial]
  | .ptrace => truncated (view.arg 0) = amd64.ptraceTraceme
  | .archPrctl => truncated (view.arg 0) = amd64.archSetFs
  | .fanotifyMark =>
    view.arg 2 &&& (amd64.fanOpenPerm ||| amd64.fanAccessPerm ||| amd64.fanOpenExecPerm) ≠ 0
  | .schedSetattr => view.policy ∈ [1, 2]
  | .mremap | .initModule | .syzInitNetSocket | .syzOpenDev => False

/-- A call with the given name asks for something it must not have. -/
def Requests (view : KernelView) (callName : String) : Prop :=
  (∃ rule, UnixRule.ofCallName callName = some rule ∧ rule.Requests view) ∨
    ∃ rule, LinuxRule.ofCallName callName = some rule ∧ rule.Requests view

/-! ## Calls of linux/amd64 -/

/-- An integer whose value reaches the kernel as it is: native, not a bitfield or padding, and
neither a checksum nor different for each process. -/
def isPlain (typ : ScalarType) : Bool :=
  (match typ with
    | .proc _ | .csum _ => false
    | typ => !typ.isPad) &&
  typ.common.argFormat == .formatNative && typ.common.bitfieldOff == 0 &&
  typ.common.bitfieldLen == 0 && typ.common.bitfieldUnitOff == 0 &&
  [1, 2, 4, 8].contains typ.common.typeSize

/-- The arguments that the kernel reads as what the rule is about. -/
def UnixRule.positions : UnixRule → List ℕ
  | .mmap => []
  | .mknod pos => [pos, pos + 1]
  | .exit => [0]

def LinuxRule.positions : LinuxRule → List ℕ
  | .syslog | .ptrace | .archPrctl => [0]
  | .ioctl => [1]
  | .fanotifyMark => [2]
  | .mremap | .initModule | .syzInitNetSocket | .syzOpenDev | .schedSetattr => []

/-- The sizes of the fields of `sched_attr`. -/
def schedAttrSizes : List UInt64 := [4, 4, 8, 4, 4, 8, 8, 8, 4, 4]

/-- What a pointer to a `sched_attr` points to: the struct, or what squashing it leaves, an array
of unions with no constant anywhere below it and with resources of at most 23 bytes. -/
inductive SchedAttr : Arg → Prop where
  | struct {id : ArgId} {dir : Dir} {t : StructType} {inner : List Arg}
      (overlay : t.overlayField = 0) (sizes : inner.map Arg.size = schedAttrSizes)
      (plain : ∀ field ∈ inner, ∃ id dir typ val, field = .const id dir typ val ∧ isPlain typ) :
      SchedAttr (.group id dir (.struct t) inner)
  | squashed {id : ArgId} {dir : Dir} {t : ArrayType} {inner : List Arg}
      (unions : ∀ elem ∈ inner, ∃ id dir typ option index, elem = .union id dir typ option index)
      (any : ∀ node ∈ Arg.subtrees inner, ∀ id dir typ val, node ≠ .const id dir typ val)
      (resources : ∀ r, .result r ∈ Arg.subtrees inner → r.typ.typeSize ≤ 23)
      (blobs : ∀ id dir typ data size, .data id dir typ data size ∈ Arg.subtrees inner →
        data.length < 2 ^ 64) :
      SchedAttr (.group id dir (.array t) inner)

/-- The arguments of `sched_setattr`. -/
inductive SchedSetattrArgs : List Arg → Prop where
  | mk {pid : ResultArg} {id : ArgId} {dir : Dir} {t : TypeCommon} {address : UInt64}
      {res : Option Arg} {flagsId : ArgId} {flagsDir : Dir} {flagsTyp : ScalarType} {flags : UInt64}
      (attr : ∀ pointee, res = some pointee → SchedAttr pointee) (plain : isPlain flagsTyp) :
      SchedSetattrArgs
        [.result pid, .pointer id dir (.ptr t) address 0 res, .const flagsId flagsDir flagsTyp flags]

/-- The device of a `mknod` is a proc value or a resource. -/
def MknodExcluded (c : Call) : Prop :=
  ∃ pos dev, UnixRule.ofCallName c.callMeta.callName = some (.mknod pos) ∧
    c.args[pos + 1]? = some dev ∧ isProcOrResource dev = true

/-- What the descriptions of linux/amd64 say about the calls that the rules are about: the
arguments the kernel reads as commands are plain integers, and the attributes of
`sched_setattr`, which some program can execute, are a `sched_attr`. -/
structure LinuxCall (target : Target) (c : Call) : Prop where
  kfuzzTest : c.callMeta.kfuzzTest = true → UnixRule.ofCallName c.callMeta.callName = none ∧
    LinuxRule.ofCallName c.callMeta.callName = none
  unix : ¬ MknodExcluded c → ∀ rule, UnixRule.ofCallName c.callMeta.callName = some rule →
    ∀ i ∈ rule.positions, ∀ id dir typ val, c.args[i]? = some (.const id dir typ val) → isPlain typ
  linux : ∀ rule, LinuxRule.ofCallName c.callMeta.callName = some rule → ∀ i ∈ rule.positions,
    ∀ id dir typ val, c.args[i]? = some (.const id dir typ val) → isPlain typ
  schedSetattr : LinuxRule.ofCallName c.callMeta.callName = some .schedSetattr →
    SchedSetattrArgs c.args ∧ ∃ env w rt view, kernelView env target w rt c = some view

/-! ## Attributes whose policy the rule sees -/

/-- The elements begin with a blob that is copied in. -/
def startsWithBlob : List Arg → Bool
  | .union _ _ _ (.data _ dir _ data _) _ :: _ => dir != .dirOut && !data.isEmpty
  | _ => false

/-- The policy that `sched_setattr` passes to the kernel is one that the rule looks at, or it is
none to prevent. In a struct the rule looks at the constant as a whole while the kernel gets its
low half; in a squashed struct it looks at nothing but a leading blob. -/
def PolicySeen (target : Target) (c : Call) : Prop :=
  match c.args[1]? with
  | some (Arg.pointer _ _ _ _ _ (some (.group _ _ (.struct _) (_ :: .const _ dir _ val :: _)))) =>
    dir = .dirOut ∨ truncated val ∉ [1, 2] ∨ val ∈ [1, 2]
  | some (Arg.pointer _ _ _ _ _ (some (.group _ _ (.array _) inner))) =>
    ∀ env w rt view,
      kernelViewFrom env target w rt (if startsWithBlob inner then 1 else 0) c = some view →
        view.policy ∉ [1, 2]
  | _ => True

end KConfuzz.Linux
