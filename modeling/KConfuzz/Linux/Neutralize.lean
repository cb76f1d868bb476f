import KConfuzz.Prog.Args

/-!
# Neutralizing calls (`sys/linux/init.go`, `sys/targets/common.go`)

Before a program is executed, each of its calls is changed so that it does no harm to the
machine that runs it. The rules look at the arguments of the call and write to them in place;
here a rule returns the changed call. A failed type assertion and an index out of range are
errors with the text of the panic. The parameter `fixStructure` of the source is read by no rule.
-/

namespace KConfuzz.Linux

/-! ## Constants of the target -/

structure UnixNeutralizer where
  mapFixed : UInt64
  sIfreg : UInt64
  sIfchr : UInt64
  sIfblk : UInt64
  sIfifo : UInt64
  sIfsock : UInt64

structure Arch where
  unix : UnixNeutralizer
  mremapMaymove : UInt64
  mremapFixed : UInt64
  syslogActionConsoleOff : UInt64
  syslogActionConsoleOn : UInt64
  syslogActionConsoleLevel : UInt64
  syslogActionClear : UInt64
  syslogActionSizeUnread : UInt64
  fifreeze : UInt64
  fithaw : UInt64
  snapshotFreeze : UInt64
  snapshotPowerOff : UInt64
  fanOpenPerm : UInt64
  fanAccessPerm : UInt64
  fanOpenExecPerm : UInt64
  ptraceTraceme : UInt64
  archSetFs : UInt64
  archSetGs : UInt64
  afNfc : UInt64
  afLlc : UInt64
  afBluetooth : UInt64
  afX25 : UInt64
  afAx25 : UInt64
  afNetrom : UInt64
  afRose : UInt64
  afIeee802154 : UInt64
  afNetlink : UInt64
  sockRaw : UInt64
  netlinkGeneric : UInt64
  tiocsserial : UInt64
  tiocgserial : UInt64

/-- The constants of linux/amd64. -/
def amd64 : Arch where
  unix :=
    { mapFixed := 0x10, sIfreg := 0x8000, sIfchr := 0x2000, sIfblk := 0x6000, sIfifo := 0x1000
      sIfsock := 0xc000 }
  mremapMaymove := 1
  mremapFixed := 2
  syslogActionConsoleOff := 6
  syslogActionConsoleOn := 7
  syslogActionConsoleLevel := 8
  syslogActionClear := 5
  syslogActionSizeUnread := 9
  fifreeze := 0xc0045877
  fithaw := 0xc0045878
  snapshotFreeze := 0x3301
  snapshotPowerOff := 0x3310
  fanOpenPerm := 0x10000
  fanAccessPerm := 0x20000
  fanOpenExecPerm := 0x40000
  ptraceTraceme := 0
  archSetFs := 0x1002
  archSetGs := 0x1001
  afNfc := 39
  afLlc := 26
  afBluetooth := 31
  afX25 := 9
  afAx25 := 3
  afNetrom := 6
  afRose := 11
  afIeee802154 := 36
  afNetlink := 16
  sockRaw := 3
  netlinkGeneric := 16
  tiocsserial := 0x541f
  tiocgserial := 0x541e

/-- `uint64(uint32(v))` -/
def truncated (v : UInt64) : UInt64 := v.toUInt32.toUInt64

/-! ## Changing an argument -/

/-- Changes `c.Args[i]`. -/
def updateArg (c : Call) (i : ℕ) (f : Arg → Except String Arg) : Except String Call :=
  match c.args[i]? with
  | some arg => do
    let arg ← f arg
    return { c with args := c.args.set i arg }
  | none => .error "index out of range"

/-- Changes the value of `c.Args[i].(*prog.ConstArg)`. -/
def updateConst (c : Call) (i : ℕ) (f : UInt64 → UInt64) : Except String Call :=
  updateArg c i fun
    | .const id dir typ val => .ok (.const id dir typ (f val))
    | _ => .error "interface conversion"

/-! ## Rules of all Unix systems -/

/-- The cases of `UnixNeutralizer.Neutralize`; `pos` is the position of the mode. -/
inductive UnixRule where
  | mmap
  | mknod (pos : ℕ)
  | exit
deriving DecidableEq, Repr

def UnixRule.ofCallName : String → Option UnixRule
  | "mmap" => some .mmap
  | "mknod" => some (.mknod 1)
  | "mknodat" => some (.mknod 2)
  | "compat_50_mknod" => some (.mknod 1)
  | "exit" => some .exit
  | "exit_group" => some .exit
  | _ => none

/-- The argument is of a `ProcType` or of a `ResourceType`. -/
def isProcOrResource : Arg → Bool
  | .const _ _ (.proc _) _ => true
  | .result _ => true
  | _ => false

/-- Char and block devices read/write io ports, kernel memory and do other nasty things. -/
def UnixNeutralizer.mknodMode (unix : UnixNeutralizer) (mode dev : UInt64) : UInt64 :=
  let mask := unix.sIfreg ||| unix.sIfchr ||| unix.sIfblk ||| unix.sIfifo ||| unix.sIfsock
  let kind := mode &&& mask
  if kind = unix.sIfreg ∨ kind = unix.sIfifo ∨ kind = unix.sIfsock then mode
  else if kind = unix.sIfblk then
    -- loop
    if dev >>> 8 = 7 then mode else mode &&& ~~~unix.sIfblk ||| unix.sIfreg
  else if kind = unix.sIfchr then
    -- /dev/null
    if dev = 0x103 then mode else mode &&& ~~~unix.sIfchr ||| unix.sIfreg
  else mode

def UnixNeutralizer.neutralizeMknod (unix : UnixNeutralizer) (pos : ℕ) (c : Call) :
    Except String Call :=
  match c.args[pos]?, c.args[pos + 1]? with
  | some mode, some dev =>
    if isProcOrResource dev then .ok c
    else
      match mode, dev with
      | .const _ _ _ _, .const _ _ _ dev => do
        let c ← updateConst c (pos + 1) truncated
        updateConst c pos fun mode => unix.mknodMode mode (truncated dev)
      | _, _ => .error "interface conversion"
  | _, _ => .error "index out of range"

/-- This code is reserved by executor. -/
def exitCode (code : UInt64) : UInt64 := if code % 128 = 67 then 1 else code

def UnixNeutralizer.neutralize (unix : UnixNeutralizer) (c : Call) : Except String Call :=
  match UnixRule.ofCallName c.callMeta.callName with
  | some .mmap =>
    -- Mali bifrost mmap doesn't support MAP_FIXED.
    if c.callMeta.name = "mmap$bifrost" then .ok c else updateConst c 3 (· ||| unix.mapFixed)
  | some (.mknod pos) => unix.neutralizeMknod pos c
  | some .exit => updateConst c 0 exitCode
  | none => .ok c

/-! ## Scheduling attributes -/

/-- The first 16 bytes are cleared. -/
def clearHead (data : List UInt8) : List UInt8 :=
  List.replicate (min 16 data.length) 0 ++ data.drop 16

/-- `SCHED_FIFO` and `SCHED_RR` become 0. -/
def clearPolicy (policy : UInt64) : UInt64 := if policy = 1 ∨ policy = 2 then 0 else policy

def clearPolicyField : List Arg → List Arg
  | first :: .const id dir typ val :: rest => first :: .const id dir typ (clearPolicy val) :: rest
  | inner => inner

/-- The elements of the pointee. A squashed struct is an array of unions that begins with a
blob. -/
def neutralizeAttrFields : List Arg → List Arg
  | .union id dir typ (.data dataId dataDir dataTyp data size) index :: rest =>
    if dataDir = .dirOut then
      .union id dir typ (.data dataId dataDir dataTyp data size) index :: rest
    else clearPolicyField
      (.union id dir typ (.data dataId dataDir dataTyp (clearHead data) size) index :: rest)
  | .union id dir typ option index :: rest => .union id dir typ option index :: rest
  | inner => clearPolicyField inner

def neutralizeSchedAttr : Arg → Arg
  -- If it's just a pointer to somewhere, still set it to NULL.
  | .pointer id dir typ _ vmaSize none => .pointer id dir typ 0 vmaSize none
  | .pointer id dir typ address vmaSize (some (.group gid gdir gtyp inner)) =>
    .pointer id dir typ address vmaSize (some (.group gid gdir gtyp (neutralizeAttrFields inner)))
  | .const id dir typ _ => .const id dir typ 0
  | arg => arg

/-! ## Rules of linux -/

/-- The cases of `arch.neutralize`. -/
inductive LinuxRule where
  | mremap
  | syslog
  | ioctl
  | fanotifyMark
  | ptrace
  | archPrctl
  | initModule
  | syzInitNetSocket
  | syzOpenDev
  | schedSetattr
deriving DecidableEq, Repr

def LinuxRule.ofCallName : String → Option LinuxRule
  | "mremap" => some .mremap
  | "syslog" => some .syslog
  | "ioctl" => some .ioctl
  | "fanotify_mark" => some .fanotifyMark
  | "ptrace" => some .ptrace
  | "arch_prctl" => some .archPrctl
  | "init_module" => some .initModule
  | "syz_init_net_socket" => some .syzInitNetSocket
  | "syz_open_dev" => some .syzOpenDev
  | "sched_setattr" => some .schedSetattr
  | _ => none

/-- The size of a module is bounded. -/
def moduleSize (sz : UInt64) : UInt64 := sz % ((1 : UInt64) <<< 20)

namespace Arch

variable (arch : Arch)

/-- Add `MREMAP_FIXED` flag, otherwise it produces non-deterministic results. -/
def mremapFlags (flags : UInt64) : UInt64 :=
  if flags &&& arch.mremapMaymove ≠ 0 then flags ||| arch.mremapFixed else flags

/-- These disable console output, but we need it. -/
def syslogCmd (cmd : UInt64) : UInt64 :=
  let cmd := truncated cmd
  if cmd = arch.syslogActionConsoleOff ∨ cmd = arch.syslogActionConsoleOn ∨
      cmd = arch.syslogActionConsoleLevel ∨ cmd = arch.syslogActionClear
    then arch.syslogActionSizeUnread else cmd

/-- `neutralizeIoctl` -/
def ioctlCmd (cmd : UInt64) : UInt64 :=
  if truncated cmd = arch.fifreeze then arch.fithaw
  else if truncated cmd = arch.snapshotFreeze then arch.fithaw
  else if truncated cmd = arch.snapshotPowerOff then arch.fithaw
  else if truncated cmd = arch.tiocsserial then arch.tiocgserial
  else cmd

/-- `FAN_*_PERM` require the program to reply to open requests. -/
def fanotifyMask (mask : UInt64) : UInt64 :=
  mask &&& ~~~(arch.fanOpenPerm ||| arch.fanAccessPerm ||| arch.fanOpenExecPerm)

/-- `PTRACE_TRACEME` leads to unkillable processes. -/
def ptraceReq (req : UInt64) : UInt64 := if truncated req = arch.ptraceTraceme then ~~~0 else req

/-- fs holds address of tls. -/
def archPrctlCmd (cmd : UInt64) : UInt64 :=
  if truncated cmd = arch.archSetFs then arch.archSetGs else cmd

/-- Don't let it mess with arbitrary sockets in init namespace. -/
def neutralizeNetSocket (c : Call) : Except String Call :=
  match c.args[0]? with
  | some (Arg.const _ _ _ family) =>
    if truncated family ∈ [arch.afNfc, arch.afLlc, arch.afBluetooth, arch.afIeee802154, arch.afX25,
        arch.afAx25, arch.afNetrom, arch.afRose] then .ok c
    else if truncated family = arch.afNetlink then do
      let c ← updateConst c 1 fun _ => arch.sockRaw
      updateConst c 2 fun _ => arch.netlinkGeneric
    else updateConst c 0 fun _ => ~~~0
  | some _ => .error "interface conversion"
  | none => .error "index out of range"

end Arch

def enforceIntArg : Arg → Arg
  | .const id dir (.const t) _ => .const id dir (.const t) t.val
  | .const id dir (.int t) val =>
    .const id dir (.int t)
      (if t.kind = .intRange ∧ (val < t.rangeBegin ∨ val > t.rangeEnd) then t.rangeBegin else val)
  | arg => arg

/-- setsockopt's len argument must be equal to size of ebt_replace + entries size. -/
def neutralizeEbtables (c : Call) : Except String Call :=
  match c.args[3]?, c.args[4]? with
  | some (Arg.pointer _ _ _ _ _ res), some (Arg.const ..) =>
    match res with
    | none => .ok c
    | some (.union _ _ _ table@(.group _ _ _ inner) _) =>
      match inner.getLast? with
      | some (.pointer _ _ _ _ _ none) => .ok c
      | some (.pointer _ _ _ _ _ (some entries)) =>
        updateConst c 4 fun _ => table.size + entries.size
      | some _ => .error "interface conversion"
      | none => .error "index out of range"
    | some _ => .error "interface conversion"
  | some _, some _ => .error "interface conversion"
  | _, _ => .error "index out of range"

def Arch.neutralizeLinux (arch : Arch) (c : Call) : Except String Call :=
  match LinuxRule.ofCallName c.callMeta.callName with
  | some .mremap => updateConst c 3 arch.mremapFlags
  | some .syslog => updateConst c 0 arch.syslogCmd
  | some .ioctl => updateConst c 1 arch.ioctlCmd
  | some .fanotifyMark => updateConst c 2 arch.fanotifyMask
  | some .ptrace => updateConst c 0 arch.ptraceReq
  | some .archPrctl => updateConst c 0 arch.archPrctlCmd
  | some .initModule => updateConst c 1 moduleSize
  | some .syzInitNetSocket => arch.neutralizeNetSocket c
  | some .syzOpenDev => do
    let c ← updateArg c 0 fun arg => .ok (enforceIntArg arg)
    let c ← updateArg c 1 fun arg => .ok (enforceIntArg arg)
    updateArg c 2 fun arg => .ok (enforceIntArg arg)
  -- Enabling these policies may lead to false positive stall-related crashes.
  | some .schedSetattr => updateArg c 1 fun arg => .ok (neutralizeSchedAttr arg)
  | none => .ok c

/-- The switch on the full name. -/
def neutralizeVariant (c : Call) : Except String Call :=
  if c.callMeta.name = "setsockopt$EBT_SO_SET_ENTRIES" then neutralizeEbtables c else .ok c

/-- `arch.neutralize` -/
def Arch.neutralize (arch : Arch) (c : Call) : Except String Call := do
  let c ← arch.unix.neutralize c
  let c ← arch.neutralizeLinux c
  neutralizeVariant c

end KConfuzz.Linux
