import Mathlib.Data.List.DropRight

/-!
# Runtime config actions in the executor (`executor/common_ext.h`)

The executor applies a config action by writing a registry value to the parameter's proc
file, and remembers what the file held before the first such write; after the program
`kconfuzz_restore_config_actions` writes the remembered values back, last saved first.

Files hold byte strings, and a buffer filled by `read` is used as a C string: its value ends
at the first NUL. Every access to a proc file may fail; which ones do is an input of the
model (`Access`). The debug log is left out.
-/

namespace KConfuzz.Executor

/-- A C string: the bytes before the terminating NUL. -/
abbrev CString := List UInt8

/-- The outcome of an access to a proc file: it succeeds, or fails with an `errno`. -/
inductive Access where
  | ok
  | error (errno : ℕ)
deriving DecidableEq, Repr

/-- An entry of the generated `kconfuzz_runtime_configs` table; `value_count` is the length
of `values`. -/
structure RuntimeConfigEntry where
  name : String
  procPath : String
  values : List CString
deriving DecidableEq, Repr

/-- The arguments of `kconfuzz_apply_config_action`. -/
structure ConfigAction where
  paramId : UInt64
  valueId : UInt64
  flags : UInt64
deriving DecidableEq, Repr

/-- `KCONFUZZ_CONFIG_FLAG_NO_RESTORE` -/
def configFlagNoRestore : UInt64 := 1

/-- `KCONFUZZ_CONFIG_FLAG_FLIP` -/
def configFlagFlip : UInt64 := 2

/-- Contents of the proc files and the saved originals. `savedOrder` lists the entries of
`kconfuzz_saved_order` below `kconfuzz_saved_count`, the last one first. -/
structure ConfigState where
  files : String → List UInt8
  savedValues : ℕ → CString
  savedValid : ℕ → Bool
  savedOrder : List ℕ

variable (configs : List RuntimeConfigEntry) (s : ConfigState) (a : ConfigAction)
  (entry : RuntimeConfigEntry)

def ConfigAction.noRestore : Bool := a.flags &&& configFlagNoRestore != 0

def ConfigAction.flip : Bool := a.flags &&& configFlagFlip != 0

/-! ## Reading and writing proc files -/

def kconfuzzIsSpace (ch : UInt8) : Bool := ch == 32 || ch == 9 || ch == 13 || ch == 10

/-- The bytes of a buffer that `strlen` counts. -/
def cstr (buf : List UInt8) : CString := buf.takeWhile (· != 0)

/-- Cut the white space off the end, then off the front. -/
def kconfuzzTrim (str : List UInt8) : CString :=
  ((cstr str).rdropWhile kconfuzzIsSpace).dropWhile kconfuzzIsSpace

/-- What `snprintf` leaves in the buffer when the file cannot be read. -/
def readErrorText (errno : ℕ) : CString :=
  ("READ_ERROR:" ++ toString errno).toList.map fun c => UInt8.ofNat c.toNat

/-- `kconfuzz_readback`: whether the file could be read, and the contents of `out`. -/
def kconfuzzReadback (content : List UInt8) (outSize : ℕ) : Access → Bool × CString
  | .error errno => (false, readErrorText errno)
  | .ok => (true, kconfuzzTrim (content.take (outSize - 1)))

/-- `kconfuzz_value_index`: the first registry value equal to `value`. -/
def kconfuzzValueIndex (value : CString) : Option ℕ :=
  entry.values.findIdx? (· == value)

/-- `write_file(file, "%s", value)`: the text goes through a buffer of 1024 bytes, and a write
that succeeds replaces what the proc file holds. -/
def writeFile (files : String → List UInt8) (file : String) (value : CString) :
    Access → (String → List UInt8) × Bool
  | .error _ => (files, false)
  | .ok => (Function.update files file (value.take 1023), true)

/-! ## Applying an action -/

/-- `kconfuzz_saved_count` -/
def ConfigState.savedCount : ℕ := s.savedOrder.length

/-- The outcomes of the accesses one action makes. -/
structure ApplyEnv where
  saveRead : Access
  flipRead : Access
  write : Access
deriving DecidableEq, Repr

/-- A call of `write_file`. -/
structure WriteAttempt where
  paramId : ℕ
  file : String
  value : CString
  ok : Bool
deriving DecidableEq, Repr

/-- Save the original value of parameter `p`; on a read error only the log hears of it. -/
def saveOriginal (count : ℕ) (s : ConfigState) (p : ℕ) (entry : RuntimeConfigEntry)
    (access : Access) : ConfigState :=
  let read := kconfuzzReadback (s.files entry.procPath) 512 access
  let s := { s with savedValues := Function.update s.savedValues p read.2 }
  if read.1 then
    let s := { s with savedValid := Function.update s.savedValid p true }
    if s.savedCount < count then { s with savedOrder := p :: s.savedOrder } else s
  else s

/-- The first half of `kconfuzz_apply_config_action`: save the original value, unless the
action does not restore or the value is saved already. -/
def savePhase (access : Access) : ConfigState :=
  if !a.noRestore && !s.savedValid a.paramId.toNat
    then saveOriginal configs.length s a.paramId.toNat entry access else s

/-- The value a flipping action selects: the one after the current value, or `valueId` when
the current value is unknown, or 0 when `valueId` is out of range too. -/
def flipValueId (content : List UInt8) (valueId : ℕ) (access : Access) : ℕ :=
  let fallback := if entry.values.length ≤ valueId then 0 else valueId
  match kconfuzzReadback content 512 access with
  | (true, before) =>
    match kconfuzzValueIndex entry before with
    | some index => (index + 1) % entry.values.length
    | none => fallback
  | (false, _) => fallback

/-- `selected_value_id` when the value is about to be written. -/
def selectedValueId (access : Access) : ℕ :=
  if a.flip then flipValueId entry (s.files entry.procPath) a.valueId.toNat access
  else a.valueId.toNat

/-- `kconfuzz_apply_config_action` on the table `configs`, with the call of `write_file` it
makes, if any. -/
def kconfuzzApplyConfigAction (env : ApplyEnv) : ConfigState × Option WriteAttempt :=
  match configs[a.paramId.toNat]? with
  | none => (s, none)
  | some entry =>
    if !a.flip && decide (entry.values.length ≤ a.valueId.toNat) then (s, none)
    else
      let s := savePhase configs s a entry env.saveRead
      match entry.values[selectedValueId s a entry env.flipRead]? with
      | none => (s, none)
      | some value =>
        let written := writeFile s.files entry.procPath value env.write
        ({ s with files := written.1 },
          some { paramId := a.paramId.toNat, file := entry.procPath, value := value,
                 ok := written.2 })

/-! ## Restoring -/

/-- The loop of `kconfuzz_restore_config_actions` over the saved parameters still on the
stack. `writes i` is the outcome of the write made when `i` parameters are left below. -/
def restoreLoop (configs : List RuntimeConfigEntry) (writes : ℕ → Access) :
    List ℕ → ConfigState → ConfigState × List WriteAttempt
  | [], s => ({ s with savedOrder := [] }, [])
  | p :: rest, s =>
    match configs[p]?, s.savedValid p with
    | some entry, true =>
      let written := writeFile s.files entry.procPath (s.savedValues p) (writes rest.length)
      let next := restoreLoop configs writes rest
        { s with
          files := written.1
          savedValid := Function.update s.savedValid p false
          savedValues := Function.update s.savedValues p [] }
      (next.1, { paramId := p, file := entry.procPath, value := s.savedValues p,
                 ok := written.2 } :: next.2)
    | _, _ => restoreLoop configs writes rest s

/-- `kconfuzz_restore_config_actions`, with the calls of `write_file` it makes. -/
def kconfuzzRestoreConfigActions (writes : ℕ → Access) (s : ConfigState) :
    ConfigState × List WriteAttempt :=
  restoreLoop configs writes s.savedOrder s

/-! ## Runs -/

/-- One config instruction of a program: the action and how its accesses turn out. -/
abbrev ConfigEvent := ConfigAction × ApplyEnv

/-- The state after one config instruction. -/
def configStep (e : ConfigEvent) : ConfigState :=
  (kconfuzzApplyConfigAction configs s e.1 e.2).1

/-- Nothing is saved: the state of the static arrays when the process starts. -/
structure ConfigState.Clean (s : ConfigState) : Prop where
  savedOrder : s.savedOrder = []
  savedValid : ∀ p, s.savedValid p = false

end KConfuzz.Executor
