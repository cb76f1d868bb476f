import KConfuzz.Exec.EncodingTheorems
import KConfuzz.Linux.KernelView

/-!
# The rules of `neutralize`

Every rule that changes the value of a constant is idempotent, and for the rules about values in
registers no value that a rule leaves asks the kernel for what the rule prevents. Which register a
constant argument of a call ends up in is `kernelView_arg`.
-/

namespace KConfuzz.Linux

open Executor Lib.ExceptFold List Arch
open LinuxRule (ofCallName)

/-! ## Changed arguments -/

section

variable {c c' : Call} {i : ℕ} {f : Arg → Except String Arg}

lemma updateArg_eq_ok_iff :
    updateArg c i f = .ok c' ↔ ∃ arg arg', c.args[i]? = some arg ∧ f arg = .ok arg' ∧
      c' = { c with args := c.args.set i arg' } := by
  unfold updateArg
  cases hget : c.args[i]? with
  | none => simp
  | some arg =>
    simp only [bind_eq_ok_iff, Option.some.injEq, exists_and_left, exists_eq_left', pure,
      Except.pure, Except.ok.injEq, @eq_comm _ _ c']

lemma updateArg_self {arg : Arg} (hget : c.args[i]? = some arg) (hf : f arg = .ok arg) :
    updateArg c i f = .ok c := by
  obtain ⟨hlt, hi⟩ := List.getElem?_eq_some_iff.mp hget
  refine updateArg_eq_ok_iff.2 ⟨arg, arg, hget, hf, ?_⟩
  rw [← hi, set_getElem_self hlt]

lemma updateArg_idem (hf : ∀ arg arg', f arg = .ok arg' → f arg' = .ok arg')
    (h : updateArg c i f = .ok c') : updateArg c' i f = .ok c' := by
  obtain ⟨arg, arg', hget, harg, rfl⟩ := updateArg_eq_ok_iff.1 h
  have hlt : i < c.args.length := (List.getElem?_eq_some_iff.mp hget).1
  exact updateArg_self (getElem?_set_self hlt) (hf arg arg' harg)

lemma updateConst_eq_ok_iff {f : UInt64 → UInt64} :
    updateConst c i f = .ok c' ↔ ∃ id dir typ val, c.args[i]? = some (.const id dir typ val) ∧
      c' = { c with args := c.args.set i (.const id dir typ (f val)) } := by
  rw [updateConst, updateArg_eq_ok_iff]
  constructor
  · intro ⟨arg, arg', hget, harg, hc'⟩
    cases arg with
    | const id dir typ val =>
      cases harg
      exact ⟨id, dir, typ, val, hget, hc'⟩
    | _ => cases harg
  · intro ⟨id, dir, typ, val, hget, hc'⟩
    exact ⟨_, _, hget, rfl, hc'⟩

lemma updateConst_self {f : UInt64 → UInt64} {id : ArgId} {dir : Dir} {typ : ScalarType}
    {val : UInt64} (hget : c.args[i]? = some (.const id dir typ val)) (hf : f val = val) :
    updateConst c i f = .ok c := by
  apply updateArg_self hget
  simp only [hf]

lemma updateConst_idem {f : UInt64 → UInt64} (hf : ∀ val, f (f val) = f val)
    (h : updateConst c i f = .ok c') : updateConst c' i f = .ok c' := by
  apply updateArg_idem ?_ h
  intro arg arg' harg
  cases arg with
  | const id dir typ val =>
    cases harg
    simp only [hf]
  | _ => cases harg

lemma callMeta_updateArg (h : updateArg c i f = .ok c') : c'.callMeta = c.callMeta := by
  obtain ⟨arg, arg', -, -, rfl⟩ := updateArg_eq_ok_iff.1 h
  rfl

lemma getElem?_updateArg_self (h : updateArg c i f = .ok c') :
    ∃ arg arg', c.args[i]? = some arg ∧ f arg = .ok arg' ∧ c'.args[i]? = some arg' := by
  obtain ⟨arg, arg', hget, harg, rfl⟩ := updateArg_eq_ok_iff.1 h
  have hlt : i < c.args.length := (List.getElem?_eq_some_iff.mp hget).1
  exact ⟨arg, arg', hget, harg, getElem?_set_self hlt⟩

lemma getElem?_updateConst_self {f : UInt64 → UInt64} (h : updateConst c i f = .ok c') :
    ∃ id dir typ val, c.args[i]? = some (.const id dir typ val) ∧
      c'.args[i]? = some (.const id dir typ (f val)) := by
  obtain ⟨id, dir, typ, val, hget, rfl⟩ := updateConst_eq_ok_iff.1 h
  have hlt : i < c.args.length := (List.getElem?_eq_some_iff.mp hget).1
  exact ⟨id, dir, typ, val, hget, getElem?_set_self hlt⟩

lemma getElem?_updateArg_of_ne (h : updateArg c i f = .ok c') {j : ℕ} (hij : i ≠ j) :
    c'.args[j]? = c.args[j]? := by
  obtain ⟨arg, arg', -, -, rfl⟩ := updateArg_eq_ok_iff.1 h
  exact getElem?_set_ne hij

lemma updateArg_self_of_ne {g : Arg → Except String Arg} {j : ℕ} (hself : updateArg c i f = .ok c)
    (h : updateArg c j g = .ok c') (hij : j ≠ i) : updateArg c' i f = .ok c' := by
  obtain ⟨arg, arg', hget, harg, hget'⟩ := getElem?_updateArg_self hself
  obtain rfl : arg = arg' := Option.some.inj (hget.symm.trans hget')
  rw [← getElem?_updateArg_of_ne h hij] at hget
  exact updateArg_self hget harg

end

/-! ## Values -/

lemma or_and (a b c : UInt64) : (a ||| b) &&& c = a &&& c ||| b &&& c := by
  apply UInt64.toBitVec_inj.mp
  ext i hi
  simp [Bool.and_or_distrib_right]

@[simp] lemma toUInt32_truncated (v : UInt64) : (truncated v).toUInt32 = v.toUInt32 :=
  UInt32.toUInt32_toUInt64 _

@[simp] lemma truncated_truncated (v : UInt64) : truncated (truncated v) = truncated v := by
  rw [truncated, toUInt32_truncated, truncated]

lemma mremapFlags_idem (flags : UInt64) :
    amd64.mremapFlags (amd64.mremapFlags flags) = amd64.mremapFlags flags := by
  by_cases hmove : flags &&& amd64.mremapMaymove ≠ 0
  · have hkeep : (flags ||| amd64.mremapFixed) &&& amd64.mremapMaymove ≠ 0 := by
      have hbits : amd64.mremapFixed &&& amd64.mremapMaymove = 0 := by decide
      rw [or_and, hbits, UInt64.or_zero]
      exact hmove
    simp only [mremapFlags, if_pos hmove, if_pos hkeep, UInt64.or_assoc, UInt64.or_self]
  · simp only [mremapFlags, if_neg hmove]

variable (cmd : UInt64)

lemma syslogCmd_notMem :
    truncated (amd64.syslogCmd cmd) ∉ [amd64.syslogActionConsoleOff, amd64.syslogActionConsoleOn,
      amd64.syslogActionConsoleLevel, amd64.syslogActionClear] := by
  simp only [syslogCmd]
  split_ifs with h
  · decide
  · simpa using h

lemma syslogCmd_idem : amd64.syslogCmd (amd64.syslogCmd cmd) = amd64.syslogCmd cmd := by
  have h := syslogCmd_notMem cmd
  have htrunc : truncated (amd64.syslogCmd cmd) = amd64.syslogCmd cmd := by
    simp only [syslogCmd]
    split_ifs
    · decide
    · rw [truncated_truncated]
  rw [htrunc] at h
  simp only [mem_cons, not_mem_nil, or_false] at h
  rw [syslogCmd, htrunc]
  exact if_neg h

lemma ioctlCmd_notMem :
    truncated (amd64.ioctlCmd cmd) ∉ [amd64.fifreeze, amd64.snapshotFreeze,
      amd64.snapshotPowerOff, amd64.tiocsserial] := by
  unfold ioctlCmd
  split_ifs with h₁ h₂ h₃ h₄
  · decide
  · decide
  · decide
  · decide
  · simp [h₁, h₂, h₃, h₄]

lemma ioctlCmd_idem : amd64.ioctlCmd (amd64.ioctlCmd cmd) = amd64.ioctlCmd cmd := by
  have h := ioctlCmd_notMem cmd
  simp only [mem_cons, not_mem_nil, or_false, not_or] at h
  generalize amd64.ioctlCmd cmd = cmd' at h
  simp only [ioctlCmd, if_neg h.1, if_neg h.2.1, if_neg h.2.2.1, if_neg h.2.2.2]

lemma fanotifyMask_idem (mask : UInt64) :
    amd64.fanotifyMask (amd64.fanotifyMask mask) = amd64.fanotifyMask mask := by
  simp only [fanotifyMask, UInt64.and_assoc, UInt64.and_self]

lemma ptraceReq_ne (req : UInt64) : truncated (amd64.ptraceReq req) ≠ amd64.ptraceTraceme := by
  unfold ptraceReq
  split_ifs with h
  · decide
  · exact h

lemma ptraceReq_idem (req : UInt64) :
    amd64.ptraceReq (amd64.ptraceReq req) = amd64.ptraceReq req := by
  rw [ptraceReq, if_neg (ptraceReq_ne req)]

lemma archPrctlCmd_ne : truncated (amd64.archPrctlCmd cmd) ≠ amd64.archSetFs := by
  unfold archPrctlCmd
  split_ifs with h
  · decide
  · exact h

lemma archPrctlCmd_idem : amd64.archPrctlCmd (amd64.archPrctlCmd cmd) = amd64.archPrctlCmd cmd := by
  rw [archPrctlCmd, if_neg (archPrctlCmd_ne cmd)]

lemma moduleSize_idem (sz : UInt64) : moduleSize (moduleSize sz) = moduleSize sz := by
  apply UInt64.toNat_inj.mp
  rw [moduleSize, moduleSize, UInt64.toNat_mod, UInt64.toNat_mod, Nat.mod_mod]

lemma exitCode_ne (code : UInt64) : exitCode code % 128 ≠ 67 := by
  unfold exitCode
  split_ifs with h
  · decide
  · exact h

lemma exitCode_idem (code : UInt64) : exitCode (exitCode code) = exitCode code := by
  rw [exitCode, if_neg (exitCode_ne code)]

/-! ### Devices -/

/-- A mode that stays is not the one of a device, or the device is one of the allowed ones;
otherwise a regular file is left. -/
lemma mknodMode_cases (mode dev : UInt64) :
    (amd64.unix.mknodMode mode dev = mode ∧
        (mode &&& sIfmt = amd64.unix.sIfblk → dev >>> 8 = 7) ∧
        (mode &&& sIfmt = amd64.unix.sIfchr → dev = 0x103)) ∨
      amd64.unix.mknodMode mode dev &&& sIfmt = amd64.unix.sIfreg := by
  have hmask : amd64.unix.sIfreg ||| amd64.unix.sIfchr ||| amd64.unix.sIfblk |||
      amd64.unix.sIfifo ||| amd64.unix.sIfsock = sIfmt := by decide
  have hregular : ∀ kind, mode &&& sIfmt = kind → ~~~kind &&& kind = 0 →
      (mode &&& ~~~kind ||| amd64.unix.sIfreg) &&& sIfmt = amd64.unix.sIfreg := by
    intro kind hkind hzero
    rw [or_and, UInt64.and_assoc, UInt64.and_comm (~~~kind), ← UInt64.and_assoc, hkind,
      UInt64.and_comm kind, hzero]
    decide
  simp only [UnixNeutralizer.mknodMode, hmask]
  split_ifs with hplain hblk hloop hchr hnull
  · left
    refine ⟨rfl, fun h => ?_, fun h => ?_⟩
    · rw [h] at hplain
      exact absurd hplain (by decide)
    · rw [h] at hplain
      exact absurd hplain (by decide)
  · left
    refine ⟨rfl, fun _ => hloop, fun h => ?_⟩
    rw [h] at hblk
    exact absurd hblk (by decide)
  · right
    exact hregular _ hblk (by decide)
  · left
    exact ⟨rfl, fun h => absurd h hblk, fun _ => hnull⟩
  · right
    exact hregular _ hchr (by decide)
  · left
    exact ⟨rfl, fun h => absurd h hblk, fun h => absurd h hchr⟩

lemma mknodMode_idem (mode dev : UInt64) :
    amd64.unix.mknodMode (amd64.unix.mknodMode mode dev) dev = amd64.unix.mknodMode mode dev := by
  obtain ⟨hsame, -, -⟩ | hregular := mknodMode_cases mode dev
  · rw [hsame, hsame]
  · exact if_pos (Or.inl hregular)

lemma major_eq_of_shiftRight {dev : UInt32} (h : dev.toUInt64 >>> 8 = 7) : major dev = 7 := by
  have hdev : dev >>> 8 = 7 := by
    apply UInt32.toNat_inj.mp
    have hnat := congrArg UInt64.toNat h
    simpa using hnat
  have hshift : major dev = dev >>> 8 &&& (0xfff00 : UInt32) >>> 8 := by
    apply UInt32.toBitVec_inj.mp
    exact BitVec.ushiftRight_and_distrib ..
  rw [hshift, hdev]
  decide

/-- The node that the rule leaves is none it prevents. -/
lemma mknod_not_requests {view : KernelView} {pos : ℕ} {mode dev : UInt64}
    (hmode : view.arg pos = amd64.unix.mknodMode mode (truncated dev))
    (hdev : view.arg (pos + 1) = truncated dev) : ¬ (UnixRule.mknod pos).Requests view := by
  have h32 : (view.arg (pos + 1)).toUInt32 = dev.toUInt32 := by
    rw [hdev, toUInt32_truncated]
  simp only [UnixRule.Requests, h32, hmode]
  obtain ⟨hsame, hblk, hchr⟩ | hregular := mknodMode_cases mode (truncated dev)
  · rw [hsame]
    rintro (⟨hkind, hmajor⟩ | ⟨hkind, hnull⟩)
    · exact hmajor (major_eq_of_shiftRight (hblk hkind))
    · have hdevice : dev.toUInt32 = 0x103 := by
        have htrunc := congrArg UInt64.toUInt32 (hchr hkind)
        rwa [toUInt32_truncated] at htrunc
      rw [hdevice] at hnull
      exact hnull (by decide)
  · have hblk : amd64.unix.sIfreg ≠ amd64.unix.sIfblk := by decide
    have hchr : amd64.unix.sIfreg ≠ amd64.unix.sIfchr := by decide
    rw [hregular]
    simp [hblk, hchr]

/-! ## Attributes -/

lemma clearPolicy_idem (policy : UInt64) : clearPolicy (clearPolicy policy) = clearPolicy policy := by
  by_cases h : policy = 1 ∨ policy = 2
  · have hzero : clearPolicy policy = 0 := if_pos h
    rw [hzero]
    decide
  · simp only [clearPolicy, if_neg h]

lemma length_clearHead (data : List UInt8) : (clearHead data).length = data.length := by
  simp only [clearHead, length_append, length_replicate, length_drop]
  omega

lemma clearHead_idem (data : List UInt8) : clearHead (clearHead data) = clearHead data := by
  have hdrop : (clearHead data).drop 16 = data.drop 16 := by
    by_cases hlong : 16 ≤ data.length
    · rw [clearHead, Nat.min_eq_left hlong]
      exact drop_left' (length_replicate ..)
    · rw [drop_of_length_le (by rw [length_clearHead]; omega),
        drop_of_length_le (by omega)]
  rw [clearHead, length_clearHead, hdrop, clearHead]

lemma clearPolicyField_idem (inner : List Arg) :
    clearPolicyField (clearPolicyField inner) = clearPolicyField inner := by
  fun_cases clearPolicyField inner with
  | case1 first id dir typ val rest => simp only [clearPolicyField, clearPolicy_idem]
  | case2 inner h => exact clearPolicyField.eq_2 inner h

lemma clearPolicyField_cons (first : Arg) (rest : List Arg) :
    ∃ rest', clearPolicyField (first :: rest) = first :: rest' := by
  cases rest with
  | nil => exact ⟨[], rfl⟩
  | cons second rest =>
    cases second with
    | const id dir typ val => exact ⟨.const id dir typ (clearPolicy val) :: rest, rfl⟩
    | _ => exact ⟨_, rfl⟩

/-- Neutralizing the attributes twice changes nothing more. -/
lemma neutralizeAttrFields_idem (inner : List Arg) :
    neutralizeAttrFields (neutralizeAttrFields inner) = neutralizeAttrFields inner := by
  fun_cases neutralizeAttrFields inner with
  | case1 id dir typ dataId dataTyp data size index rest =>
    simp only [neutralizeAttrFields, if_true]
  | case2 id dir typ dataId dataDir dataTyp data size index rest hdir =>
    obtain ⟨rest', hrest⟩ := clearPolicyField_cons
      (.union id dir typ (.data dataId dataDir dataTyp (clearHead data) size) index) rest
    rw [hrest]
    simp only [neutralizeAttrFields, if_neg hdir, clearHead_idem]
    rw [← hrest, clearPolicyField_idem]
  | case3 id dir typ option index rest hoption =>
    cases option with
    | data dataId dataDir dataTyp data size => exact absurd rfl (hoption _ _ _ _ _)
    | _ => rfl
  | case4 inner _ hunion =>
    cases inner with
    | nil => rfl
    | cons first rest =>
      obtain ⟨rest', hrest⟩ := clearPolicyField_cons first rest
      have hfirst : neutralizeAttrFields (first :: rest') = clearPolicyField (first :: rest') := by
        cases first with
        | union id dir typ option index => exact absurd rfl (hunion _ _ _ _ _ _)
        | _ => rfl
      rw [hrest, hfirst, ← hrest, clearPolicyField_idem]

lemma neutralizeSchedAttr_idem (arg : Arg) :
    neutralizeSchedAttr (neutralizeSchedAttr arg) = neutralizeSchedAttr arg := by
  fun_cases neutralizeSchedAttr arg with
  | case1 => rfl
  | case2 => simp only [neutralizeSchedAttr, neutralizeAttrFields_idem]
  | case3 => rfl
  | case4 arg h₁ h₂ h₃ => exact neutralizeSchedAttr.eq_4 arg h₁ h₂ h₃

lemma enforceIntArg_idem (arg : Arg) : enforceIntArg (enforceIntArg arg) = enforceIntArg arg := by
  fun_cases enforceIntArg arg with
  | case1 => rfl
  | case2 id dir t val =>
    simp only [enforceIntArg]
    split_ifs with h₁ h₂
    · rfl
    · rfl
    · rfl
  | case3 arg h₁ h₂ => exact enforceIntArg.eq_3 arg h₁ h₂

/-! ## Neutralizing twice -/

section

variable {c c' : Call}

/-- What is left of the mode and the device. -/
lemma neutralizeMknod_eq_ok {pos : ℕ} (h : amd64.unix.neutralizeMknod pos c = .ok c') :
    (c' = c ∧ ∃ dev, c.args[pos + 1]? = some dev ∧ isProcOrResource dev = true) ∨
      ∃ id dir typ mode id' dir' typ' dev, c.args[pos]? = some (.const id dir typ mode) ∧
        c.args[pos + 1]? = some (.const id' dir' typ' dev) ∧
        isProcOrResource (.const id' dir' typ' dev) = false ∧ c'.callMeta = c.callMeta ∧
        c'.args[pos]? = some (.const id dir typ (amd64.unix.mknodMode mode (truncated dev))) ∧
        c'.args[pos + 1]? = some (.const id' dir' typ' (truncated dev)) := by
  unfold UnixNeutralizer.neutralizeMknod at h
  cases hmode : c.args[pos]? with
  | none => simp [hmode] at h
  | some mode =>
  cases hdev : c.args[pos + 1]? with
  | none => simp [hmode, hdev] at h
  | some dev =>
  simp only [hmode, hdev] at h
  split_ifs at h with hexcluded
  · cases h
    exact .inl ⟨rfl, dev, rfl, hexcluded⟩
  · right
    split at h
    · obtain ⟨c₁, h₁, h₂⟩ := bind_eq_ok_iff.1 h
      obtain ⟨_, _, _, _, hget₁, hget₁'⟩ := getElem?_updateConst_self h₁
      obtain ⟨_, _, _, _, hget₂, hget₂'⟩ := getElem?_updateConst_self h₂
      rw [hdev] at hget₁
      cases hget₁
      rw [getElem?_updateArg_of_ne h₁ (by omega), hmode] at hget₂
      cases hget₂
      rw [← getElem?_updateArg_of_ne h₂ (by omega)] at hget₁'
      exact ⟨_, _, _, _, _, _, _, _, rfl, rfl, Bool.eq_false_iff.mpr hexcluded,
        (callMeta_updateArg h₂).trans (callMeta_updateArg h₁), hget₂', hget₁'⟩
    · cases h

lemma neutralizeMknod_idem {pos : ℕ} (h : amd64.unix.neutralizeMknod pos c = .ok c') :
    amd64.unix.neutralizeMknod pos c' = .ok c' := by
  obtain ⟨rfl, -⟩ | ⟨id, dir, typ, mode, id', dir', typ', dev, -, -, hproc, -, hmode', hdev'⟩ :=
    neutralizeMknod_eq_ok h
  · exact h
  · have hproc' : isProcOrResource (.const id' dir' typ' (truncated dev)) = false := by
      cases typ' with
      | proc t => cases hproc
      | _ => rfl
    simp only [UnixNeutralizer.neutralizeMknod, hmode', hdev', hproc', Bool.false_eq_true, if_false]
    rw [updateConst_self hdev' (truncated_truncated dev)]
    apply updateConst_self hmode'
    rw [truncated_truncated, mknodMode_idem]

/-! ### One system at a time -/

lemma linuxRule_of_unixRule {name : String} {rule : UnixRule}
    (h : UnixRule.ofCallName name = some rule) : ofCallName name = none := by
  unfold UnixRule.ofCallName at h
  split at h <;> first | rfl | cases h

lemma callMeta_updateConst {i : ℕ} {f : UInt64 → UInt64} (h : updateConst c i f = .ok c') :
    c'.callMeta = c.callMeta := callMeta_updateArg h

lemma callMeta_unix (h : amd64.unix.neutralize c = .ok c') : c'.callMeta = c.callMeta := by
  unfold UnixNeutralizer.neutralize at h
  split at h
  · split_ifs at h
    · cases h
      rfl
    · exact callMeta_updateConst h
  · obtain ⟨rfl, -⟩ | ⟨_, _, _, _, _, _, _, _, -, -, -, hmeta, -⟩ := neutralizeMknod_eq_ok h
    · rfl
    · exact hmeta
  · exact callMeta_updateConst h
  · cases h
    rfl

lemma unix_neutralize_idem (h : amd64.unix.neutralize c = .ok c') :
    amd64.unix.neutralize c' = .ok c' := by
  have hmeta := callMeta_unix h
  unfold UnixNeutralizer.neutralize at h ⊢
  rw [hmeta]
  split at h
  · split_ifs at h ⊢ with hbifrost
    · rfl
    · apply updateConst_idem ?_ h
      intro val
      rw [UInt64.or_assoc, UInt64.or_self]
  · exact neutralizeMknod_idem h
  · exact updateConst_idem exitCode_idem h
  · rfl

/-- A neutralized socket call is left alone. -/
lemma neutralizeNetSocket_idem (h : amd64.neutralizeNetSocket c = .ok c') :
    c'.callMeta = c.callMeta ∧ amd64.neutralizeNetSocket c' = .ok c' := by
  have hcall := h
  unfold neutralizeNetSocket at h
  split at h
  · rename_i id dir typ family hget
    split_ifs at h with hallowed hnetlink
    · cases h
      exact ⟨rfl, hcall⟩
    · obtain ⟨c₁, h₁, h₂⟩ := bind_eq_ok_iff.1 h
      have hget' : c'.args[0]? = some (.const id dir typ family) := by
        rw [getElem?_updateArg_of_ne h₂ (by decide), getElem?_updateArg_of_ne h₁ (by decide), hget]
      refine ⟨(callMeta_updateConst h₂).trans (callMeta_updateConst h₁), ?_⟩
      simp only [neutralizeNetSocket, hget', if_neg hallowed, if_pos hnetlink]
      have hraw : updateConst c' 1 (fun _ => amd64.sockRaw) = .ok c' :=
        updateArg_self_of_ne (updateConst_idem (fun _ => rfl) h₁) h₂ (by decide)
      rw [hraw]
      exact updateConst_idem (fun _ => rfl) h₂
    · refine ⟨callMeta_updateConst h, ?_⟩
      obtain ⟨_, _, _, _, -, hget'⟩ := getElem?_updateConst_self h
      simp only [neutralizeNetSocket, hget']
      exact updateConst_self hget' rfl
  · cases h
  · cases h

/-- A neutralized ebtables call is left alone. -/
lemma neutralizeEbtables_idem (h : neutralizeEbtables c = .ok c') :
    c'.callMeta = c.callMeta ∧ neutralizeEbtables c' = .ok c' := by
  have hcall := h
  unfold neutralizeEbtables at h
  split at h
  · rename_i _ _ _ _ _ res _ _ _ _ hptr hlen
    split at h
    · cases h
      exact ⟨rfl, hcall⟩
    · split at h
      · cases h
        exact ⟨rfl, hcall⟩
      · -- the table is an argument of its own
        rename_i hlast
        refine ⟨callMeta_updateConst h, ?_⟩
        rw [← getElem?_updateArg_of_ne h (by decide)] at hptr
        obtain ⟨_, _, _, _, -, hlen'⟩ := getElem?_updateConst_self h
        simp only [neutralizeEbtables, hptr, hlen', hlast]
        exact updateConst_self hlen' rfl
      · cases h
      · cases h
    · cases h
  · cases h
  · cases h

lemma callMeta_linux (h : amd64.neutralizeLinux c = .ok c') : c'.callMeta = c.callMeta := by
  unfold neutralizeLinux at h
  split at h
  case h_8 => exact (neutralizeNetSocket_idem h).1
  case h_9 =>
    obtain ⟨c₁, h₁, h⟩ := bind_eq_ok_iff.1 h
    obtain ⟨c₂, h₂, h⟩ := bind_eq_ok_iff.1 h
    rw [callMeta_updateArg h, callMeta_updateArg h₂, callMeta_updateArg h₁]
  case h_11 =>
    cases h
    rfl
  all_goals exact callMeta_updateArg h

/-- What the Linux rules have neutralized they leave alone. -/
lemma linux_neutralize_idem (h : amd64.neutralizeLinux c = .ok c') :
    amd64.neutralizeLinux c' = .ok c' := by
  have hmeta := callMeta_linux h
  unfold neutralizeLinux at h ⊢
  rw [hmeta]
  split at h
  · exact updateConst_idem mremapFlags_idem h
  · exact updateConst_idem syslogCmd_idem h
  · exact updateConst_idem ioctlCmd_idem h
  · exact updateConst_idem fanotifyMask_idem h
  · exact updateConst_idem ptraceReq_idem h
  · exact updateConst_idem archPrctlCmd_idem h
  · exact updateConst_idem moduleSize_idem h
  · exact (neutralizeNetSocket_idem h).2
  · obtain ⟨c₁, h₁, h⟩ := bind_eq_ok_iff.1 h
    obtain ⟨c₂, h₂, h⟩ := bind_eq_ok_iff.1 h
    have henforce : ∀ arg arg', (.ok (enforceIntArg arg) : Except String Arg) = .ok arg' →
        (.ok (enforceIntArg arg') : Except String Arg) = .ok arg' := by
      intro arg arg' harg
      cases harg
      rw [enforceIntArg_idem]
    have hfirst := updateArg_self_of_ne
      (updateArg_self_of_ne (updateArg_idem henforce h₁) h₂ (by decide)) h (by decide)
    have hsecond := updateArg_self_of_ne (updateArg_idem henforce h₂) h (by decide)
    exact bind_eq_ok_iff.2 ⟨c', hfirst, bind_eq_ok_iff.2 ⟨c', hsecond, updateArg_idem henforce h⟩⟩
  · apply updateArg_idem ?_ h
    intro arg arg' harg
    cases harg
    rw [neutralizeSchedAttr_idem]
  · rfl

lemma neutralizeLinux_of_none (h : ofCallName c.callMeta.callName = none) :
    amd64.neutralizeLinux c = .ok c := by
  rw [neutralizeLinux, h]

lemma callMeta_variant (h : neutralizeVariant c = .ok c') : c'.callMeta = c.callMeta := by
  unfold neutralizeVariant at h
  split_ifs at h
  · exact (neutralizeEbtables_idem h).1
  · cases h
    rfl

lemma neutralizeVariant_idem (h : neutralizeVariant c = .ok c') :
    neutralizeVariant c' = .ok c' := by
  have hmeta := callMeta_variant h
  unfold neutralizeVariant at h ⊢
  rw [hmeta]
  split_ifs at h ⊢
  · exact (neutralizeEbtables_idem h).2
  · rfl

/-- The full name that the last stage looks for is the one of no rule of the others. -/
lemma neutralizeVariant_of_rule (h : UnixRule.ofCallName c.callMeta.callName ≠ none ∨
    ofCallName c.callMeta.callName ≠ none) : neutralizeVariant c = .ok c := by
  apply if_neg
  intro hname
  rw [Syscall.callName, hname] at h
  exact absurd h (by decide)

/-- At most one set of rules is about a call. -/
lemma neutralize_eq_ok_iff : amd64.neutralize c = .ok c' ↔
    (∃ rule, UnixRule.ofCallName c.callMeta.callName = some rule ∧
        amd64.unix.neutralize c = .ok c') ∨
      (∃ rule, ofCallName c.callMeta.callName = some rule ∧
        amd64.neutralizeLinux c = .ok c') ∨
      (UnixRule.ofCallName c.callMeta.callName = none ∧
        ofCallName c.callMeta.callName = none ∧ neutralizeVariant c = .ok c') := by
  cases hunix : UnixRule.ofCallName c.callMeta.callName with
  | some rule =>
    have hlinux := linuxRule_of_unixRule hunix
    have hstages : amd64.neutralize c = amd64.unix.neutralize c := by
      rw [neutralize]
      cases hc₁ : amd64.unix.neutralize c with
      | error msg => rfl
      | ok c₁ =>
        have hmeta := callMeta_unix hc₁
        have hnone := neutralizeLinux_of_none (c := c₁) (by rw [hmeta, hlinux])
        have hvariant := neutralizeVariant_of_rule (c := c₁) (.inl (by rw [hmeta, hunix]; simp))
        simp only [bind, Except.bind, hnone, hvariant]
    rw [hstages]
    simp [hlinux]
  | none =>
    have hstages : amd64.neutralize c = amd64.neutralizeLinux c >>= neutralizeVariant := by
      rw [neutralize, UnixNeutralizer.neutralize, hunix]
      rfl
    rw [hstages]
    cases hlinux : ofCallName c.callMeta.callName with
    | some rule =>
      have hstage : (amd64.neutralizeLinux c >>= neutralizeVariant) = amd64.neutralizeLinux c := by
        cases hc₁ : amd64.neutralizeLinux c with
        | error msg => rfl
        | ok c₁ =>
          exact neutralizeVariant_of_rule (.inr (by rw [callMeta_linux hc₁, hlinux]; simp))
      rw [hstage]
      simp
    | none =>
      rw [neutralizeLinux_of_none hlinux]
      simp [bind, Except.bind]

lemma neutralize_idem (h : amd64.neutralize c = .ok c') : amd64.neutralize c' = .ok c' := by
  obtain ⟨rule, hrule, h⟩ | ⟨rule, hrule, h⟩ | ⟨hunix, hlinux, h⟩ := neutralize_eq_ok_iff.1 h
  · rw [← callMeta_unix h] at hrule
    exact neutralize_eq_ok_iff.2 (.inl ⟨rule, hrule, unix_neutralize_idem h⟩)
  · rw [← callMeta_linux h] at hrule
    exact neutralize_eq_ok_iff.2 (.inr (.inl ⟨rule, hrule, linux_neutralize_idem h⟩))
  · rw [← callMeta_variant h] at hunix hlinux
    exact neutralize_eq_ok_iff.2 (.inr (.inr ⟨hunix, hlinux, neutralizeVariant_idem h⟩))

end

end KConfuzz.Linux
