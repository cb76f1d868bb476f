import KConfuzz.Linux.SchedAttrTheorems

/-!
# What neutralized calls ask the kernel for

After `neutralize` no call asks for what the rules prevent, except for a `sched_setattr` whose
policy the rule does not see, and neutralizing again changes nothing (`neutralize_safe_iff`).
-/

namespace KConfuzz.Linux

open Executor List

variable {env : ExecEnv} {target : Target} {w : ExecContext} {rt : Runtime} {c c' : Call}
  {view : KernelView}

/-! ## Rules about registers -/

lemma arg_updateConst {i : ℕ} {f : UInt64 → UInt64} (h : updateConst c i f = .ok c')
    (hkfuzz : c.callMeta.kfuzzTest = false)
    (hplain : ∀ id dir typ val, c.args[i]? = some (.const id dir typ val) → isPlain typ = true)
    (hview : kernelView env target w rt c' = some view) : ∃ val, view.arg i = f val := by
  obtain ⟨id, dir, typ, val, hget, hget'⟩ := getElem?_updateConst_self h
  have hkfuzz' : c'.callMeta.kfuzzTest = false := by rw [callMeta_updateConst h, hkfuzz]
  exact ⟨val, kernelView_arg hkfuzz' hview (hplain id dir typ val hget) hget'⟩

lemma LinuxCall.notKFuzz (hc : LinuxCall target c)
    (h : UnixRule.ofCallName c.callMeta.callName ≠ none ∨
      LinuxRule.ofCallName c.callMeta.callName ≠ none) : c.callMeta.kfuzzTest = false := by
  cases hkfuzz : c.callMeta.kfuzzTest with
  | false => rfl
  | true =>
    obtain ⟨hunix, hlinux⟩ := hc.kfuzzTest hkfuzz
    rw [hunix, hlinux] at h
    simp at h

/-- After the rules for all systems the kernel sees no dangerous request. -/
lemma unix_not_requests (hc : LinuxCall target c) (hmknod : ¬ MknodExcluded c) {rule : UnixRule}
    (hrule : UnixRule.ofCallName c.callMeta.callName = some rule)
    (h : amd64.unix.neutralize c = .ok c') (hview : kernelView env target w rt c' = some view) :
    ¬ rule.Requests view := by
  have hkfuzz := hc.notKFuzz (.inl (by rw [hrule]; simp))
  have hplain := hc.unix hmknod rule hrule
  simp only [UnixNeutralizer.neutralize, hrule] at h
  cases rule with
  | mmap => exact id
  | mknod pos =>
    obtain ⟨-, dev, hdev, hproc⟩ |
      ⟨id, dir, typ, mode, id', dir', typ', dev, hmode, hdev, -, hmeta, hmode', hdev'⟩ :=
        neutralizeMknod_eq_ok h
    · exact absurd ⟨pos, dev, hrule, hdev, hproc⟩ hmknod
    · have hkfuzz' : c'.callMeta.kfuzzTest = false := by rw [hmeta, hkfuzz]
      apply mknod_not_requests
      · exact kernelView_arg hkfuzz' hview (hplain pos (by simp [UnixRule.positions]) _ _ _ _ hmode)
          hmode'
      · exact kernelView_arg hkfuzz' hview
          (hplain (pos + 1) (by simp [UnixRule.positions]) _ _ _ _ hdev) hdev'
  | exit =>
    obtain ⟨val, hval⟩ := arg_updateConst h hkfuzz (hplain 0 (by decide)) hview
    rw [UnixRule.Requests, hval]
    exact exitCode_ne val

/-- After the Linux rules, `sched_setattr` aside, it does not either. -/
lemma linux_not_requests (hc : LinuxCall target c) {rule : LinuxRule}
    (hrule : LinuxRule.ofCallName c.callMeta.callName = some rule) (hne : rule ≠ .schedSetattr)
    (h : amd64.neutralizeLinux c = .ok c') (hview : kernelView env target w rt c' = some view) :
    ¬ rule.Requests view := by
  have hkfuzz := hc.notKFuzz (.inr (by rw [hrule]; simp))
  have hplain := hc.linux rule hrule
  simp only [Arch.neutralizeLinux, hrule] at h
  cases rule with
  | mremap => exact id
  | initModule => exact id
  | syzInitNetSocket => exact id
  | syzOpenDev => exact id
  | schedSetattr => exact absurd rfl hne
  | syslog =>
    obtain ⟨val, hval⟩ := arg_updateConst h hkfuzz (hplain 0 (by decide)) hview
    rw [LinuxRule.Requests, hval]
    exact syslogCmd_notMem val
  | ioctl =>
    obtain ⟨val, hval⟩ := arg_updateConst h hkfuzz (hplain 1 (by decide)) hview
    rw [LinuxRule.Requests, hval]
    exact ioctlCmd_notMem val
  | fanotifyMark =>
    obtain ⟨val, hval⟩ := arg_updateConst h hkfuzz (hplain 2 (by decide)) hview
    rw [LinuxRule.Requests, hval]
    refine not_not_intro ?_
    rw [Arch.fanotifyMask, UInt64.and_assoc]
    exact UInt64.and_zero
  | ptrace =>
    obtain ⟨val, hval⟩ := arg_updateConst h hkfuzz (hplain 0 (by decide)) hview
    rw [LinuxRule.Requests, hval]
    exact ptraceReq_ne val
  | archPrctl =>
    obtain ⟨val, hval⟩ := arg_updateConst h hkfuzz (hplain 0 (by decide)) hview
    rw [LinuxRule.Requests, hval]
    exact archPrctlCmd_ne val

/-! ## The rule about memory -/

variable {inner : List Arg}

section

variable (h : ∀ elem ∈ inner, ∃ id dir typ option index, elem = .union id dir typ option index)

include h

lemma clearPolicyField_of_unions : clearPolicyField inner = inner := by
  fun_cases clearPolicyField inner with
  | case1 first id dir typ val rest =>
    obtain ⟨_, _, _, _, _, heq⟩ := h (.const id dir typ val) (by simp)
    cases heq
  | case2 inner _ => rfl

lemma neutralizeAttrFields_of_unions (hblob : startsWithBlob inner = false) :
    neutralizeAttrFields inner = inner := by
  fun_cases neutralizeAttrFields inner with
  | case1 => rfl
  | case2 id dir typ dataId dataDir dataTyp data size index rest hdir =>
    have hempty : data = [] := by simpa [startsWithBlob, hdir] using hblob
    subst hempty
    exact clearPolicyField_of_unions h
  | case3 => rfl
  | case4 inner _ _ => exact clearPolicyField_of_unions h

end

lemma startsWithBlob_eq_true (h : startsWithBlob inner = true) :
    ∃ id dir typ dataId dataDir dataTyp data size index rest,
      inner = .union id dir typ (.data dataId dataDir dataTyp data size) index :: rest ∧
        dataDir ≠ .dirOut ∧ data ≠ [] := by
  unfold startsWithBlob at h
  split at h
  · simp only [Bool.and_eq_true, bne_iff_ne, Bool.not_eq_true', isEmpty_eq_false_iff] at h
    exact ⟨_, _, _, _, _, _, _, _, _, _, rfl, h.1, h.2⟩
  · cases h

lemma getElem?_clearHead (data : List UInt8) {i : ℕ} (hi : i < 8) :
    (clearHead data)[i]?.getD 0 = 0 := by
  by_cases hlt : i < data.length
  · rw [clearHead, getElem?_append_left (by rw [length_replicate]; omega),
      getElem?_replicate_of_lt (by omega)]
    rfl
  · rw [getElem?_eq_none (by rw [length_clearHead]; omega)]
    rfl

section

variable {pid : ResultArg} {id flagsId gid : ArgId} {dir flagsDir gdir : Dir} {t : TypeCommon}
  {address flags : UInt64} {flagsTyp : ScalarType} (hkfuzz' : c'.callMeta.kfuzzTest = false)
  (hflags : isPlain flagsTyp = true) (hc' : c' = { c with args := c'.args })

include hkfuzz' hflags hc'

/-- The policy of a struct is prevented when the rule sees it. -/
lemma struct_safe_iff {st : StructType}
    (hargs : c.args = schedArgs pid id dir t address (some (.group gid gdir (.struct st) inner))
      flagsId flagsDir flagsTyp flags) (hoverlay : st.overlayField = 0)
    (hsizes : inner.map Arg.size = schedAttrSizes) (hplain : PlainFields inner)
    (hruns : ∃ env w rt view, kernelView env target w rt c = some view)
    (hargs' : c'.args = schedArgs pid id dir t address
      (some (.group gid gdir (.struct st) (neutralizeAttrFields inner))) flagsId flagsDir flagsTyp
      flags) :
    (∀ env w rt view, kernelView env target w rt c' = some view → view.policy ∉ [1, 2]) ↔
      PolicySeen target c := by
  -- there are ten fields, and the second one is the policy
  obtain ⟨first, fieldId, fieldDir, typ, val, rest, rfl⟩ :
      ∃ first fieldId fieldDir typ val rest, inner = first :: .const fieldId fieldDir typ val :: rest := by
    match inner, hsizes, hplain with
    | [_], hsizes, _ => simp [schedAttrSizes] at hsizes
    | first :: second :: rest, _, hplain =>
      obtain ⟨_, _, _, _, rfl, -⟩ := hplain second (by simp)
      exact ⟨_, _, _, _, _, _, rfl⟩
  have hfirst := hplain first mem_cons_self
  have hfields : neutralizeAttrFields (first :: .const fieldId fieldDir typ val :: rest) =
      first :: .const fieldId fieldDir typ (clearPolicy val) :: rest := by
    obtain ⟨_, _, _, _, rfl, -⟩ := hfirst
    rfl
  have hseen : PolicySeen target c ↔
      fieldDir = .dirOut ∨ truncated val ∉ [1, 2] ∨ val ∈ [1, 2] := by
    simp only [PolicySeen, hargs]
    rfl
  rw [hfields] at hargs'
  have hpolicy : ∀ env w rt view, kernelView env target w rt c' = some view →
      view.policy = if fieldDir = .dirOut then 0 else (truncated (clearPolicy val)).toNat := by
    intro env w rt view hview
    refine policy_struct hkfuzz' hflags hargs' hoverlay ?_ hsizes hview
    obtain ⟨_, hrest⟩ := forall_mem_cons.mp hplain
    obtain ⟨⟨_, _, _, _, heq, htyp⟩, hrest⟩ := forall_mem_cons.mp hrest
    cases heq
    exact forall_mem_cons.mpr ⟨hfirst, forall_mem_cons.mpr ⟨⟨_, _, _, _, rfl, htyp⟩, hrest⟩⟩
  rw [hseen]
  constructor
  · intro hsafe
    by_contra hbad
    simp only [not_or, not_not] at hbad
    obtain ⟨hdir, htrunc, hval⟩ := hbad
    -- a policy that is not seen stays as it is, and the call with it
    have hsame : clearPolicy val = val := if_neg (by simpa using hval)
    rw [hsame] at hargs' hpolicy
    obtain rfl : c' = c := by rw [hc', hargs', ← hargs]
    obtain ⟨env, w, rt, view, hview⟩ := hruns
    apply hsafe env w rt view hview
    rw [hpolicy env w rt view hview, if_neg hdir]
    simp only [mem_cons, not_mem_nil, or_false] at htrunc ⊢
    obtain htrunc | htrunc := htrunc <;> rw [htrunc] <;> decide
  · intro hseen env w rt view hview
    rw [hpolicy env w rt view hview]
    split_ifs with hdir
    · decide
    · by_cases hval : val = 1 ∨ val = 2
      · have hzero : clearPolicy val = 0 := if_pos hval
        rw [hzero]
        decide
      · have hsame : clearPolicy val = val := if_neg hval
        have htrunc : truncated val ∉ [1, 2] := by
          simpa [hdir, hval] using hseen
        rw [hsame]
        intro hmem
        apply htrunc
        simp only [mem_cons, not_mem_nil, or_false] at hmem ⊢
        exact hmem.imp (fun h => UInt64.toNat_inj.mp h) (fun h => UInt64.toNat_inj.mp h)

/-- The policy of a squashed struct is prevented when it is in the leading blob. -/
lemma squashed_safe_iff {arr : ArrayType}
    (hargs : c.args = schedArgs pid id dir t address (some (.group gid gdir (.array arr) inner))
      flagsId flagsDir flagsTyp flags) (hkfuzz : c.callMeta.kfuzzTest = false)
    (hunions : ∀ elem ∈ inner, ∃ id dir typ option index, elem = .union id dir typ option index)
    (hany : AnyElems inner)
    (hblobs : ∀ id dir typ data size, .data id dir typ data size ∈ Arg.subtrees inner →
      data.length < 2 ^ 64)
    (hargs' : c'.args = schedArgs pid id dir t address
      (some (.group gid gdir (.array arr) (neutralizeAttrFields inner))) flagsId flagsDir flagsTyp
      flags) :
    (∀ env w rt view, kernelView env target w rt c' = some view → view.policy ∉ [1, 2]) ↔
      PolicySeen target c := by
  have hseen : PolicySeen target c ↔ ∀ env w rt view,
      kernelViewFrom env target w rt (if startsWithBlob inner then 1 else 0) c = some view →
        view.policy ∉ [1, 2] := by
    simp only [PolicySeen, hargs]
    rfl
  rw [hseen]
  cases hblob : startsWithBlob inner with
  | false =>
    rw [neutralizeAttrFields_of_unions hunions hblob] at hargs'
    obtain rfl : c' = c := by rw [hc', hargs', ← hargs]
    rfl
  | true =>
    obtain ⟨unionId, unionDir, unionTyp, dataId, dataDir, dataTyp, data, size, index, rest, rfl,
      hdir, hdata⟩ := startsWithBlob_eq_true hblob
    have hrest : AnyElems rest :=
      ⟨fun node hnode => hany.notConst node (mem_append_right _ hnode),
        fun r hr => hany.resources r (mem_append_right _ hr)⟩
    have hlt : data.length < 2 ^ 64 := hblobs dataId dataDir dataTyp data size (by simp [Arg.subtrees, Arg.subtree])
    let s : Squashed :=
      { pid, id, dir, t, address, groupId := gid, groupDir := gdir, groupTyp := arr, unionId, unionDir
        unionTyp, index, dataId, dataDir, dataTyp, size, rest, flagsId, flagsDir, flagsTyp, flags
        plain := hflags, any := hrest, notOut := hdir }
    have hfields : neutralizeAttrFields
        (.union unionId unionDir unionTyp (.data dataId dataDir dataTyp data size) index :: rest) =
          s.lead (clearHead data) :: rest := by
      rw [neutralizeAttrFields, if_neg hdir]
      apply clearPolicyField_of_unions
      obtain ⟨_, hunions⟩ := forall_mem_cons.mp hunions
      exact forall_mem_cons.mpr ⟨⟨_, _, _, _, _, rfl⟩, hunions⟩
    rw [hfields] at hargs'
    replace hargs : c.args = s.args data := hargs
    replace hargs' : c'.args = s.args (clearHead data) := hargs'
    have hlen := length_clearHead data
    have hdata' : clearHead data ≠ [] := by
      rw [← length_pos_iff, hlen, length_pos_iff]
      exact hdata
    have hzero : ∀ i < 8, (clearHead data)[i]?.getD 0 = 0 := fun i hi => getElem?_clearHead data hi
    constructor
    · intro hsafe env w rt view hview
      have hview' := s.kernelViewFrom_one_congr hkfuzz hargs hdata hlt hlen
        (show c' = { c with args := s.args (clearHead data) } by rw [← hargs', ← hc']) hview
      obtain ⟨view', hview', hpolicy⟩ := s.policy_skip hkfuzz' hargs' hdata' (hlen ▸ hlt) hzero
        (Nat.le_refl 1) (Nat.zero_le 1) hview'
      rw [← hpolicy]
      exact hsafe env w rt view' hview'
    · intro hsafe env w rt view hview
      obtain ⟨view', hview', hpolicy⟩ := s.policy_skip hkfuzz' hargs' hdata' (hlen ▸ hlt) hzero
        (Nat.zero_le 1) (Nat.le_refl 1) hview
      have hview := s.kernelViewFrom_one_congr hkfuzz' hargs' hdata' (hlen ▸ hlt) hlen.symm
        (show c = { c' with args := s.args data } by rw [← hargs, hc']) hview'
      rw [← hpolicy]
      exact hsafe env w rt view' hview

end

/-! ## All rules -/

/-- The kernel gets no real-time policy exactly if the rule sees the policy. -/
lemma schedSetattr_safe_iff (hc : LinuxCall target c)
    (hrule : LinuxRule.ofCallName c.callMeta.callName = some .schedSetattr)
    (h : amd64.neutralizeLinux c = .ok c') :
    (∀ env w rt view, kernelView env target w rt c' = some view → view.policy ∉ [1, 2]) ↔
      PolicySeen target c := by
  have hkfuzz := hc.notKFuzz (.inr (by rw [hrule]; simp))
  simp only [Arch.neutralizeLinux, hrule] at h
  obtain ⟨arg, arg', hget, harg, hc'⟩ := updateArg_eq_ok_iff.1 h
  obtain ⟨hshape, hruns⟩ := hc.schedSetattr hrule
  generalize hargs : c.args = args at hshape
  cases hshape with
  | @mk pid id dir t address res flagsId flagsDir flagsTyp flags hattr hplain =>
  have hptr : arg = .pointer id dir (.ptr t) address 0 res := by
    rw [hargs] at hget
    exact (Option.some.inj hget).symm
  subst hptr
  cases harg
  have hsame : c' = { c with args := c'.args } := by rw [hc']
  have hkfuzz' : c'.callMeta.kfuzzTest = false := by
    rw [hsame]
    exact hkfuzz
  cases res with
  | none =>
    have hargs' : c'.args = schedArgs pid id dir t 0 none flagsId flagsDir flagsTyp flags := by
      rw [hc', hargs]
      rfl
    have hseen : PolicySeen target c := by
      simp only [PolicySeen, hargs]
      trivial
    refine iff_of_true (fun env w rt view hview => ?_) hseen
    rw [policy_null hkfuzz' hplain hargs' hview]
    decide
  | some pointee =>
    cases hattr pointee rfl with
    | struct hoverlay hsizes hfields =>
      exact struct_safe_iff hkfuzz' hplain hsame hargs hoverlay hsizes hfields hruns
        (by rw [hc', hargs]; rfl)
    | squashed hunions hany hresources hblobs =>
      exact squashed_safe_iff hkfuzz' hplain hsame hargs hkfuzz hunions ⟨hany, hresources⟩ hblobs
        (by rw [hc', hargs]; rfl)

/-- A neutralized call requests nothing dangerous, and neutralizing it again changes nothing, exactly
if the rule for `sched_setattr` sees the policy. -/
theorem neutralize_safe_iff (hc : LinuxCall target c) (hmknod : ¬ MknodExcluded c)
    (h : amd64.neutralize c = .ok c') :
    (∀ env w rt view, kernelView env target w rt c' = some view →
        ¬ Requests view c'.callMeta.callName) ∧ amd64.neutralize c' = .ok c' ↔
      (LinuxRule.ofCallName c.callMeta.callName = some .schedSetattr → PolicySeen target c) := by
  have hidem := neutralize_idem h
  simp only [hidem, and_true]
  obtain ⟨rule, hrule, h⟩ | ⟨rule, hrule, h⟩ | ⟨hunix, hlinux, h⟩ := neutralize_eq_ok_iff.1 h
  · have hlinux := linuxRule_of_unixRule hrule
    rw [callMeta_unix h]
    refine iff_of_true (fun env w rt view hview => ?_) (by simp [hlinux])
    simp only [Requests, hrule, hlinux, Option.some.injEq, exists_eq_left', reduceCtorEq, false_and,
      exists_false, or_false]
    exact unix_not_requests hc hmknod hrule h hview
  · have hunix : UnixRule.ofCallName c.callMeta.callName = none := by
      cases hunix : UnixRule.ofCallName c.callMeta.callName with
      | none => rfl
      | some rule' =>
        rw [linuxRule_of_unixRule hunix] at hrule
        cases hrule
    rw [callMeta_linux h]
    simp only [Requests, hrule, hunix, Option.some.injEq, exists_eq_left', reduceCtorEq, false_and,
      exists_false, false_or]
    by_cases hsched : rule = .schedSetattr
    · subst hsched
      simpa only [forall_const, LinuxRule.Requests] using schedSetattr_safe_iff hc hrule h
    · refine iff_of_true (fun env w rt view hview => ?_) (fun heq => absurd heq hsched)
      exact linux_not_requests hc hrule hsched h hview
  · rw [callMeta_variant h]
    refine iff_of_true (fun env w rt view hview => ?_) (by simp [hlinux])
    simp [Requests, hunix, hlinux]

/-! ## Examples -/

def schedTarget : Target :=
  { syscalls := [{ id := 0, name := "sched_setattr" }]
    dataOffset := 0x20000000
    specialPointers := [0] }

lemma visit_id_perm (l : List (Arg × CsumInfo)) : (id l).Perm l := .refl l

def noBlobs : ExecEnv where
  visit := id
  visit_perm := visit_id_perm
  marshallKFuzztestArg := fun _ => []

def nativeInt (size : UInt64) : ScalarType :=
  .int { typeName := "int", typeSize := size, argFormat := .formatNative, bitfieldOff := 0
         bitfieldLen := 0, bitfieldUnit := 0, bitfieldUnitOff := 0 }

def schedFields (policy : UInt64) : List Arg :=
  [.const 3 .dirIn (nativeInt 4) 56, .const 4 .dirIn (nativeInt 4) policy,
    .const 5 .dirIn (nativeInt 8) 0, .const 6 .dirIn (nativeInt 4) 0,
    .const 7 .dirIn (nativeInt 4) 1, .const 8 .dirIn (nativeInt 8) 0,
    .const 9 .dirIn (nativeInt 8) 0, .const 10 .dirIn (nativeInt 8) 0,
    .const 11 .dirIn (nativeInt 4) 0, .const 12 .dirIn (nativeInt 4) 0]

def schedStruct : StructType :=
  { typeName := "sched_attr", typeSize := 56, isVarlen := false, fields := [], alignAttr := 0
    overlayField := 0 }

def pidType : ResourceType :=
  { typeName := "pid", typeSize := 4, argFormat := .formatNative
    desc := { name := "pid", values := [0], values_ne_nil := by decide } }

/-- `sched_setattr(0, &attr, 0)` -/
def schedCall (policy : UInt64) : Call where
  callMeta := { id := 0, name := "sched_setattr" }
  args :=
    [.result { id := 0, dir := .dirIn, typ := pidType, res := none, opDiv := 0, opAdd := 0, val := 0
               uses := [] },
      .pointer 1 .dirIn (.ptr { typeName := "ptr", typeSize := 8 }) 0 0
        (some (.group 2 .dirIn (.struct schedStruct) (schedFields policy))),
      .const 13 .dirIn (nativeInt 8) 0]
  ret := none
  props := .zero

def schedRuntime : Runtime := { procid := 0, dataOffset := 0x20000000, results := fun _ => none }

variable (policy : UInt64)

lemma callName_schedCall : (schedCall policy).callMeta.callName = "sched_setattr" := by
  show Syscall.callName { id := 0, name := "sched_setattr" } = _
  decide

/-- The call is one of the descriptions. -/
lemma linuxCall_schedCall : LinuxCall schedTarget (schedCall policy) where
  kfuzzTest := by simp [schedCall]
  unix := by
    intro _ rule hrule
    rw [callName_schedCall] at hrule
    cases hrule
  linux := by
    intro rule hrule i hi
    rw [callName_schedCall] at hrule
    cases hrule
    cases hi
  schedSetattr := by
    intro _
    refine ⟨.mk ?_ (by decide), noBlobs, .init, schedRuntime, _, rfl⟩
    intro pointee hpointee
    cases hpointee
    refine .struct rfl rfl ?_
    simp only [schedFields, forall_mem_cons]
    repeat' first | exact ⟨_, _, _, _, rfl, by decide⟩ | constructor
    intro field hfield
    cases hfield

lemma not_mknodExcluded_schedCall : ¬ MknodExcluded (schedCall policy) := by
  intro ⟨pos, dev, hrule, _⟩
  rw [callName_schedCall] at hrule
  cases hrule

lemma neutralize_schedCall :
    amd64.neutralize (schedCall policy) = .ok (schedCall (clearPolicy policy)) := by
  have hrule : LinuxRule.ofCallName (schedCall policy).callMeta.callName = some .schedSetattr := by
    rw [callName_schedCall]
    rfl
  refine neutralize_eq_ok_iff.2 (.inr (.inl ⟨.schedSetattr, hrule, ?_⟩))
  rw [Arch.neutralizeLinux, hrule]
  rfl

theorem neutralize_safe_schedCall :
    ∃ c' view, amd64.neutralize (schedCall 1) = .ok c' ∧
      kernelView noBlobs schedTarget .init schedRuntime c' = some view ∧
      ¬ Requests view c'.callMeta.callName := by
  have hneutral : amd64.neutralize (schedCall 1) = .ok (schedCall 0) := neutralize_schedCall 1
  have hseen : PolicySeen schedTarget (schedCall 1) := .inr (.inr (by decide))
  have hsafe := ((neutralize_safe_iff (linuxCall_schedCall 1) (not_mknodExcluded_schedCall 1)
    hneutral).mpr fun _ => hseen).1
  exact ⟨schedCall 0, _, hneutral, rfl, hsafe noBlobs .init schedRuntime _ rfl⟩

/-- A policy with bits above the low half passes the rule, and the kernel gets `SCHED_FIFO`. -/
theorem neutralize_schedCall_fifo :
    ∃ c' view, LinuxCall schedTarget (schedCall 0x100000001) ∧
      ¬ MknodExcluded (schedCall 0x100000001) ∧
      amd64.neutralize (schedCall 0x100000001) = .ok c' ∧
      kernelView noBlobs schedTarget .init schedRuntime c' = some view ∧
      Requests view c'.callMeta.callName := by
  have hneutral : amd64.neutralize (schedCall 0x100000001) = .ok (schedCall 0x100000001) :=
    neutralize_schedCall 0x100000001
  refine ⟨_, _, linuxCall_schedCall _, not_mknodExcluded_schedCall _, hneutral, rfl, ?_⟩
  refine .inr ⟨.schedSetattr, by rfl, ?_⟩
  show KernelView.policy _ ∈ [1, 2]
  decide +kernel

end KConfuzz.Linux
