import KConfuzz.Executor.CopyinTheorems
import KConfuzz.Linux.KernelViewTheorems
import KConfuzz.Linux.NeutralizeTheorems

/-!
# The policy that `sched_setattr` stores

The only argument of `sched_setattr` with memory is the `sched_attr` that it points to, so its
copyins are those of the pointee (`schedCopyins`). For a struct, the stored policy is the low half
of the policy constant (`policy_struct`). For a squashed struct, clearing the first 16 bytes of
the leading blob has the same effect on the policy as leaving out the copyin of the blob
(`policy_clearHead`).
-/

namespace KConfuzz.Linux

open Executor Lib.ByteMemory Lib.ExceptFold Lib.LittleEndian List Arg

variable {env : ExecEnv} {target : Target} {w w' : ExecContext} {rt : Runtime} {skip : ℕ}
  {sums : Checksums} {view : KernelView} {out : List CopyinInstr} {typ : ScalarType}

/-! ## Calls without checksums -/

/-- No argument of the call is a checksum. -/
def NoCsum (c : Call) : Prop :=
  ∀ visit ∈ foreachArg c, ∀ id dir t val, visit.1 ≠ .const id dir (.csum t) val

lemma calcChecksumsCall_of_noCsum {c : Call} (h : NoCsum c) : calcChecksumsCall c = .ok .empty := by
  have hnone : ∀ kind, ((foreachArg c).map Prod.fst).filterMap (csumField? kind) = [] := by
    intro kind
    rw [filterMap_eq_nil_iff]
    refine forall_mem_map.mpr fun visit hvisit => ?_
    unfold csumField?
    split
    · rename_i id dir t val heq
      exact absurd heq (h visit hvisit id dir t val)
    · rfl
  simp only [calcChecksumsCall, hnone]
  rfl

lemma writeChecksums_empty (addr : ArgId → UInt64) : writeChecksums env .empty addr = [] := by
  have hvisit : env.visit [] = [] := (env.visit_perm []).eq_nil
  show ((Lib.StableSort.sliceStable _ (env.visit [])).reverse.map _) = []
  rw [hvisit]
  rfl

/-- Two calls that differ in their copyins only. -/
structure SameButCopyins (target : Target) (c c' : Call) : Prop where
  callMeta : c'.callMeta = c.callMeta
  kfuzzTest : c.callMeta.kfuzzTest = false
  ret : c'.ret = c.ret
  props : c'.props = c.props
  noCsum : NoCsum c
  noCsum' : NoCsum c'
  args : ∀ w, c'.args.mapM (writeArg target w) = c.args.mapM (writeArg target w)
  copyout : ∀ w, writeCopyout w c' = writeCopyout w c

/-- Calls that differ in their copyins serialize to the rest alike. -/
lemma SameButCopyins.serializeCall_eq {c c' : Call} (h : SameButCopyins target c c')
    {e : EncodedCall} (hser : serializeCall env target w c = .ok (e, w')) :
    ∃ w₁, writeCopyin target .empty w c = .ok (e.copyin, w₁) ∧
      ∀ out, writeCopyin target .empty w c' = .ok (out, w₁) →
        serializeCall env target w c' = .ok ({ e with copyin := out }, w') := by
  have hret : ∀ w, writeRet w c' = writeRet w c := by
    intro w
    simp only [writeRet, h.ret]
  simp only [serializeCall, calcChecksumsCall_of_noCsum h.noCsum, h.kfuzzTest, Except.mapError,
    bind_eq_ok_iff, Except.ok.injEq, exists_eq_left', Bool.false_eq_true, if_false,
    writeChecksums_empty, append_nil] at hser
  obtain ⟨⟨out, w₁⟩, hcopyin, ⟨idx, w₂⟩, hwret, args, hargs, ⟨copyout, w₃⟩, hcopyout, he⟩ := hser
  cases he
  refine ⟨w₁, hcopyin, fun out' hout' => ?_⟩
  simp only [serializeCall, calcChecksumsCall_of_noCsum h.noCsum', h.kfuzzTest, Except.mapError,
    bind_eq_ok_iff, Except.ok.injEq, exists_eq_left', Bool.false_eq_true, if_false,
    writeChecksums_empty, append_nil, h.props, h.callMeta]
  exact ⟨⟨out', w₁⟩, hout', ⟨idx, w₂⟩, (hret w₁).trans hwret, args, (h.args w₂).trans hargs,
    ⟨copyout, w₃⟩, (h.copyout w₂).trans hcopyout, rfl⟩

/-! ## The copyins of the pointee -/

lemma policy_of_mem {address : UInt64} {mem : Memory} (harg : view.arg 1 = address + rt.dataOffset)
    (hmem : view.mem = fun x => mem (x - rt.dataOffset)) :
    view.policy = ofLE (load mem (address + 4) 4) := by
  rw [KernelView.policy, harg, hmem]
  congr 1
  apply map_congr_left
  intro i _
  show mem (address + rt.dataOffset + 4 + UInt64.ofNat i - rt.dataOffset) = _
  rw [UInt64.add_assoc address, UInt64.add_comm rt.dataOffset, ← UInt64.add_assoc address,
    UInt64.add_assoc (address + 4), UInt64.add_comm rt.dataOffset, ← UInt64.add_assoc,
    UInt64.add_sub_cancel]

lemma emitAll_copyinArg_outside {visits : List (Arg × ArgCtx)}
    (h : ∀ visit ∈ visits, visit.2.base = none) :
    emitAll (copyinArg target sums) w visits = .ok ([], w) := by
  induction visits with
  | nil => rfl
  | cons visit visits ih =>
    obtain ⟨hfirst, hrest⟩ := forall_mem_cons.mp h
    have hnone : copyinArg target sums w visit = .ok ([], w) := by
      obtain ⟨arg, ctx⟩ := visit
      simp only [copyinArg, show ctx.base = none from hfirst]
    exact emitAll_cons_eq_ok_iff.2 ⟨[], w, [], hnone, ih hrest, rfl⟩

/-- The arguments of `sched_setattr`: a pid, a pointer to attributes, and flags. -/
def schedArgs (pid : ResultArg) (id : ArgId) (dir : Dir) (t : TypeCommon) (address : UInt64)
    (res : Option Arg) (flagsId : ArgId) (flagsDir : Dir) (flagsTyp : ScalarType)
    (flags : UInt64) : List Arg :=
  [.result pid, .pointer id dir (.ptr t) address 0 res, .const flagsId flagsDir flagsTyp flags]

/-- The visits before the memory of the call. -/
def schedBefore (ret : Option ResultArg) (pid : ResultArg) (ptr : Arg) : List (Arg × ArgCtx) :=
  (ret.map fun r => (.result r, ⟨none, 0⟩)).toList ++ [(.result pid, ⟨none, 0⟩), (ptr, ⟨none, 0⟩)]

section

variable {c : Call} {pid : ResultArg} {id flagsId : ArgId} {dir flagsDir : Dir} {t : TypeCommon}
  {address flags : UInt64} {res : Option Arg} {flagsTyp : ScalarType}

lemma mem_schedBefore {ret : Option ResultArg} {visit : Arg × ArgCtx}
    (h : visit ∈ schedBefore ret pid (.pointer id dir (.ptr t) address 0 res)) :
    visit.2.base = none ∧ ∀ id dir typ val, visit.1 ≠ .const id dir typ val := by
  simp only [schedBefore, mem_append, Option.mem_toList, Option.map_eq_some_iff, mem_cons,
    not_mem_nil, or_false] at h
  obtain ⟨r, -, rfl⟩ | rfl | rfl := h
  all_goals exact ⟨rfl, by simp⟩

variable (hargs : c.args = schedArgs pid id dir t address res flagsId flagsDir flagsTyp flags)

include hargs

lemma foreachArg_schedArgs : foreachArg c =
    schedBefore c.ret pid (.pointer id dir (.ptr t) address 0 res) ++
      (foreachPointee address res ++ [(.const flagsId flagsDir flagsTyp flags, ⟨none, 0⟩)]) := by
  cases hret : c.ret <;> simp [foreachArg, schedBefore, hargs, hret, schedArgs, foreachArgImpl]

lemma noCsum_schedArgs (hflags : isPlain flagsTyp = true)
    (h : ∀ visit ∈ foreachPointee address res, ∀ id dir t val,
      visit.1 ≠ .const id dir (.csum t) val) : NoCsum c := by
  intro visit hvisit id' dir' t' val'
  rw [foreachArg_schedArgs hargs, mem_append, mem_append, mem_singleton] at hvisit
  obtain hvisit | hvisit | rfl := hvisit
  · exact (mem_schedBefore hvisit).2 id' dir' _ val'
  · exact h visit hvisit id' dir' t' val'
  · intro heq
    cases heq
    cases hflags

/-- Only the pointee is copied in. -/
lemma writeCopyin_schedArgs :
    writeCopyin target sums w c = .ok (out, w') ↔
      emitAll (copyinArg target sums) w (foreachPointee address res) = .ok (out, w') := by
  have hflags : ∀ w, emitAll (copyinArg target sums) w
      [(.const flagsId flagsDir flagsTyp flags, ⟨none, 0⟩)] = .ok ([], w) :=
    fun w => emitAll_copyinArg_outside (by simp)
  have hbefore : emitAll (copyinArg target sums) w
      (schedBefore c.ret pid (.pointer id dir (.ptr t) address 0 res)) = .ok ([], w) :=
    emitAll_copyinArg_outside fun visit hvisit => (mem_schedBefore hvisit).1
  rw [writeCopyin, foreachArg_schedArgs hargs, emitAll_append_eq_ok_iff]
  constructor
  · intro ⟨out₁, w₁, out₂, hout₁, hrest, hout⟩
    rw [hbefore] at hout₁
    cases hout₁
    obtain ⟨out₃, w₂, out₄, hpointee, hlast, rfl⟩ := emitAll_append_eq_ok_iff.1 hrest
    rw [hflags] at hlast
    cases hlast
    rw [hout, nil_append, append_nil]
    exact hpointee
  · intro hpointee
    refine ⟨[], w, out, hbefore, ?_, rfl⟩
    exact emitAll_append_eq_ok_iff.2 ⟨out, w', [], hpointee, hflags w', by simp⟩

/-- The kernel sees the address of the pointee. -/
lemma arg_pointer (hkfuzz : c.callMeta.kfuzzTest = false) (hres : res.isSome = true)
    (hview : kernelViewFrom env target w rt skip c = some view) :
    view.arg 1 = address + rt.dataOffset := by
  obtain ⟨e, w', mem, hser, -, hregs, -⟩ := kernelViewFrom_eq_some_iff.1 hview
  obtain ⟨k, hskeleton, rfl⟩ := serializeCall_eq_ok hkfuzz hser
  obtain ⟨w₁, w₂, -, -, -, -, hwritten, -⟩ := skeleton_eq_ok hskeleton
  have hget : c.args[1]? = some (.pointer id dir (.ptr t) address 0 res) := by
    rw [hargs]
    rfl
  obtain ⟨written, hwrite, hget⟩ := getElem?_of_mapM hwritten hget
  obtain ⟨v, hread, hget⟩ := getElem?_of_mapM hregs hget
  have hphys : physicalAddr target address 0 res.isSome = .ok (target.dataOffset + address) := by
    simp [physicalAddr, isSpecial, hres]
  have haddr : target.dataOffset + address - target.dataOffset = address := by
    rw [UInt64.add_comm, UInt64.add_sub_cancel]
  have hv : v = address + rt.dataOffset := by
    simp only [writeArg, hphys, haddr] at hwrite
    split_ifs at hwrite <;> cases hwrite <;> cases hread <;> rfl
  rw [KernelView.arg, getD_eq_getElem?_getD, hget, hv]
  rfl

/-- The memory that the kernel sees is what the copyins of the pointee leave. -/
lemma mem_eq (hkfuzz : c.callMeta.kfuzzTest = false) (hcsum : NoCsum c)
    (hview : kernelViewFrom env target w rt skip c = some view) :
    ∃ out w₁ mem, emitAll (copyinArg target .empty) w (foreachPointee address res) = .ok (out, w₁) ∧
      execCopyins rt (fun _ => 0) (out.drop skip) = .ok mem ∧
      view.mem = fun x => mem (x - rt.dataOffset) := by
  obtain ⟨e, w', mem, hser, hexec, -, hmem⟩ := kernelViewFrom_eq_some_iff.1 hview
  have hsame : SameButCopyins target c c :=
    ⟨rfl, hkfuzz, rfl, rfl, hcsum, hcsum, fun _ => rfl, fun _ => rfl⟩
  obtain ⟨w₁, hcopyin, -⟩ := hsame.serializeCall_eq hser
  exact ⟨e.copyin, w₁, mem, (writeCopyin_schedArgs hargs).mp hcopyin, hexec, hmem⟩

end

/-! ## The struct -/

lemma storeArg_plain {size : UInt64} (h : size ∈ [1, 2, 4, 8]) (mem : Memory) (addr val : UInt64) :
    storeArg rt mem addr (.const size val) = store mem addr (toLE size.toNat val.toNat) := by
  have hvalue : ∀ info : UInt64, info >>> 32 = 0 → readConstArg rt info val = val := by
    intro info hstride
    rw [readConstArg, hstride, UInt64.zero_mul, UInt64.add_zero]
  simp only [mem_cons, not_mem_nil, or_false] at h
  obtain rfl | rfl | rfl | rfl := h
  all_goals
    rw [storeArg, hvalue _ (by decide)]
    rfl

lemma extent_plain {size : UInt64} (h : size ∈ [1, 2, 4, 8]) (val : UInt64) :
    extent (.const size val) = size.toNat := by
  simp only [mem_cons, not_mem_nil, or_false] at h
  obtain rfl | rfl | rfl | rfl := h <;> rfl

lemma copyinArg_plain (h : isPlain typ = true) (id : ArgId) (dir : Dir) (val base offset : UInt64) :
    copyinArg target .empty w (.const id dir typ val, ⟨some base, offset⟩) =
      .ok (if dir = .dirOut then [] else [⟨base + offset, .const typ.common.typeSize val⟩], w) := by
  obtain ⟨-, -, -, -, hunit, hsize⟩ := isPlain_iff.1 h
  have haddr : copyinAddr target (.const id dir typ val) base offset = base + offset := by
    rw [copyinAddr, unitOffset, hunit, UInt64.sub_zero, UInt64.add_comm target.dataOffset,
      UInt64.add_sub_cancel]
  have hne : (typ.common.typeSize == 0) = false := by
    simp only [mem_cons, not_mem_nil, or_false] at hsize
    obtain hsize | hsize | hsize | hsize := hsize <;> rw [hsize] <;> rfl
  by_cases hdir : dir = .dirOut
  · simp [copyinArg, willBeUsed, Arg.result?, Checksums.empty, skipsCopyin, Arg.dir, hdir]
  · simp [copyinArg, willBeUsed, Arg.result?, Checksums.empty, skipsCopyin, Arg.dir, hdir, Arg.isPad,
      isPad_of_isPlain h, Arg.size, hne, haddr, writeArg_plain h]
    rfl

/-- The copyins of the plain fields from an offset on. -/
def fieldCopyins (address : UInt64) : UInt64 → List Arg → List CopyinInstr
  | offset, .const _ dir typ val :: fields =>
    (if dir = .dirOut then [] else [⟨address + offset, .const typ.common.typeSize val⟩]) ++
      fieldCopyins address (offset + typ.common.typeSize) fields
  | _, _ => []

/-- The fields are plain integers. -/
def PlainFields (fields : List Arg) : Prop :=
  ∀ field ∈ fields, ∃ id dir typ val, field = .const id dir typ val ∧ isPlain typ

variable {fields : List Arg} {offset : UInt64} {st : StructType}

section

variable (h : PlainFields fields)

include h

/-- One copyin for each field that is not an output. -/
lemma emitAll_plainFields (address : UInt64) {i : ℕ} (hi : i = 0 → offset = 0) :
    emitAll (copyinArg target .empty) w (foreachInner ⟨some address, 0⟩ 0 i offset fields) =
      .ok (fieldCopyins address offset fields, w) := by
  induction fields generalizing offset i with
  | nil => rfl
  | cons field fields ih =>
    obtain ⟨⟨id, dir, typ, val, rfl, hplain⟩, hrest⟩ := forall_mem_cons.mp h
    have hoffset : (if i = 0 then 0 else offset) = offset := by
      split_ifs with h0
      · exact (hi h0).symm
      · rfl
    have hvisits : foreachInner ⟨some address, 0⟩ 0 i offset (.const id dir typ val :: fields) =
        (.const id dir typ val, ⟨some address, offset⟩) ::
          foreachInner ⟨some address, 0⟩ 0 (i + 1) (offset + typ.common.typeSize) fields := by
      simp [foreachInner, foreachArgImpl, size, hoffset]
    rw [hvisits]
    exact emitAll_cons_eq_ok_iff.2 ⟨_, w, _, copyinArg_plain hplain .., ih hrest (by simp), rfl⟩

lemma emitAll_struct (hoverlay : st.overlayField = 0) (gid : ArgId)
    (gdir : Dir) (address : UInt64) :
    emitAll (copyinArg target .empty) w
      (foreachPointee address (some (.group gid gdir (.struct st) fields))) =
        .ok (fieldCopyins address 0 fields, w) := by
  have hgroup : copyinArg target .empty w (.group gid gdir (.struct st) fields, ⟨some address, 0⟩) =
      .ok ([], w) := rfl
  rw [foreachPointee, foreachArgImpl, hoverlay]
  exact emitAll_cons_eq_ok_iff.2 ⟨[], w, _, hgroup, emitAll_plainFields h address fun _ => rfl, rfl⟩

lemma ne_csum_of_plainFields {gid : ArgId} {gdir : Dir} {address : UInt64} :
    ∀ visit ∈ foreachPointee address (some (.group gid gdir (.struct st) fields)),
      ∀ id dir t val, visit.1 ≠ .const id dir (.csum t) val := by
  intro visit hvisit id dir t val heq
  have hmem := mem_map_of_mem (f := Prod.fst) hvisit
  rw [map_fst_foreachPointee, subtreeOf, subtree, subtrees_eq_flatMap, heq] at hmem
  obtain heq | hmem := mem_cons.mp hmem
  · cases heq
  · obtain ⟨field, hfield, hmem⟩ := mem_flatMap.mp hmem
    obtain ⟨_, _, _, _, rfl, hplain⟩ := h field hfield
    rw [subtree, mem_singleton] at hmem
    cases hmem
    cases hplain

/-- Each copyin is inside the struct. -/
lemma mem_fieldCopyins {address : UInt64}
    (hfit : offset.toNat + (fields.map fun field => field.size.toNat).sum < 2 ^ 64)
    {i : CopyinInstr} (hi : i ∈ fieldCopyins address offset fields) :
    ∃ k, offset.toNat ≤ k ∧ k + extent i.arg < 2 ^ 64 ∧ i.addr = address + UInt64.ofNat k := by
  induction fields generalizing offset with
  | nil => simp [fieldCopyins] at hi
  | cons field fields ih =>
    obtain ⟨⟨id, dir, typ, val, rfl, hplain⟩, hrest⟩ := forall_mem_cons.mp h
    have hsize := (isPlain_iff.1 hplain).2.2.2.2.2
    rw [map_cons, sum_cons, size] at hfit
    have hnext : (offset + typ.common.typeSize).toNat = offset.toNat + typ.common.typeSize.toNat := by
      rw [UInt64.toNat_add, Nat.mod_eq_of_lt (by omega)]
    rw [fieldCopyins, mem_append] at hi
    obtain hi | hi := hi
    · split_ifs at hi
      · cases hi
      · obtain rfl := mem_singleton.mp hi
        refine ⟨offset.toNat, Nat.le_refl _, ?_, ?_⟩
        · rw [extent_plain hsize]
          omega
        · rw [UInt64.ofNat_toNat]
    · obtain ⟨k, hk, hk', haddr⟩ := ih hrest (by omega) hi
      exact ⟨k, by omega, hk', haddr⟩

end

/-- The memory after the copyins of a `sched_attr`. -/
lemma load_policy {first : Arg} {id : ArgId} {dir : Dir} {val : UInt64} {rest : List Arg}
    (hplain : PlainFields (first :: .const id dir typ val :: rest))
    (hsizes : (first :: .const id dir typ val :: rest).map size = schedAttrSizes)
    {address : UInt64} {mem : Memory} (hexec : execCopyins rt (fun _ => 0)
      (fieldCopyins address 0 (first :: .const id dir typ val :: rest)) = .ok mem) :
    ofLE (load mem (address + 4) 4) = if dir = .dirOut then 0 else (truncated val).toNat := by
  obtain ⟨⟨id₀, dir₀, typ₀, val₀, rfl, -⟩, hfields⟩ := forall_mem_cons.mp hplain
  have hrest : PlainFields rest := (forall_mem_cons.mp hfields).2
  simp only [map_cons, size, schedAttrSizes, List.cons.injEq] at hsizes
  obtain ⟨hsize₀, hsize, hsizes⟩ := hsizes
  rw [fieldCopyins, fieldCopyins, hsize₀, hsize, execCopyins_append_eq_ok_iff] at hexec
  obtain ⟨mem₁, hexec₁, hexec⟩ := hexec
  obtain ⟨mem₂, hexec₂, hexec₃⟩ := execCopyins_append_eq_ok_iff.1 hexec
  -- the first field ends where the policy begins
  have hmem₁ : load mem₁ (address + 4) 4 = [0, 0, 0, 0] := by
    rw [load_execCopyins_of_apart hexec₁ (by decide)]
    · rfl
    · intro i hi
      split_ifs at hi
      · cases hi
      · obtain rfl := mem_singleton.mp hi
        rw [extent_plain (by decide)]
        exact (apart_of_offsets (i := 0) (j := 4) address (by decide) (by decide)).symm
  -- and the others begin behind it
  have hmem : load mem (address + 4) 4 = load mem₂ (address + 4) 4 := by
    apply load_execCopyins_of_apart hexec₃ (by decide)
    intro i hi
    have hfit : ((0 : UInt64) + 4 + 4).toNat + (rest.map fun field => field.size.toNat).sum < 2 ^ 64 := by
      have hsum : rest.map (fun field => field.size.toNat) = (rest.map size).map UInt64.toNat := by
        rw [map_map]
        rfl
      rw [hsum, hsizes]
      decide
    obtain ⟨k, hk, hk', haddr⟩ := mem_fieldCopyins hrest hfit hi
    rw [haddr]
    have hk8 : 8 ≤ k := hk
    exact apart_of_offsets (i := 4) address (by omega) (by omega)
  rw [hmem]
  by_cases hdir : dir = .dirOut
  · rw [if_pos hdir] at hexec₂ ⊢
    cases hexec₂
    rw [hmem₁]
    rfl
  · rw [if_neg hdir] at hexec₂ ⊢
    cases hexec₂
    have hload : load (store mem₁ (address + 4) (toLE 4 val.toNat)) (address + 4)
        (toLE 4 val.toNat).length = toLE 4 val.toNat := load_store_self mem₁ _ (by simp [length_toLE])
    rw [length_toLE] at hload
    rw [UInt64.zero_add, storeArg_plain (by decide)]
    show ofLE (load (store mem₁ (address + 4) (toLE 4 val.toNat)) (address + 4) 4) = _
    rw [hload, ofLE_toLE]
    rfl

section

variable {c : Call} {pid : ResultArg} {id flagsId : ArgId} {dir flagsDir : Dir} {t : TypeCommon}
  {address flags : UInt64} {flagsTyp : ScalarType} (hkfuzz : c.callMeta.kfuzzTest = false)
  (hflags : isPlain flagsTyp = true)

include hkfuzz hflags

lemma policy_struct {gid fieldId : ArgId} {gdir fieldDir : Dir} {first : Arg} {val : UInt64}
    {rest : List Arg} (hargs : c.args = schedArgs pid id dir t address
      (some (.group gid gdir (.struct st) (first :: .const fieldId fieldDir typ val :: rest)))
      flagsId flagsDir flagsTyp flags) (hoverlay : st.overlayField = 0)
    (hplain : PlainFields (first :: .const fieldId fieldDir typ val :: rest))
    (hsizes : (first :: .const fieldId fieldDir typ val :: rest).map size = schedAttrSizes)
    (hview : kernelView env target w rt c = some view) :
    view.policy = if fieldDir = .dirOut then 0 else (truncated val).toNat := by
  have hcsum : NoCsum c := noCsum_schedArgs hargs hflags (ne_csum_of_plainFields hplain)
  obtain ⟨out, w₁, mem, hemit, hexec, hmem⟩ := mem_eq hargs hkfuzz hcsum hview
  rw [emitAll_struct hplain hoverlay] at hemit
  cases hemit
  rw [policy_of_mem (arg_pointer hargs hkfuzz rfl hview) hmem]
  exact load_policy hplain hsizes hexec

lemma policy_null
    (hargs : c.args = schedArgs pid id dir t address none flagsId flagsDir flagsTyp flags)
    (hview : kernelView env target w rt c = some view) : view.policy = 0 := by
  have hcsum : NoCsum c := noCsum_schedArgs hargs hflags (by simp [foreachPointee])
  obtain ⟨out, w₁, mem, hemit, hexec, hmem⟩ := mem_eq hargs hkfuzz hcsum hview
  cases hemit
  cases hexec
  rw [KernelView.policy, hmem]
  rfl

end

/-! ## The squashed struct -/

/-- The elements of a squashed struct: no constants, small resources. -/
structure AnyElems (elems : List Arg) : Prop where
  notConst : ∀ node ∈ Arg.subtrees elems, ∀ id dir typ val, node ≠ .const id dir typ val
  resources : ∀ r, .result r ∈ Arg.subtrees elems → r.typ.typeSize ≤ 23

lemma shiftRight_eq_zero {n : UInt64} (hn : n.toNat < 64) {info : UInt64}
    (h : info.toNat < 2 ^ n.toNat) : info >>> n = 0 := by
  apply UInt64.toNat_inj.mp
  rw [UInt64.toNat_shiftRight, Nat.mod_eq_of_lt hn, Nat.shiftRight_eq_div_pow, Nat.div_eq_of_lt h]
  rfl

/-- What is copied in for such elements stores bytes of its own. -/
lemma AnyElems.pointwise {elems : List Arg} (h : AnyElems elems) {ctx : ArgCtx} {overlay i : ℕ}
    (hemit : emitAll (copyinArg target sums) w (foreachInner ctx overlay i offset elems) =
      .ok (out, w')) : ∀ instr ∈ out, Pointwise instr.arg := by
  intro instr hinstr
  obtain ⟨⟨arg, argCtx⟩, hvisit, hcopyin⟩ := mem_emitAll_copyinArg hemit instr hinstr
  have hnode : arg ∈ subtrees elems := by
    rw [← map_fst_foreachInner ctx overlay i offset elems]
    exact mem_map_of_mem (f := Prod.fst) hvisit
  obtain ⟨w₁, hwritten⟩ := hcopyin.written
  have hskip := hcopyin.not_skipped
  cases arg with
  | const id dir typ val => exact absurd rfl (h.notConst _ hnode id dir typ val)
  | pointer id dir typ address vmaSize res =>
    rw [writeArg] at hwritten
    split at hwritten
    · cases hwritten
    · split_ifs at hwritten <;> rw [← Except.ok.inj hwritten]
      all_goals exact fun _ _ _ _ _ h => store_pointwise h ..
  | data id dir typ data size =>
    rw [writeArg] at hwritten
    split_ifs at hwritten
    rw [← Except.ok.inj hwritten]
    exact fun _ _ _ _ _ h => store_pointwise h ..
  | group id dir typ inner => cases hskip
  | union id dir typ option index => cases hskip
  | result r =>
    rw [writeArg] at hwritten
    split at hwritten
    · -- the size leaves the places of a bitfield empty
      have hsize := h.resources r hnode
      rw [← Except.ok.inj hwritten]
      have hinfo : (r.typ.typeSize ||| r.typ.argFormat.toUInt64 <<< 8).toNat < 2 ^ 16 := by
        have hsize' : r.typ.typeSize.toNat < 2 ^ 16 := by
          have hnat : r.typ.typeSize.toNat ≤ 23 := hsize
          omega
        have hformat : (r.typ.argFormat.toUInt64 <<< 8).toNat < 2 ^ 16 := by
          cases r.typ.argFormat <;> decide
        exact Nat.or_lt_two_pow hsize' hformat
      simp only [writeConstArg, UInt64.zero_shiftLeft, UInt64.or_zero]
      apply pointwise_const
      · rw [shiftRight_eq_zero (n := 16) (by decide) hinfo]
        rfl
      · rw [shiftRight_eq_zero (n := 24) (by decide) (Nat.lt_trans hinfo (by decide))]
        rfl
    · split at hwritten
      · cases hwritten
      · rw [← Except.ok.inj hwritten]
        exact fun _ _ _ _ _ h => copyin_pointwise h ..

/-- A `sched_setattr` with a squashed struct that begins with a blob, without the bytes of the
blob. -/
structure Squashed where
  pid : ResultArg
  id : ArgId
  dir : Dir
  t : TypeCommon
  address : UInt64
  groupId : ArgId
  groupDir : Dir
  groupTyp : ArrayType
  unionId : ArgId
  unionDir : Dir
  unionTyp : UnionType
  index : ℕ
  dataId : ArgId
  dataDir : Dir
  dataTyp : BufferType
  size : UInt64
  rest : List Arg
  flagsId : ArgId
  flagsDir : Dir
  flagsTyp : ScalarType
  flags : UInt64
  plain : isPlain flagsTyp = true
  any : AnyElems rest
  notOut : dataDir ≠ .dirOut

namespace Squashed

variable (s : Squashed) (data : List UInt8)

def blob : Arg := .data s.dataId s.dataDir s.dataTyp data s.size

def lead : Arg := .union s.unionId s.unionDir s.unionTyp (s.blob data) s.index

def pointee : Arg := .group s.groupId s.groupDir (.array s.groupTyp) (s.lead data :: s.rest)

def args : List Arg :=
  schedArgs s.pid s.id s.dir s.t s.address (some (s.pointee data)) s.flagsId s.flagsDir s.flagsTyp
    s.flags

/-- The visits behind the blob. -/
def restVisits : List (Arg × ArgCtx) :=
  foreachInner ⟨some s.address, 0⟩ 0 1 (0 + (s.lead data).size) s.rest

lemma foreachPointee_eq : foreachPointee s.address (some (s.pointee data)) =
    (s.pointee data, ⟨some s.address, 0⟩) :: (s.lead data, ⟨some s.address, 0⟩) ::
      (s.blob data, ⟨some s.address, 0⟩) :: s.restVisits data := by
  simp [foreachPointee, pointee, lead, blob, restVisits, foreachArgImpl, foreachInner]

variable {data} {data' : List UInt8}

lemma restVisits_congr (hlen : data'.length = data.length) :
    s.restVisits data' = s.restVisits data := by
  simp only [restVisits, lead, blob, Arg.size, hlen]

lemma skipsCopyin_blob (hdata : data ≠ []) (hlen : data.length < 2 ^ 64) :
    skipsCopyin (s.blob data) = false := by
  have hpos : data.length ≠ 0 := by simpa using hdata
  have hsize : UInt64.ofNat data.length ≠ 0 := by
    intro hzero
    have hnat := congrArg UInt64.toNat hzero
    rw [UInt64.toNat_ofNat_of_lt' hlen] at hnat
    exact hpos hnat
  simp [blob, skipsCopyin, Arg.dir, s.notOut, Arg.isPad, Arg.size, hdata, hsize]

/-- The data come first. -/
lemma emitAll_pointee (hdata : data ≠ []) (hlen : data.length < 2 ^ 64) :
    emitAll (copyinArg target .empty) w (foreachPointee s.address (some (s.pointee data))) =
        .ok (out, w') ↔
      ∃ tail, emitAll (copyinArg target .empty) w (s.restVisits data) = .ok (tail, w') ∧
        out = ⟨s.address, .data (isReadableDataType s.dataTyp) data⟩ :: tail := by
  have hgroup : ∀ w, copyinArg target .empty w (s.pointee data, ⟨some s.address, 0⟩) =
      .ok ([], w) := fun _ => rfl
  have hunion : ∀ w, copyinArg target .empty w (s.lead data, ⟨some s.address, 0⟩) =
      .ok ([], w) := fun _ => rfl
  have haddr : copyinAddr target (s.blob data) s.address 0 = s.address := by
    show target.dataOffset + s.address - target.dataOffset + 0 - 0 = s.address
    rw [UInt64.add_zero, UInt64.sub_zero, UInt64.add_comm, UInt64.add_sub_cancel]
  have hblob : ∀ w, copyinArg target .empty w (s.blob data, ⟨some s.address, 0⟩) =
      .ok ([⟨s.address, .data (isReadableDataType s.dataTyp) data⟩], w) := by
    intro w
    have hwritten : ∀ w, writeArg target w (s.blob data) =
        .ok (.data (isReadableDataType s.dataTyp) data) := by
      simp [blob, writeArg, s.notOut, hdata]
    have hunused : willBeUsed .empty (s.blob data) = false := rfl
    simp only [copyinArg, s.skipsCopyin_blob hdata hlen, haddr, hunused, hwritten]
    rfl
  rw [s.foreachPointee_eq]
  simp only [emitAll_cons_eq_ok_iff, hgroup, hunion, hblob, Except.ok.injEq, Prod.mk.injEq]
  constructor
  · rintro ⟨_, _, _, ⟨rfl, rfl⟩, ⟨_, _, _, ⟨rfl, rfl⟩, ⟨_, _, tail, ⟨rfl, rfl⟩, htail, rfl⟩, rfl⟩, hout⟩
    exact ⟨tail, htail, by simpa using hout⟩
  · rintro ⟨tail, htail, hout⟩
    exact ⟨[], w, _, ⟨rfl, rfl⟩, ⟨[], w, _, ⟨rfl, rfl⟩, ⟨_, w, tail, ⟨rfl, rfl⟩, htail, rfl⟩, rfl⟩,
      by simpa using hout⟩

lemma noCsum {c : Call} (hargs : c.args = s.args data) : NoCsum c := by
  apply noCsum_schedArgs hargs s.plain
  intro visit hvisit id' dir' t' val' heq
  have hmem := mem_map_of_mem (f := Prod.fst) hvisit
  rw [map_fst_foreachPointee, heq] at hmem
  simp only [subtreeOf, pointee, lead, blob, subtree, subtrees, mem_cons,
    mem_append, reduceCtorEq, false_or, not_mem_nil] at hmem
  exact s.any.notConst _ hmem _ _ _ _ rfl

/-- Another blob of the same length changes the copyin of the blob and nothing else. -/
lemma sameButCopyins {c : Call} (hkfuzz : c.callMeta.kfuzzTest = false)
    (hargs : c.args = s.args data) (hlen : data'.length = data.length) :
    SameButCopyins target c { c with args := s.args data' } := by
  refine ⟨rfl, hkfuzz, rfl, rfl, s.noCsum hargs, s.noCsum rfl, ?_, ?_⟩
  · intro w
    rw [hargs]
    rfl
  · apply emitAll_congr
    rw [foreachArg_schedArgs hargs, foreachArg_schedArgs rfl, s.foreachPointee_eq,
      s.foreachPointee_eq, s.restVisits_congr hlen]
    -- copyouts are for results only
    have hnone : ∀ arg : Arg, arg.result? = none → ∀ ctx w,
        copyoutArg w (arg, ctx) = .ok ([], w) := by
      intro arg harg ctx w
      cases arg with
      | result r => cases harg
      | _ => rfl
    have hskip : ∀ arg arg' : Arg, arg.result? = none → arg'.result? = none → ∀ ctx w,
        copyoutArg w (arg, ctx) = copyoutArg w (arg', ctx) :=
      fun arg arg' harg harg' ctx w => (hnone arg harg ctx w).trans (hnone arg' harg' ctx w).symm
    have hrefl : ∀ l : List (Arg × ArgCtx),
        Forall₂ (fun a b => ∀ w, copyoutArg w a = copyoutArg w b) l l :=
      fun l => forall₂_same.mpr fun _ _ _ => rfl
    apply rel_append
    · exact rel_append (hrefl _) (.cons (fun _ => rfl) (.cons (hskip _ _ rfl rfl _) .nil))
    · refine rel_append (.cons (hskip _ _ rfl rfl _) (.cons (hskip _ _ rfl rfl _)
        (.cons (hskip _ _ rfl rfl _) (hrefl _)))) (hrefl _)

/-- What the kernel sees without the first copyin does not depend on the blob. -/
lemma kernelViewFrom_one_congr {c c' : Call} (hkfuzz : c.callMeta.kfuzzTest = false)
    (hargs : c.args = s.args data) (hdata : data ≠ []) (hlt : data.length < 2 ^ 64)
    (hlen : data'.length = data.length) (hc' : c' = { c with args := s.args data' })
    (hview : kernelViewFrom env target w rt 1 c = some view) :
    kernelViewFrom env target w rt 1 c' = some view := by
  obtain ⟨e, w', mem, hser, hexec, hregs, hmem⟩ := kernelViewFrom_eq_some_iff.1 hview
  obtain ⟨w₁, hcopyin, hser'⟩ := (s.sameButCopyins hkfuzz hargs hlen).serializeCall_eq hser
  rw [← hc'] at hser'
  obtain ⟨tail, htail, hout⟩ :=
    (s.emitAll_pointee hdata hlt).mp ((writeCopyin_schedArgs hargs).mp hcopyin)
  have hdata' : data' ≠ [] := by
    rw [← length_pos_iff, hlen, length_pos_iff]
    exact hdata
  have hargs' : c'.args = s.args data' := by rw [hc']
  have hcopyin' : writeCopyin target .empty w c' =
      .ok (⟨s.address, .data (isReadableDataType s.dataTyp) data'⟩ :: tail, w₁) := by
    apply (writeCopyin_schedArgs hargs').mpr
    apply (s.emitAll_pointee hdata' (hlen ▸ hlt)).mpr
    exact ⟨tail, by rwa [s.restVisits_congr hlen], rfl⟩
  refine kernelViewFrom_eq_some_iff.2 ⟨_, w', mem, hser' _ hcopyin', ?_, hregs, hmem⟩
  rw [hout] at hexec
  exact hexec

/-- Bytes of the blob that are zero are as good as not stored. -/
lemma store_blob_eq_zero (hzero : ∀ i < 8, data[i]?.getD 0 = 0) {x : UInt64}
    (hx : InRange (s.address + 4) 4 x) : store (fun _ => 0) s.address data x = 0 := by
  have hj : (x - (s.address + 4)).toNat < 4 := hx
  have hat : x = s.address + UInt64.ofNat (4 + (x - (s.address + 4)).toNat) := by
    have hsum := add_ofNat_toNat_sub (s.address + 4) x
    rw [UInt64.add_assoc] at hsum
    rw [UInt64.ofNat_add]
    exact hsum.symm
  generalize (x - (s.address + 4)).toNat = j at hj hat
  rw [store, hat, add_ofNat_sub s.address (by omega)]
  exact hzero (4 + j) (by omega)

/-- With the policy bytes of the blob cleared, its copyin can be left out or not. -/
lemma policy_skip {c : Call} (hkfuzz : c.callMeta.kfuzzTest = false) (hargs : c.args = s.args data)
    (hdata : data ≠ []) (hlt : data.length < 2 ^ 64) (hzero : ∀ i < 8, data[i]?.getD 0 = 0)
    {k k' : ℕ} (hk : k ≤ 1) (hk' : k' ≤ 1)
    (hview : kernelViewFrom env target w rt k c = some view) :
    ∃ view', kernelViewFrom env target w rt k' c = some view' ∧ view'.policy = view.policy := by
  obtain ⟨e, w', mem, hser, hexec, hregs, hmem⟩ := kernelViewFrom_eq_some_iff.1 hview
  obtain ⟨w₁, hcopyin, -⟩ := (s.sameButCopyins hkfuzz hargs rfl).serializeCall_eq hser
  obtain ⟨tail, htail, hout⟩ :=
    (s.emitAll_pointee hdata hlt).mp ((writeCopyin_schedArgs hargs).mp hcopyin)
  -- both runs go over the same instructions, from memories that agree on the policy
  have hstart : ∀ k ≤ 1, ∃ mem₀ : Memory, (∀ x, InRange (s.address + 4) 4 x → mem₀ x = 0) ∧
      execCopyins rt (fun _ => 0) (e.copyin.drop k) = execCopyins rt mem₀ tail := by
    intro k hk
    rw [hout]
    obtain rfl | rfl : k = 0 ∨ k = 1 := by omega
    · exact ⟨_, fun x hx => s.store_blob_eq_zero hzero hx, rfl⟩
    · exact ⟨fun _ => 0, fun _ _ => rfl, rfl⟩
  obtain ⟨mem₁, hzero₁, hrun₁⟩ := hstart k hk
  obtain ⟨mem₂, hzero₂, hrun₂⟩ := hstart k' hk'
  rw [hrun₁] at hexec
  obtain ⟨mem', hexec', hsame⟩ := execCopyins_pointwise (s.any.pointwise htail) hexec mem₂
  have hview' : kernelViewFrom env target w rt k' c =
      some ⟨view.args, fun x => mem' (x - rt.dataOffset)⟩ :=
    kernelViewFrom_eq_some_iff.2 ⟨e, w', mem', hser, by rw [hrun₂, hexec'], hregs, rfl⟩
  refine ⟨_, hview', ?_⟩
  rw [policy_of_mem (arg_pointer hargs hkfuzz rfl hview') rfl,
    policy_of_mem (arg_pointer hargs hkfuzz rfl hview) hmem]
  congr 1
  apply load_congr (by decide)
  intro x hx
  rw [hsame x (by rw [hzero₁ x hx, hzero₂ x hx])]

end Squashed

end KConfuzz.Linux
