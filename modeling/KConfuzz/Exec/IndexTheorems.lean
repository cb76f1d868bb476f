import KConfuzz.Exec.RoundTrip

/-!
# Serialized programs as the executor gets them

Nothing is assumed about the program here. Every index of a result that the serializer writes is
below the number of indices it gives out, or 0. Since it refuses programs with more than
`execMaxCommands` of them, the executor has room for every result it is asked for
(`exists_instrs_of_serialized`).
-/

namespace KConfuzz

open Lib.ExceptFold List ExecContext

variable {target : Target} {w w' : ExecContext} {n : ℕ}

/-- Above every index that has been given out, and above the 0 of results without one. -/
def ExecContext.limit (w : ExecContext) : ℕ := max 1 w.copyoutSeq

def ExecContext.Bounded (w : ExecContext) : Prop :=
  ∀ id info, w.args id = some info → info.idx < w.limit

/-- A reference to a result has an index below `n`. -/
def InstrArg.IndexBelow (n : ℕ) (arg : InstrArg) : Prop :=
  ∀ idx, arg.resultIdx? = some idx → idx.toNat < n

/-- Every index of a result in a call is below `n`. -/
structure EncodedCall.IndicesBelow (n : ℕ) (e : EncodedCall) : Prop where
  copyin : ∀ i ∈ e.copyin, i.arg.IndexBelow n
  ret : e.copyoutIdx ≠ execNoCopyout → e.copyoutIdx.toNat < n
  args : ∀ arg ∈ e.args, arg.IndexBelow n
  copyout : ∀ i ∈ e.copyout, i.idx.toNat < n

/-- Every index of a result in an instruction is below `n`. -/
def Instr.IndicesBelow (n : ℕ) : Instr → Prop
  | .copyin i => i.arg.IndexBelow n
  | .copyout i => i.idx.toNat < n
  | .call _ copyoutIdx args =>
    (copyoutIdx ≠ execNoCopyout → copyoutIdx.toNat < n) ∧ ∀ arg ∈ args, arg.IndexBelow n
  | _ => True

lemma toNat_ofNat_lt {i n : ℕ} (h : i < n) : (UInt64.ofNat i).toNat < n := by
  exact lt_of_le_of_lt (Nat.mod_le _ _) h

lemma InstrArg.IndexBelow.mono {arg : InstrArg} (h : arg.IndexBelow n) {n' : ℕ} (hle : n ≤ n') :
    arg.IndexBelow n' :=
  fun idx hidx => lt_of_lt_of_le (h idx hidx) hle

variable {e : EncodedCall}

lemma EncodedCall.IndicesBelow.mono (h : e.IndicesBelow n) {n' : ℕ} (hle : n ≤ n') :
    e.IndicesBelow n' where
  copyin := fun i hi => (h.copyin i hi).mono hle
  ret := fun hne => lt_of_lt_of_le (h.ret hne) hle
  args := fun arg harg => (h.args arg harg).mono hle
  copyout := fun i hi => lt_of_lt_of_le (h.copyout i hi) hle

/-! ## The context -/

lemma limit_le_limit (h : w.copyoutSeq ≤ w'.copyoutSeq) : w.limit ≤ w'.limit := by
  unfold limit
  omega

lemma bounded_init : init.Bounded := by
  intro id info h
  cases h

section

variable (hw : w.Bounded)

include hw

lemma ExecContext.Bounded.setArg {info : ArgInfo} (hidx : info.idx < w.limit)
    (id : ArgId) : (w.setArg id info).Bounded := by
  intro id' info' h
  rw [setArg_args] at h
  split at h
  · cases h
    exact hidx
  · exact hw id' info' h

lemma ExecContext.Bounded.assign (id : ArgId) (addr : UInt64) (ret : Bool) :
    ExecContext.Bounded
      { w.setArg id { addr, idx := w.copyoutSeq, ret } with copyoutSeq := w.copyoutSeq + 1 } := by
  have hlimit : w.limit ≤ max 1 (w.copyoutSeq + 1) := by
    unfold limit
    omega
  intro id' info' h
  rw [setArg_args] at h
  dsimp only [limit]
  split at h
  · cases h
    dsimp only
    omega
  · exact lt_of_lt_of_le (hw id' info' h) hlimit

/-! ## The writers -/

lemma WrittenAs.indexBelow {arg : Arg} {written : InstrArg}
    (h : WrittenAs w arg written) : written.IndexBelow w.limit := by
  induction h with
  | ref _ hinfo =>
    intro idx hidx
    cases hidx
    exact toNat_ofNat_lt (hw _ _ hinfo)
  | union _ ih => exact ih
  | _ => simp [InstrArg.IndexBelow, InstrArg.resultIdx?]

variable {sums : Checksums} {out : List CopyinInstr} {visit : Arg × ArgCtx}

variable {c : Call}

lemma writeCopyin_bounded (h : writeCopyin target sums w c = .ok (out, w')) :
    w'.Bounded ∧ w'.copyoutSeq = w.copyoutSeq ∧ ∀ i ∈ out, i.arg.IndexBelow w.limit := by
  obtain ⟨⟨hbounded, hseq⟩, hout⟩ := emitAll_copyinArg_rule
    (I := fun w' => w'.Bounded ∧ w'.copyoutSeq = w.copyoutSeq)
    (fun visit _ w₁ addr ⟨hbounded, hseq⟩ =>
      ⟨hbounded.setArg (lt_of_lt_of_le Nat.zero_lt_one (le_max_left 1 w₁.copyoutSeq)) _, hseq⟩)
    ⟨hw, rfl⟩ h
  refine ⟨hbounded, hseq, fun i hi => ?_⟩
  obtain ⟨visit, -, ⟨w₁, ⟨hbounded₁, hseq₁⟩, hwritten⟩, -⟩ := exists_mem_of_forall₂ hout hi
  have hbelow := (writtenAs_of_writeArg hwritten).indexBelow hbounded₁
  rwa [limit, hseq₁] at hbelow

/-- The index of a return value is below the limit. -/
lemma writeRet_bounded {idx : UInt64} (h : writeRet w c = .ok (idx, w')) :
    w'.Bounded ∧ w.copyoutSeq ≤ w'.copyoutSeq ∧
      (idx ≠ execNoCopyout → idx.toNat < w'.limit) := by
  unfold writeRet at h
  split at h
  · split at h
    · split at h
      · cases h
      · cases h
        refine ⟨hw.assign _ 0 true, Nat.le_succ _, fun _ => toNat_ofNat_lt ?_⟩
        dsimp only [limit]
        omega
    · cases h
      exact ⟨hw, le_rfl, fun hne => absurd rfl hne⟩
  · cases h
    exact ⟨hw, le_rfl, fun hne => absurd rfl hne⟩

/-- The index of a copyout is below the limit. -/
lemma copyoutArg_bounded {out : List CopyoutInstr} (h : copyoutArg w visit = .ok (out, w')) :
    w'.Bounded ∧ w.copyoutSeq ≤ w'.copyoutSeq ∧ ∀ i ∈ out, i.idx.toNat < w'.limit := by
  unfold copyoutArg at h
  split at h
  · dsimp only at h
    split at h
    · cases h
      exact ⟨hw, le_rfl, by simp⟩
    · cases h
      refine ⟨hw.assign _ _ _, Nat.le_succ _, ?_⟩
      intro i hi
      rw [mem_singleton.mp hi]
      apply toNat_ofNat_lt
      dsimp only [limit]
      omega
  · cases h
    exact ⟨hw, le_rfl, by simp⟩

lemma writeCopyout_bounded {out : List CopyoutInstr} (h : writeCopyout w c = .ok (out, w')) :
    w'.Bounded ∧ w.copyoutSeq ≤ w'.copyoutSeq ∧ ∀ i ∈ out, i.idx.toNat < w'.limit := by
  refine emitAll_invariant (fun _ out w' => w'.Bounded ∧ w.copyoutSeq ≤ w'.copyoutSeq ∧
    ∀ i ∈ out, i.idx.toNat < w'.limit) ?_ ⟨hw, le_rfl, by simp⟩ h
  intro done visit rest out₁ w₁ out₂ w₂ _ ⟨hbounded, hseq, hout⟩ hstep
  obtain ⟨hbounded₂, hseq₂, hout₂⟩ := copyoutArg_bounded hbounded hstep
  refine ⟨hbounded₂, hseq.trans hseq₂, forall_mem_append.mpr ⟨fun i hi => ?_, hout₂⟩⟩
  exact lt_of_lt_of_le (hout i hi) (limit_le_limit hseq₂)

/-! ## Calls -/

omit hw in
lemma toNat_callId_lt {c : Syscall} (hc : c ∈ target.syscalls) :
    (UInt64.ofNat c.id).toNat < target.syscalls.length := by
  obtain ⟨hlt, -⟩ := List.getElem?_eq_some_iff.mp (Target.getElem?_id hc)
  exact toNat_ofNat_lt hlt

variable {env : ExecEnv} {calls : List Call} {es : List EncodedCall}
  {actions : List KConfuzzConfigAction} {buf : List UInt8}

omit hw in
/-- The blob is data, and updating its length touches no result and no buffer. -/
lemma kFuzzTestBlob_eq_ok {args args' : List Arg}
    (h : kFuzzTestBlob env target args = .ok (out, args')) :
    (∀ i ∈ out, ∃ blob, i.arg = .data false blob) ∧
      args'.filterMap Arg.passedResult = args.filterMap Arg.passedResult ∧
      ((∀ arg ∈ args', ¬ arg.isBuffer) ↔ ∀ arg ∈ args, ¬ arg.isBuffer) := by
  unfold kFuzzTestBlob at h
  split at h
  · dsimp only at h
    split_ifs at h
    · cases h
      exact ⟨by simp, rfl, Iff.rfl⟩
    · split at h
      · cases h
        exact ⟨by simp, rfl, Iff.rfl⟩
      · split at h
        · cases h
          exact ⟨by simp, rfl, by simp [Arg.isBuffer]⟩
        · cases h
        · cases h
      · cases h
  · cases h

omit hw in
lemma filterMap_of_data {β : Type} {g : InstrArg → Option β}
    (hg : ∀ blob, g (.data false blob) = none) (h : ∀ i ∈ out, ∃ blob, i.arg = .data false blob) :
    out.filterMap (g ·.arg) = [] := by
  rw [filterMap_eq_nil_iff]
  intro i hi
  obtain ⟨blob, hblob⟩ := h i hi
  rw [hblob, hg]

omit hw in
/-- What is written for a KFuzzTest call. -/
lemma serializeKFuzzTestCall_eq_ok
    (h : serializeKFuzzTestCall env target sums w c = .ok (e, w')) :
    ∃ runID copyin blob args args', kFuzzTestRunID target = some runID ∧
      writeCopyin target sums w { c with args := c.args.take 1, ret := none } =
        .ok (copyin, w') ∧
      kFuzzTestBlob env target c.args = .ok (blob, args') ∧
      args'.mapM (writeArg target w') = .ok args ∧
      e = { copyin := copyin ++ blob, props := none, id := UInt64.ofNat runID
            copyoutIdx := execNoCopyout, args, copyout := [] } := by
  unfold serializeKFuzzTestCall at h
  split at h
  · cases h
  · rename_i runID hrun
    obtain ⟨⟨copyin, w₁⟩, hcopyin, h⟩ := bind_eq_ok_iff.1 h
    obtain ⟨⟨blob, args'⟩, hblob, h⟩ := bind_eq_ok_iff.1 h
    obtain ⟨args, hargs, h⟩ := bind_eq_ok_iff.1 h
    cases h
    exact ⟨runID, copyin, blob, args, args', hrun, hcopyin, hblob, hargs, rfl⟩

/-- A KFuzzTest call is readable and keeps the indices bounded. -/
lemma serializeKFuzzTestCall_bounded
    (h : serializeKFuzzTestCall env target sums w c = .ok (e, w')) :
    w'.Bounded ∧ w.copyoutSeq ≤ w'.copyoutSeq ∧ e.Readable target ∧ e.IndicesBelow w'.limit := by
  obtain ⟨runID, copyin, blob, args, args', hrun, hcopyin, hblob, hargs, rfl⟩ :=
    serializeKFuzzTestCall_eq_ok h
  obtain ⟨hbounded, hseq, hbelow⟩ := writeCopyin_bounded hw hcopyin
  have hlimit : w.limit = w'.limit := by rw [limit, ← hseq, limit]
  rw [hlimit] at hbelow
  have hid : (UInt64.ofNat runID).toNat < target.syscalls.length := by
    obtain ⟨call, hfind, rfl⟩ := Option.map_eq_some_iff.mp hrun
    exact toNat_callId_lt (mem_of_find?_eq_some hfind)
  have hdata : ∀ i ∈ blob, i.arg.Known ∧ i.arg.IndexBelow w'.limit := by
    intro i hi
    obtain ⟨data, hi⟩ := (kFuzzTestBlob_eq_ok hblob).1 i hi
    simp [hi, InstrArg.Known, InstrArg.IndexBelow, InstrArg.resultIdx?]
  have hargs_below := forall_mem_of_mapM
    (fun _ _ _ hwritten => (writtenAs_of_writeArg hwritten).indexBelow hbounded) hargs
  refine ⟨hbounded, hseq.ge, ⟨hid, ?_, (mapM_writeArg_kind hargs).1⟩,
    ⟨?_, fun hne => absurd rfl hne, hargs_below, by simp⟩⟩
  · exact forall_mem_append.mpr ⟨writeCopyin_known hcopyin, fun i hi => (hdata i hi).1⟩
  · exact forall_mem_append.mpr ⟨hbelow, fun i hi => (hdata i hi).2⟩

omit hw in
lemma writeChecksums_known (env : ExecEnv) (sums : Checksums) (addr : ArgId → UInt64) :
    ∀ i ∈ writeChecksums env sums addr, i.arg.Known ∧ i.arg.IndexBelow n := by
  refine forall_mem_map.mpr fun field _ => ?_
  exact ⟨rfl, by simp [InstrArg.IndexBelow, InstrArg.resultIdx?, csumInstr]⟩

/-- A call is readable and its indices are below the limit. -/
lemma serializeCall_bounded (hmeta : c.callMeta ∈ target.syscalls)
    (h : serializeCall env target w c = .ok (e, w')) :
    w'.Bounded ∧ w.copyoutSeq ≤ w'.copyoutSeq ∧ e.Readable target ∧ e.IndicesBelow w'.limit := by
  cases hkfuzz : c.callMeta.kfuzzTest with
  | true =>
    obtain ⟨sums, -, h⟩ := bind_eq_ok_iff.1 h
    rw [if_pos hkfuzz] at h
    exact serializeKFuzzTestCall_bounded hw h
  | false =>
    obtain ⟨k, hk, rfl⟩ := serializeCall_eq_ok hkfuzz h
    obtain ⟨w₁, w₂, -, hcopyin, -, hret, hargs, hcopyout, hid, -⟩ := skeleton_eq_ok hk
    obtain ⟨hw₁, hseq₁, hbelow₁⟩ := writeCopyin_bounded hw hcopyin
    obtain ⟨hw₂, hseq₂, hbelow₂⟩ := writeRet_bounded hw₁ hret
    obtain ⟨hw₃, hseq₃, hbelow₃⟩ := writeCopyout_bounded hw₂ hcopyout
    have hargs_below := forall_mem_of_mapM
      (fun _ _ _ hwritten => (writtenAs_of_writeArg hwritten).indexBelow hw₂) hargs
    have hle : w.copyoutSeq ≤ w'.copyoutSeq := by omega
    refine ⟨hw₃, hle, ⟨?_, ?_, (mapM_writeArg_kind hargs).1⟩, ⟨?_, ?_, ?_, hbelow₃⟩⟩
    · show k.id.toNat < target.syscalls.length
      rw [hid]
      exact toNat_callId_lt hmeta
    · refine forall_mem_append.mpr ⟨writeCopyin_known hcopyin, fun i hi => ?_⟩
      exact (writeChecksums_known (n := 0) env k.sums _ i hi).1
    · intro i hi
      rcases mem_append.mp hi with hi | hi
      · exact (hbelow₁ i hi).mono (limit_le_limit hle)
      · exact (writeChecksums_known env k.sums _ i hi).2
    · exact fun hne => lt_of_lt_of_le (hbelow₂ hne) (limit_le_limit hseq₃)
    · exact fun arg harg => (hargs_below arg harg).mono (limit_le_limit hseq₃)

end

/-- All calls are readable and their indices are below the limit. -/
lemma encodeCalls_bounded (hmeta : ∀ c ∈ calls, c.callMeta ∈ target.syscalls) (hw : w.Bounded)
    (h : encodeCalls env target w calls = .ok (es, w')) :
    w.copyoutSeq ≤ w'.copyoutSeq ∧
      ∀ e ∈ es, e.Readable target ∧ e.IndicesBelow w'.limit := by
  induction calls generalizing w es with
  | nil =>
    cases h
    exact ⟨le_rfl, by simp⟩
  | cons c calls ih =>
    rw [forall_mem_cons] at hmeta
    obtain ⟨e, w₁, rest, hfirst, hrest, rfl⟩ := mapAccumM_cons_eq_ok_iff.1 h
    obtain ⟨hw₁, hseq₁, hreadable, hbelow⟩ := serializeCall_bounded hw hmeta.1 hfirst
    obtain ⟨hseq, hes⟩ := ih hmeta.2 hw₁ hrest
    refine ⟨hseq₁.trans hseq, ?_⟩
    rw [forall_mem_cons]
    exact ⟨⟨hreadable, hbelow.mono (limit_le_limit hseq)⟩, hes⟩

/-! ## Programs -/

lemma indicesBelow_interleave (h : ∀ e ∈ es, e.IndicesBelow n)
    (actions : List KConfuzzConfigAction) : ∀ instr ∈ interleave actions 0 es, instr.IndicesBelow n := by
  intro instr hinstr
  rcases mem_interleave hinstr with ⟨c, rfl⟩ | ⟨e, he, hinstr⟩
  · trivial
  · have hbelow := h e he
    exact EncodedCall.forall_mem_instrs hbelow.copyin (fun _ => trivial)
      ⟨hbelow.ret, hbelow.args⟩ hbelow.copyout instr hinstr

lemma wordLength_of_encodeCalls (h : encodeCalls env target w calls = .ok (es, w')) :
    wordLength es = wordLength calls := by
  rw [wordLength, wordLength, length_of_mapAccumM h]

/-- What a buffer consists of. -/
lemma serializeForExecWithKConfuzz_eq_ok {p : Prog}
    (h : p.serializeForExecWithKConfuzz env actions = .ok buf) :
    ∃ es w, encodeCalls env p.target .init p.calls = .ok (es, w) ∧
      w.copyoutSeq ≤ execMaxCommands ∧ buf = encodeBuffer actions es ∧
      buf.length ≤ execBufferSize := by
  unfold Prog.serializeForExecWithKConfuzz at h
  split at h
  · cases h
  · obtain ⟨⟨instrs, w⟩, hcalls, h⟩ := bind_eq_ok_iff.1 h
    rw [serializeCalls_eq] at hcalls
    obtain ⟨⟨es, w'⟩, hencode, hcalls⟩ := map_eq_ok_iff.1 hcalls
    cases hcalls
    dsimp only at h
    split_ifs at h with hlarge hmany hmany
    · cases h
    · cases h
    · cases h
    · cases h
      refine ⟨es, w', hencode, by omega, ?_, by omega⟩
      rw [encodeBuffer, wordLength_of_encodeCalls hencode]

/-- A buffer from the serializer holds the number of calls and a sequence of instructions that
ends with the only `eof`; they can be read back, and no index is out of bounds. -/
lemma exists_instrs_of_serialized {p : Prog}
    (h : p.serializeForExecWithKConfuzz env actions = .ok buf) :
    ∃ instrs, buf = write (wordLength p.calls) ++ encodeAll (instrs ++ [.eof]) ∧
      buf.length ≤ execBufferSize ∧ .eof ∉ instrs ∧
      ∀ instr ∈ instrs, ExecDecoder.Readable p.target instr ∧
        instr.IndicesBelow execMaxCommands := by
  obtain ⟨es, w, hencode, hmax, rfl, hfits⟩ := serializeForExecWithKConfuzz_eq_ok h
  obtain ⟨-, hes⟩ := encodeCalls_bounded p.callMeta_mem bounded_init hencode
  have hlimit : w.limit ≤ execMaxCommands := by
    have : 1 ≤ execMaxCommands := by decide
    unfold limit
    omega
  refine ⟨_, by rw [encodeBuffer, wordLength_of_encodeCalls hencode], hfits, eof_notMem_interleave actions, ?_⟩
  intro instr hinstr
  exact ⟨readable_interleave (fun e he => (hes e he).1) actions instr hinstr,
    indicesBelow_interleave (fun e he => (hes e he).2.mono hlimit) actions instr hinstr⟩

end KConfuzz
