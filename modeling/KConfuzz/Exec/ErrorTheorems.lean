import KConfuzz.Exec.Encoding

/-!
# Errors of the serializer

Once the indices of the actions are checked, writing the calls can only panic; so an index is the
reason of a failure exactly when one of them is out of range
(`serializeForExecWithKConfuzz_badCallIndex_iff`).
-/

namespace KConfuzz

open Lib.ExceptFold

def ExecError.IsPanic (err : ExecError) : Prop := ∃ msg, err = .panic msg

variable {target : Target}

lemma failsOnly_panic {α : Type} (msg : String) :
    FailsOnly ExecError.IsPanic (.error (.panic msg) : Except ExecError α) :=
  failsOnly_error ⟨msg, rfl⟩

/-- Writing an argument can only panic. -/
lemma failsOnly_writeArg (w : ExecContext) : ∀ arg : Arg,
    FailsOnly ExecError.IsPanic (writeArg target w arg)
  | .const .. => failsOnly_ok _
  | .result a => by
    rw [writeArg]
    split
    · exact failsOnly_ok _
    · split
      · exact failsOnly_panic _
      · exact failsOnly_ok _
  | .pointer .. => by
    rw [writeArg]
    split
    · exact failsOnly_panic _
    · split_ifs
      · exact failsOnly_ok _
      · exact failsOnly_ok _
      · exact failsOnly_panic _
  | .data .. => by
    rw [writeArg]
    split_ifs
    · exact failsOnly_panic _
    · exact failsOnly_panic _
    · exact failsOnly_ok _
  | .union _ _ _ option _ => by
    rw [writeArg]
    exact failsOnly_writeArg w option
  | .group .. => failsOnly_panic _

lemma failsOnly_writeCopyin (sums : Checksums) (w : ExecContext) (c : Call) :
    FailsOnly ExecError.IsPanic (writeCopyin target sums w c) := by
  refine failsOnly_emitAll (fun w visit => ?_) w _
  simp only [copyinArg]
  split
  · exact failsOnly_ok _
  · generalize (if willBeUsed sums visit.1 then _ else w) = w₁
    split_ifs
    · exact failsOnly_ok _
    · exact (failsOnly_writeArg w₁ visit.1).bind fun _ => failsOnly_ok _

variable (env : ExecEnv) (w : ExecContext) (c : Call)

lemma failsOnly_writeRet : FailsOnly ExecError.IsPanic (writeRet w c) := by
  unfold writeRet
  split
  · split_ifs
    · split
      · exact failsOnly_panic _
      · exact failsOnly_ok _
    · exact failsOnly_ok _
  · exact failsOnly_ok _

lemma failsOnly_writeCopyout : FailsOnly ExecError.IsPanic (writeCopyout w c) := by
  refine failsOnly_emitAll (fun w visit => ?_) w _
  unfold copyoutArg
  split
  · dsimp only
    split_ifs
    · exact failsOnly_ok _
    · exact failsOnly_ok _
  · exact failsOnly_ok _

/-- Building the blob of a KFuzzTest call can only panic. -/
lemma failsOnly_kFuzzTestBlob (args : List Arg) :
    FailsOnly ExecError.IsPanic (kFuzzTestBlob env target args) := by
  unfold kFuzzTestBlob
  split
  · dsimp only
    split_ifs
    · exact failsOnly_ok _
    · split
      · exact failsOnly_ok _
      · split
        · exact failsOnly_ok _
        · exact failsOnly_panic _
        · exact failsOnly_panic _
      · exact failsOnly_panic _
  · exact failsOnly_panic _

lemma failsOnly_serializeKFuzzTestCall (sums : Checksums) (w : ExecContext) (c : Call) :
    FailsOnly ExecError.IsPanic (serializeKFuzzTestCall env target sums w c) := by
  unfold serializeKFuzzTestCall
  split
  · exact failsOnly_panic _
  · refine (failsOnly_writeCopyin sums w _).bind fun r => ?_
    refine (failsOnly_kFuzzTestBlob env c.args).bind fun blob => ?_
    exact (failsOnly_mapM (failsOnly_writeArg r.2) blob.2).bind fun args => failsOnly_ok _

lemma failsOnly_serializeCall : FailsOnly ExecError.IsPanic (serializeCall env target w c) := by
  have hsums : FailsOnly ExecError.IsPanic ((calcChecksumsCall c).mapError .panic) := by
    cases calcChecksumsCall c with
    | error msg => exact failsOnly_panic msg
    | ok sums => exact failsOnly_ok sums
  refine hsums.bind fun sums => ?_
  split
  · exact failsOnly_serializeKFuzzTestCall env sums w c
  · refine (failsOnly_writeCopyin sums w c).bind fun r => ?_
    refine (failsOnly_writeRet r.2 c).bind fun ret => ?_
    refine (failsOnly_mapM (failsOnly_writeArg ret.2) c.args).bind fun args => ?_
    exact (failsOnly_writeCopyout ret.2 c).bind fun out => failsOnly_ok _

lemma failsOnly_serializeCalls (actions : List KConfuzzConfigAction) (i : ℕ) (w : ExecContext)
    (calls : List Call) :
    FailsOnly ExecError.IsPanic (serializeCalls env target actions i w calls) := by
  induction calls generalizing i w with
  | nil => exact failsOnly_ok _
  | cons c calls ih =>
    exact (failsOnly_serializeCall env w c).bind fun r =>
      (ih (i + 1) r.2).bind fun rest => failsOnly_ok _

/-- Serializing complains about an index exactly when one is out of range. -/
lemma serializeForExecWithKConfuzz_badCallIndex_iff {p : Prog} {env : ExecEnv}
    {actions : List KConfuzzConfigAction} :
    (∃ index calls, p.serializeForExecWithKConfuzz env actions =
      .error (.badCallIndex index calls)) ↔ ∃ a ∈ actions, a.inRange (some p) = false := by
  have hrange : ∀ a : KConfuzzConfigAction, (a.beforeCall < 0 ∨
      (p.calls.length : ℤ) < a.beforeCall) ↔ a.inRange (some p) = false := by
    simp only [KConfuzzConfigAction.inRange, Bool.and_eq_false_iff, decide_eq_false_iff_not]
    omega
  unfold Prog.serializeForExecWithKConfuzz
  split
  · rename_i a ha
    refine iff_of_true ⟨_, _, rfl⟩ ⟨a, List.mem_of_find?_eq_some ha, ?_⟩
    have := List.find?_some ha
    rwa [decide_eq_true_eq, hrange] at this
  · rename_i hnone
    refine iff_of_false ?_ ?_
    · rintro ⟨index, calls, herr⟩
      have hcalls : FailsOnly (fun err => err ≠ .badCallIndex index calls)
          (serializeCalls env p.target actions 0 .init p.calls) :=
        (failsOnly_serializeCalls env actions 0 .init p.calls).mono (by
          rintro err ⟨msg, rfl⟩ h
          cases h)
      refine hcalls.bind (fun r => ?_) _ herr rfl
      dsimp only
      split_ifs
      · exact failsOnly_error (by simp)
      · exact failsOnly_error (by simp)
      · exact failsOnly_error (by simp)
      · exact failsOnly_ok _
    · rintro ⟨a, ha, hout⟩
      rw [List.find?_eq_none] at hnone
      exact hnone a ha (by rw [decide_eq_true_eq, hrange]; exact hout)

end KConfuzz
