import KConfuzz.Planner.PlanTheorems

/-!
# The safety gate of planned and filtered actions

The documentation promises that automatic writes are limited to parameters marked `AutoSafe`.
Random planning tests the mark; related planning and `FilterSupportedActions` go through
`allowedRelatedParam`, which does not. A loaded table relates to a call exactly the parameters
its surviving rows name (`mem_paramsOf_iff`), and with room enough every one of them is planned,
so the promise holds for a table when its surviving rows name `AutoSafe` parameters only.
-/

namespace KConfuzz

open Lib.StableSort Lib.ExceptFold List

variable {R : Registry}

/-! ## The parameters of a loaded table -/

variable {param : ConfigParam} {q : ConfigParam} {file : RelationFile}

lemma mem_insertParam {params : List ConfigParam} (hparam : param ∈ R.params)
    (hparams : ∀ q ∈ params, q ∈ R.params) :
    q ∈ insertParam param params ↔ q = param ∨ q ∈ params := by
  refine ⟨mem_of_mem_insertParam, fun h => ?_⟩
  have hsame : ∀ q ∈ params, q.id = param.id → q = param :=
    fun q hq => inj_on_of_nodup_map R.ids_nodup (hparams q hq) hparam
  unfold insertParam
  split
  · next hany =>
    obtain ⟨old, hold, hid⟩ : ∃ old ∈ params, old.id = param.id := by simpa using hany
    rw [hsame old hold hid] at hold
    have hq : q ∈ params := h.elim (· ▸ hold) id
    refine mem_map.mpr ⟨q, hq, ?_⟩
    split
    · next hid => exact (hsame q hq (by simpa using hid)).symm
    · rfl
  · simpa [or_comm] using h

/-- An edge adds one parameter to one call. -/
lemma mem_paramsOf_addEdge {m : List (String × List ConfigParam)} {call c : String}
    (hm : AllParams (Allowed R) m) (hparam : Allowed R param) :
    q ∈ paramsOf (addEdge call param m) c ↔ c = call ∧ q = param ∨ q ∈ paramsOf m c := by
  induction m with
  | nil => by_cases hc : c = call <;> simp [addEdge, hc]
  | cons entry rest ih =>
    have hrest : AllParams (Allowed R) rest := fun e he => hm e (mem_cons_of_mem _ he)
    have hmem : q ∈ insertParam param entry.2 ↔ q = param ∨ q ∈ entry.2 :=
      mem_insertParam hparam.1 fun q hq => (hm entry mem_cons_self q hq).1
    rw [addEdge, paramsOf_cons]
    split
    · next hname =>
      by_cases hc : c = call
      · simp [hc, hname, hmem]
      · simp [hc, hname]
    · next hname =>
      by_cases hc : c = entry.1
      · simp [hc, hname]
      · simpa [hc] using ih hrest

lemma paramsOf_map_sortedParams (m : List (String × List ConfigParam)) (call : String) :
    paramsOf (m.map fun entry => (entry.1, sortedParams entry.2)) call =
      sortedParams (paramsOf m call) := by
  induction m with
  | nil => rfl
  | cons entry rest ih =>
    rw [map_cons, paramsOf_cons, paramsOf_cons, ih]
    split <;> rfl

/-- The lines `done` have been loaded into `byCall`. -/
def Loaded (R : Registry) (done : List (Except String RelationRow)) (st : LoadState) : Prop :=
  AllParams (Allowed R) st.byCall ∧ ∀ call param, param ∈ paramsOf st.byCall call ↔
    ∃ row, .ok row ∈ done ∧ row.syzkallerCall = call ∧ rowVerdict R row = .loaded param

/-- Reading one more line keeps what was loaded. -/
lemma Loaded.loadLine {done : List (Except String RelationRow)} {st st' : LoadState}
    {line : Except String RelationRow} (h : Loaded R done st)
    (hline : loadLine R st line = .ok st') : Loaded R (done ++ [line]) st' := by
  refine ⟨h.1.loadLine hline, fun call param => ?_⟩
  cases line with
  | error err => cases hline
  | ok row =>
    obtain rfl : _ = st' := Except.ok.inj hline
    have hsplit : (∃ r, (.ok r : Except String RelationRow) ∈ done ++ [.ok row] ∧
          r.syzkallerCall = call ∧ rowVerdict R r = .loaded param) ↔
        row.syzkallerCall = call ∧ rowVerdict R row = .loaded param ∨
          param ∈ paramsOf st.byCall call := by
      rw [h.2]
      grind
    rw [hsplit]
    split
    · next found hverdict =>
      obtain ⟨hfound, -, hallowed, -⟩ := rowVerdict_eq_loaded_iff.1 hverdict
      rw [mem_paramsOf_addEdge h.1
        ⟨(Registry.supportedParams_eq_some_iff.1 hfound).1, hallowed⟩, hverdict,
        RowVerdict.loaded.injEq, eq_comm (a := call), eq_comm (a := param)]
    · next hverdict =>
      refine (or_iff_right ?_).symm
      rintro ⟨-, hloaded⟩
      exact hverdict param hloaded

/-- A loaded table relates to a call the parameters its surviving rows name. -/
lemma mem_paramsOf_iff {p : Planner R} (hload : loadRelationTable R file = .ok p) {call : String} :
    param ∈ paramsOf p.callToParams call ↔
      ∃ row, .ok row ∈ file.lines ∧ row.syzkallerCall = call ∧
        rowVerdict R row = .loaded param := by
  unfold loadRelationTable at hload
  split at hload
  · cases hload
  · next st hfold =>
    split at hload
    · cases hload
    · obtain rfl := Except.ok.inj hload
      have hst : Loaded R file.lines st :=
        foldlM_invariant (Loaded R) (fun _ _ _ _ hs hline => hs.loadLine hline)
          ⟨by simp [AllParams], by simp [paramsOf]⟩ hfold
      show param ∈ paramsOf (st.byCall.map _) call ↔ _
      rw [paramsOf_map_sortedParams, sortedParams, mem_sliceStable, hst.2]

/-- A table without broken lines is loaded. -/
lemma exists_loadRelationTable (R : Registry) (rows : List RelationRow) :
    ∃ p, loadRelationTable R { lines := rows.map .ok, scanErr := none } = .ok p := by
  have hfold : ∀ st, ∃ st', (rows.map .ok).foldlM (loadLine R) st = .ok st' := by
    induction rows with
    | nil => exact fun st => ⟨st, rfl⟩
    | cons row rows ih =>
      intro st
      exact ih _
  unfold loadRelationTable
  split
  · next err herr =>
    obtain ⟨st, hst⟩ := hfold { verdicts := [], byCall := [] }
    rw [hst] at herr
    cases herr
  · exact ⟨_, rfl⟩

/-! ## Every related parameter can be planned -/

namespace Planner

variable (p : Planner R) (serialize : Prog → List UInt8)

/-- Options that put no limit on related actions. -/
def unlimitedOptions : Options :=
  { strategy := .strategySequence
    maxActionsPerProgram := unlimitedActions
    maxActionsPerCall := 1
    randomActionsPerProgram := 0
    relatedActionsPerProgram := unlimitedActions }

lemma plan_unlimitedOptions (prg : Prog) :
    p.plan serialize prg unlimitedOptions =
      (p.planSequenceLevel serialize prg unlimitedOptions []).1 := by
  unfold plan
  dsimp only
  rfl

lemma exists_mem_plan (prg : Prog) {call : Call} (hcall : call ∈ prg.calls)
    (hparam : param ∈ p.callParams call) :
    ∃ a ∈ p.plan serialize prg unlimitedOptions, a.paramID = param.id := by
  obtain ⟨new, used, hseq, hadds, -, -, hall⟩ :=
    p.planSequenceLevel_spec serialize prg unlimitedOptions []
  have hused := hall (.inl (by decide)) call hcall param hparam
  rw [plan_unlimitedOptions, hseq]
  exact mem_map.mp (((hadds.mem_iff _).mp hused).resolve_left not_mem_nil)

end Planner

/-! ## The gate -/

/-- The action writes a registry parameter marked `AutoSafe`. -/
def AutoSafeAction (R : Registry) (a : KConfuzzConfigAction) : Prop :=
  ∃ param ∈ R.params, param.id = a.paramID ∧ param.autoSafe

/-- Whatever is planned from the table, and whatever the filter keeps of `actions`, writes
`AutoSafe` parameters only. -/
def SafetyGate (R : Registry) (serialize : Prog → List UInt8) (p : Planner R)
    (actions : List KConfuzzConfigAction) : Prop :=
  (∀ prg opts, ∀ a ∈ p.plan serialize prg opts, AutoSafeAction R a) ∧
    ∀ a ∈ filterSupportedActions R actions, AutoSafeAction R a

/-- The row survives the loader's other tests when it names an allowed parameter. -/
def RelationRow.Related (row : RelationRow) : Prop :=
  row.syzkallerCall ≠ "" ∧ row.descriptorDomain ≠ "generic" ∧
    row.paramDomain = row.descriptorDomain

lemma autoSafeAction_iff {a : KConfuzzConfigAction} (hparam : param ∈ R.params)
    (hid : param.id = a.paramID) :
    AutoSafeAction R a ↔ param.autoSafe := by
  refine ⟨?_, fun h => ⟨param, hparam, hid, h⟩⟩
  rintro ⟨other, hother, hid', hsafe⟩
  rwa [inj_on_of_nodup_map R.ids_nodup hparam hother (hid.trans hid'.symm)]

/-- What is planned from a table is `AutoSafe` exactly when its related rows are. -/
lemma plan_autoSafe_iff (serialize : Prog → List UInt8) {p : Planner R}
    (hload : loadRelationTable R file = .ok p) :
    (∀ prg opts, ∀ a ∈ p.plan serialize prg opts, AutoSafeAction R a) ↔
      ∀ row, .ok row ∈ file.lines → row.Related → ∀ param ∈ R.params, param.name = row.param →
        allowedRelatedParam param → param.autoSafe := by
  constructor
  · intro h row hrow ⟨hcall, hgeneric, hdomain⟩ param hparam hname hallowed
    -- a program with the row's call only, planned without a limit
    let syscall : Syscall := { id := 0, name := row.syzkallerCall }
    let call : Call := { callMeta := syscall, args := [], ret := none, props := .zero }
    let prg : Prog :=
      { target := { syscalls := [syscall], dataOffset := 0, specialPointers := [], ids := rfl
                    maxCallID := by simp [fallbackCallMask] }
        calls := [call]
        callMeta_mem := by simp [call] }
    have hrelated : param ∈ p.callParams call :=
      (mem_paramsOf_iff hload).mpr ⟨row, hrow, rfl, rowVerdict_eq_loaded_iff.2
        ⟨Registry.supportedParams_eq_some_iff.2 ⟨hparam, hname⟩, hcall, hallowed, hgeneric,
          hdomain⟩⟩
    obtain ⟨a, ha, hid⟩ := p.exists_mem_plan serialize prg mem_cons_self hrelated
    exact (autoSafeAction_iff hparam hid.symm).mp (h prg _ a ha)
  · intro h prg opts a ha
    rcases p.mem_plan_cases ha with ⟨param, hmem, hsafe, seed, rfl⟩ | ⟨i, -, call, -, param,
      hparam, seed, rfl⟩
    · exact ⟨param, hmem, rfl, (safeRandomParam_spec hsafe).2⟩
    · obtain ⟨row, hrow, -, hverdict⟩ := (mem_paramsOf_iff hload).mp hparam
      obtain ⟨hfound, hcall, hallowed, hgeneric, hdomain⟩ := rowVerdict_eq_loaded_iff.1 hverdict
      obtain ⟨hmem, hname⟩ := Registry.supportedParams_eq_some_iff.1 hfound
      exact ⟨param, hmem, rfl, h row hrow ⟨hcall, hgeneric, hdomain⟩ param hmem hname hallowed⟩

/-- The gate holds for a table and a list of actions exactly when every related row of the
table, and every action of the list that names a parameter with a legal value, is about an
`AutoSafe` parameter as soon as `allowedRelatedParam` admits it. -/
theorem safetyGate_iff (serialize : Prog → List UInt8) {file : RelationFile} {p : Planner R}
    (hload : loadRelationTable R file = .ok p) (actions : List KConfuzzConfigAction) :
    SafetyGate R serialize p actions ↔
      (∀ row, .ok row ∈ file.lines → row.Related → ∀ param ∈ R.params, param.name = row.param →
        allowedRelatedParam param → param.autoSafe) ∧
      ∀ a ∈ actions, ∀ param ∈ R.params, param.id = a.paramID →
        (a.valueID < param.valueCount ∨ a.flags &&& kconfuzzConfigFlagFlip ≠ 0) →
        allowedRelatedParam param → param.autoSafe := by
  refine and_congr (plan_autoSafe_iff serialize hload) ?_
  constructor
  · intro h a ha param hparam hid hvalue hallowed
    refine (autoSafeAction_iff hparam hid).mp (h a (mem_filterSupportedActions.2 ⟨ha, ?_⟩))
    exact supportedAction_iff.2 ⟨param, hparam, hid, hallowed, hvalue⟩
  · intro h a ha
    obtain ⟨ha, hsupported⟩ := mem_filterSupportedActions.1 ha
    obtain ⟨param, hparam, hid, hallowed, hvalue⟩ := supportedAction_iff.1 hsupported
    exact ⟨param, hparam, hid, h a ha param hparam hid hvalue hallowed⟩

/-- Two rows of the generated registry. -/
def vsyscall32Param : ConfigParam :=
  { name := "abi/vsyscall32", id := 0, valueCount := 5, domain := "generic"
    valueDomain := "bool_range01", autoSafe := true, mutator := true
    mutatorConfidence := "high", mutatorKind := "strict_bool", mutatorFamily := "bool"
    mutatorTfuzzValueIDs := [], mutatorSeedValueIDs := [0, 1], mutatorRandomValueIDs := [1, 0] }

def unprivilegedBpfParam : ConfigParam :=
  { name := "kernel/unprivileged_bpf_disabled", id := 84, valueCount := 5, domain := "generic"
    valueDomain := "small_enum", autoSafe := false, mutator := true
    mutatorConfidence := "low", mutatorKind := "enum_unknown", mutatorFamily := "enum"
    mutatorTfuzzValueIDs := [0, 1], mutatorSeedValueIDs := [0, 1, 2], mutatorRandomValueIDs := [] }

def sampleRegistry : Registry where
  params := [vsyscall32Param, unprivilegedBpfParam]
  names_nodup := by decide
  ids_nodup := by decide

/-- The row that relates `bpf$PROG_LOAD` to the given parameter. -/
def bpfRow (param : String) : RelationRow :=
  { param, paramDomain := "bpf", syzkallerCall := "bpf$PROG_LOAD", descriptorDomain := "bpf" }

def bpfTable (param : String) : RelationFile := { lines := [.ok (bpfRow param)], scanErr := none }

theorem safetyGate_vsyscall32 :
    ∃ p, loadRelationTable sampleRegistry (bpfTable "abi/vsyscall32") = .ok p ∧
      SafetyGate sampleRegistry (fun _ => []) p [⟨0, 0, 1, 0⟩] := by
  obtain ⟨p, hp⟩ := exists_loadRelationTable sampleRegistry [bpfRow "abi/vsyscall32"]
  refine ⟨p, hp, (safetyGate_iff _ hp _).mpr ⟨?_, ?_⟩⟩
  · rintro row hrow - param hparam hname -
    obtain rfl : row = bpfRow "abi/vsyscall32" := by simpa [bpfTable] using hrow
    revert param
    decide
  · rintro a ha param hparam hid - -
    obtain rfl : a = _ := mem_singleton.mp ha
    revert param
    decide

/-- A row, or an action, that names `kernel/unprivileged_bpf_disabled` gets through. -/
theorem not_safetyGate_unprivileged_bpf :
    ∃ p, loadRelationTable sampleRegistry (bpfTable "kernel/unprivileged_bpf_disabled") = .ok p ∧
      (∃ prg opts, ∃ a ∈ p.plan (fun _ => []) prg opts, ¬ AutoSafeAction sampleRegistry a) ∧
      ∃ a ∈ filterSupportedActions sampleRegistry [⟨0, 84, 1, 0⟩],
        ¬ AutoSafeAction sampleRegistry a := by
  obtain ⟨p, hp⟩ := exists_loadRelationTable sampleRegistry
    [bpfRow "kernel/unprivileged_bpf_disabled"]
  have hbpf : unprivilegedBpfParam ∈ sampleRegistry.params := by decide
  refine ⟨p, hp, ?_, ⟨0, 84, 1, 0⟩, by decide, ?_⟩
  · by_contra hsafe
    push Not at hsafe
    have hrow := (plan_autoSafe_iff (fun _ => []) hp).mp hsafe _ (mem_singleton.mpr rfl)
      ⟨by decide, by decide, rfl⟩ unprivilegedBpfParam hbpf rfl (by decide)
    cases hrow
  · rw [autoSafeAction_iff hbpf rfl]
    decide

end KConfuzz
