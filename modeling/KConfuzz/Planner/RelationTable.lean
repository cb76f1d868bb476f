import KConfuzz.Lib.ExceptFold
import KConfuzz.Planner.Registry

/-!
# Loading a relation table (`LoadRelationTable` of `pkg/kconfuzz/actionplanner.go`)

A relation table says which runtime parameters go with which system calls, one JSON row per
line. The loader drops rows by a chain of tests, and keeps for each call the parameters its
rows name.

Reading the file and decoding a line are inputs of the model: a line is a decoded row or the
error of `json.Unmarshal`.
-/

namespace KConfuzz

open Lib.StableSort Lib.ExceptFold List

structure RelationRow where
  param : String
  paramDomain : String
  syzkallerCall : String
  descriptorDomain : String
deriving DecidableEq, Repr

/-- The contents of a relation table file: its lines, and the error that ended the scan, if
it did not end at the end of the file. -/
structure RelationFile where
  lines : List (Except String RelationRow)
  scanErr : Option String

/-- What becomes of a row. -/
inductive RowVerdict where
  | missingParam
  | missingCall
  | unsafeParam
  | genericDomain
  | domainMismatch
  | loaded (param : ConfigParam)
deriving DecidableEq, Repr

/-- The chain of tests a row goes through, in order. -/
def rowVerdict (R : Registry) (row : RelationRow) : RowVerdict :=
  match R.supportedParams row.param with
  | none => .missingParam
  | some param =>
    if row.syzkallerCall = "" then .missingCall
    else if !allowedRelatedParam param then .unsafeParam
    -- Keep the executor-action MVP conservative: generic edges are too noisy
    -- for automatic parameter writes.
    else if row.descriptorDomain = "generic" then .genericDomain
    else if row.paramDomain ≠ row.descriptorDomain then .domainMismatch
    else .loaded param

/-- The counters of the `relation-load` audit event. -/
structure Audit where
  rawRows : ℕ
  loadedEdges : ℕ
  loadedCalls : ℕ
  loadedParams : ℕ
  droppedMissingParam : ℕ
  droppedMissingCall : ℕ
  droppedUnsafeParam : ℕ
  droppedDomainMismatch : ℕ
  droppedGenericDomain : ℕ
  loadedParamDomains : String → ℕ
  loadedParamValueDomains : String → ℕ

/-- `m[param.ID] = param` on the parameters of one call. -/
def insertParam (param : ConfigParam) (params : List ConfigParam) : List ConfigParam :=
  if params.any (·.id == param.id)
    then params.map fun q => if q.id == param.id then param else q
    else params ++ [param]

/-- `byCall[call][param.ID] = param` -/
def addEdge (call : String) (param : ConfigParam) :
    List (String × List ConfigParam) → List (String × List ConfigParam)
  | [] => [(call, [param])]
  | (c, params) :: rest =>
    if c = call then (c, insertParam param params) :: rest
    else (c, params) :: addEdge call param rest

/-- The variables of the loop over the lines: the verdicts so far and `byCall`. -/
structure LoadState where
  verdicts : List RowVerdict
  byCall : List (String × List ConfigParam)

def loadLine (R : Registry) (st : LoadState) (line : Except String RelationRow) :
    Except String LoadState := do
  let row ← line
  let verdict := rowVerdict R row
  let byCall := match verdict with
    | .loaded param => addEdge row.syzkallerCall param st.byCall
    | _ => st.byCall
  return { verdicts := verdict :: st.verdicts, byCall }

def sortedParams (params : List ConfigParam) : List ConfigParam :=
  sliceStable (fun a b => a.id < b.id) params

/-- The parameters of a call in a map from calls to parameters. -/
def paramsOf (m : List (String × List ConfigParam)) (call : String) : List ConfigParam :=
  (m.lookup call).getD []

@[simp] lemma paramsOf_nil (call : String) : paramsOf [] call = [] := rfl

@[simp] lemma paramsOf_cons (entry : String × List ConfigParam)
    (rest : List (String × List ConfigParam)) (call : String) :
    paramsOf (entry :: rest) call = if call = entry.1 then entry.2 else paramsOf rest call := by
  unfold paramsOf
  by_cases hcall : call = entry.1
  · rw [if_pos hcall, lookup_cons, beq_iff_eq.mpr hcall]
    rfl
  · rw [if_neg hcall, lookup_cons, beq_eq_false_iff_ne.mpr hcall]

/-- A loaded table. Its parameters are in the registry and passed `allowedRelatedParam`. -/
structure Planner (R : Registry) where
  callToParams : List (String × List ConfigParam)
  edgeCount : ℕ
  audit : Audit
  allowed : ∀ entry ∈ callToParams, ∀ param ∈ entry.2, param ∈ R.params ∧ allowedRelatedParam param

/-! ### Every loaded parameter is allowed -/

variable {R : Registry} {param : ConfigParam} {st st' : LoadState}

lemma rowVerdict_eq_loaded_iff {row : RelationRow} :
    rowVerdict R row = .loaded param ↔
      R.supportedParams row.param = some param ∧ row.syzkallerCall ≠ "" ∧
        allowedRelatedParam param ∧ row.descriptorDomain ≠ "generic" ∧
        row.paramDomain = row.descriptorDomain := by
  unfold rowVerdict
  cases R.supportedParams row.param with
  | none => simp
  | some found =>
    split_ifs <;> grind

/-- All parameters of the map satisfy `P`. -/
def AllParams (P : ConfigParam → Prop) (m : List (String × List ConfigParam)) : Prop :=
  ∀ entry ∈ m, ∀ param ∈ entry.2, P param

lemma mem_of_mem_insertParam {q : ConfigParam} {params : List ConfigParam}
    (h : q ∈ insertParam param params) : q = param ∨ q ∈ params := by
  unfold insertParam at h
  split at h
  · obtain ⟨old, hold, rfl⟩ := mem_map.mp h
    split
    · exact .inl rfl
    · exact .inr hold
  · simpa [or_comm] using h

lemma AllParams.addEdge {P : ConfigParam → Prop} {m : List (String × List ConfigParam)}
    (h : AllParams P m) {param : ConfigParam} (hparam : P param) (call : String) :
    AllParams P (addEdge call param m) := by
  induction m with
  | nil => simpa [KConfuzz.addEdge, AllParams] using hparam
  | cons entry rest ih =>
    have hentry := h entry mem_cons_self
    have hrest : AllParams P rest := fun e he => h e (mem_cons_of_mem _ he)
    unfold KConfuzz.addEdge
    split
    · intro e he
      rcases mem_cons.mp he with rfl | he
      · intro q hq
        rcases mem_of_mem_insertParam hq with rfl | hq
        · exact hparam
        · exact hentry q hq
      · exact hrest e he
    · intro e he
      rcases mem_cons.mp he with rfl | he
      · exact hentry
      · exact ih hrest e he

/-- What the loader's invariant says of a parameter. -/
def Allowed (R : Registry) (param : ConfigParam) : Prop :=
  param ∈ R.params ∧ allowedRelatedParam param

lemma AllParams.loadLine {line : Except String RelationRow} (h : AllParams (Allowed R) st.byCall)
    (hline : loadLine R st line = .ok st') : AllParams (Allowed R) st'.byCall := by
  cases line with
  | error err => cases hline
  | ok row =>
    obtain rfl : _ = st' := Except.ok.inj hline
    split
    · next param hverdict =>
      obtain ⟨hfound, -, hallowed, -⟩ := rowVerdict_eq_loaded_iff.1 hverdict
      exact h.addEdge ⟨(Registry.supportedParams_eq_some_iff.1 hfound).1, hallowed⟩ _
    · exact h

lemma AllParams.loadLines {lines : List (Except String RelationRow)}
    (h : AllParams (Allowed R) st.byCall)
    (hlines : lines.foldlM (KConfuzz.loadLine R) st = .ok st') : AllParams (Allowed R) st'.byCall :=
  foldlM_invariant (fun _ s => AllParams (Allowed R) s.byCall)
    (fun _ _ _ _ hs hline => hs.loadLine hline) h hlines

/-! ### The loader -/

def countVerdict (verdicts : List RowVerdict) (verdict : RowVerdict) : ℕ := verdicts.count verdict

/-- The second half of `LoadRelationTable`: sort the parameters of each call and fill in the
counters. -/
def finishLoad (st : LoadState) (h : AllParams (Allowed R) st.byCall) : Planner R :=
  let callToParams := st.byCall.map fun entry => (entry.1, sortedParams entry.2)
  let edges := callToParams.flatMap Prod.snd
  { callToParams
    edgeCount := edges.length
    audit :=
      { rawRows := st.verdicts.length
        loadedEdges := edges.length
        loadedCalls := callToParams.length
        loadedParams := (edges.map ConfigParam.id).dedup.length
        droppedMissingParam := countVerdict st.verdicts .missingParam
        droppedMissingCall := countVerdict st.verdicts .missingCall
        droppedUnsafeParam := countVerdict st.verdicts .unsafeParam
        droppedDomainMismatch := countVerdict st.verdicts .domainMismatch
        droppedGenericDomain := countVerdict st.verdicts .genericDomain
        loadedParamDomains := fun d => (edges.map ConfigParam.domain).count d
        loadedParamValueDomains := fun d => (edges.map ConfigParam.valueDomain).count d }
    allowed := by
      refine forall_mem_map.mpr fun raw hraw param hparam => ?_
      exact h raw hraw param (mem_sliceStable.1 hparam) }

/-- `LoadRelationTable` on the contents of the file. -/
def loadRelationTable (R : Registry) (file : RelationFile) : Except String (Planner R) :=
  match h : file.lines.foldlM (loadLine R) { verdicts := [], byCall := [] } with
  | .error err => .error err
  | .ok st =>
    match file.scanErr with
    | some err => .error err
    | none => .ok (finishLoad st (AllParams.loadLines (by simp [AllParams]) h))

end KConfuzz
