import Mathlib.Data.List.Infix
import KConfuzz.Prog.Context

/-!
# The parameter registry and its gates (`pkg/kconfuzz/actionplanner.go`)

The generated table of runtime parameters, and the predicates that decide which of them the
planner may write on its own, which of them a relation table may name, and which actions of a
request are kept.
-/

namespace KConfuzz

open List

structure ConfigParam where
  name : String
  id : UInt64
  valueCount : UInt64
  domain : String
  valueDomain : String
  autoSafe : Bool
  mutator : Bool
  mutatorConfidence : String
  mutatorKind : String
  mutatorFamily : String
  mutatorTfuzzValueIDs : List UInt64
  mutatorSeedValueIDs : List UInt64
  mutatorRandomValueIDs : List UInt64
deriving DecidableEq, Repr

/-- `SupportedParams`: the map is keyed by name, and an identifier stands for one parameter. -/
structure Registry where
  params : List ConfigParam
  names_nodup : (params.map ConfigParam.name).Nodup
  ids_nodup : (params.map ConfigParam.id).Nodup

namespace Registry

/-- `SupportedParams[name]` -/
def supportedParams (R : Registry) (name : String) : Option ConfigParam :=
  R.params.find? (·.name == name)

def paramByID (R : Registry) (id : UInt64) : Option ConfigParam :=
  R.params.find? (·.id == id)

end Registry

/-! ## Gates -/

/-- `strings.Contains(strings.ToLower(s), token)`; parameter and call names are ASCII. -/
def lowerContains (s token : String) : Bool :=
  decide (token.toList <:+: s.toList.map Char.toLower)

def hardBlockedConfigParam (param : ConfigParam) : Bool :=
  ["panic", "watchdog", "lockup", "hung_task", "sysrq", "modules_disabled", "kexec"].any
    (lowerContains param.name)

def allowedRelatedParam (param : ConfigParam) : Bool :=
  if !param.mutator || param.valueCount ≤ 1 then false else !hardBlockedConfigParam param

def conservativeRandomParam (param : ConfigParam) : Bool :=
  allowedRelatedParam param && param.autoSafe &&
    param.domain != "generic" &&
    ["high", "medium"].contains param.mutatorConfidence &&
    !(["unbounded_numeric", "unbounded_numeric_taint", "bounded_numeric_taint"].contains
      param.mutatorKind) &&
    !lowerContains param.name "disable"

def safeRandomParam (param : ConfigParam) : Bool :=
  conservativeRandomParam param && ["bool", "enum", "bitmask"].contains param.mutatorFamily

/-- `FilterSupportedActions` keeps this action. -/
def supportedAction (R : Registry) (action : KConfuzzConfigAction) : Bool :=
  match R.paramByID action.paramID with
  | none => false
  | some param =>
    allowedRelatedParam param && param.valueCount != 0 &&
      (decide (action.valueID < param.valueCount) ||
        action.flags &&& kconfuzzConfigFlagFlip != 0)

def filterSupportedActions (R : Registry) (actions : List KConfuzzConfigAction) :
    List KConfuzzConfigAction :=
  actions.filter (supportedAction R)

/-! ## Lemmas -/

variable {R : Registry}

lemma find?_key_eq_some_iff {α κ : Type*} [DecidableEq κ] {key : α → κ} {l : List α}
    (hnodup : (l.map key).Nodup) {k : κ} {a : α} :
    l.find? (key · == k) = some a ↔ a ∈ l ∧ key a = k := by
  constructor
  · intro h
    exact ⟨mem_of_find?_eq_some h, by simpa using find?_some h⟩
  · rintro ⟨hmem, rfl⟩
    cases hfind : l.find? (key · == key a) with
    | none => simpa using find?_eq_none.mp hfind a hmem
    | some b =>
      have hkey : key b = key a := by simpa using find?_some hfind
      rw [inj_on_of_nodup_map hnodup (mem_of_find?_eq_some hfind) hmem hkey]

variable {param : ConfigParam} {action : KConfuzzConfigAction}

lemma Registry.paramByID_eq_some_iff {id : UInt64} :
    R.paramByID id = some param ↔ param ∈ R.params ∧ param.id = id :=
  find?_key_eq_some_iff R.ids_nodup

lemma Registry.supportedParams_eq_some_iff {name : String} :
    R.supportedParams name = some param ↔ param ∈ R.params ∧ param.name = name :=
  find?_key_eq_some_iff R.names_nodup

lemma allowedRelatedParam_valueCount (h : allowedRelatedParam param) : 1 < param.valueCount := by
  unfold allowedRelatedParam at h
  split at h
  · cases h
  · next hcount =>
    simp only [Bool.or_eq_true, decide_eq_true_eq, not_or] at hcount
    exact UInt64.not_le.mp hcount.2

/-- Only `AutoSafe` parameters are planned at random, and all of them may be related. -/
lemma safeRandomParam_spec (h : safeRandomParam param) :
    allowedRelatedParam param ∧ param.autoSafe := by
  simp only [safeRandomParam, conservativeRandomParam, Bool.and_eq_true] at h
  exact ⟨h.1.1.1.1.1.1, h.1.1.1.1.1.2⟩

/-- An action is supported by the parameter with its identifier. -/
lemma supportedAction_iff :
    supportedAction R action ↔
      ∃ param ∈ R.params, param.id = action.paramID ∧ allowedRelatedParam param ∧
        (action.valueID < param.valueCount ∨ action.flags &&& kconfuzzConfigFlagFlip ≠ 0) := by
  unfold supportedAction
  cases h : R.paramByID action.paramID with
  | none =>
    simp only [Bool.false_eq_true, false_iff]
    rintro ⟨param, hmem, hid, -⟩
    rw [Registry.paramByID_eq_some_iff.2 ⟨hmem, hid⟩] at h
    cases h
  | some param =>
    obtain ⟨hmem, hid⟩ := Registry.paramByID_eq_some_iff.1 h
    simp only [Bool.and_eq_true, Bool.or_eq_true, decide_eq_true_eq, bne_iff_ne]
    constructor
    · rintro ⟨⟨hallowed, -⟩, hvalue⟩
      exact ⟨param, hmem, hid, hallowed, hvalue⟩
    · rintro ⟨other, hother, hid', hallowed, hvalue⟩
      obtain rfl := inj_on_of_nodup_map R.ids_nodup hother hmem (hid'.trans hid.symm)
      have hcount := allowedRelatedParam_valueCount hallowed
      refine ⟨⟨hallowed, fun hzero => ?_⟩, hvalue⟩
      rw [hzero] at hcount
      exact absurd hcount (by decide)

@[simp] lemma mem_filterSupportedActions {actions : List KConfuzzConfigAction} :
    action ∈ filterSupportedActions R actions ↔ action ∈ actions ∧ supportedAction R action :=
  mem_filter

/-- The two steps every action of a request goes through can be taken in either order. -/
lemma filterSupportedActions_normalize (p : Option Prog) (actions : List KConfuzzConfigAction) :
    filterSupportedActions R (normalizeKConfuzzConfigActions p actions) =
      normalizeKConfuzzConfigActions p (filterSupportedActions R actions) := by
  rw [filterSupportedActions, normalizeKConfuzzConfigActions, normalizeKConfuzzConfigActions,
    actionLess_compares.filter_sliceStable, filter_comm]
  rfl

end KConfuzz
