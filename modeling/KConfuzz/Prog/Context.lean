import KConfuzz.Lib.StableSort
import KConfuzz.Prog.Args

/-!
# Config actions and contexts (`prog/kconfuzz.go`)

A config action asks the executor to write a runtime parameter before the call of index
`beforeCall`; a context carries the actions of a program together with where they came from.
Actions are tied to calls by index only, so before they are used for a program they are
normalized: the ones out of its range are dropped and the rest sorted.
-/

namespace KConfuzz

open Lib.StableSort

structure KConfuzzConfigAction where
  beforeCall : ℤ
  paramID : UInt64
  valueID : UInt64
  flags : UInt64
deriving DecidableEq, Repr

/-- `KConfuzzConfigFlagFlip` -/
def kconfuzzConfigFlagFlip : UInt64 := 2

def kconfuzzConfigStrategySequence : String := "sequence"

def kconfuzzConfigStrategyCall : String := "call"

def kconfuzzConfigStrategyBoth : String := "both"

structure KConfuzzConfigContext where
  strategy : String
  source : String
  configDependent : Bool
  actions : List KConfuzzConfigAction
deriving DecidableEq, Repr

/-! ## Normalizing -/

/-- The order of normalized actions: by call, parameter, value and flags. -/
def actionLess (a b : KConfuzzConfigAction) : Bool :=
  if a.beforeCall ≠ b.beforeCall then a.beforeCall < b.beforeCall
  else if a.paramID ≠ b.paramID then a.paramID < b.paramID
  else if a.valueID ≠ b.valueID then a.valueID < b.valueID
  else a.flags < b.flags

/-- The index stands before a call of `p` or at its end; without a program only negative
indices are out of range. -/
def KConfuzzConfigAction.inRange (p : Option Prog) (action : KConfuzzConfigAction) : Bool :=
  decide (0 ≤ action.beforeCall) &&
    match p with
    | some p => decide (action.beforeCall ≤ p.calls.length)
    | none => true

lemma KConfuzzConfigAction.inRange_some_iff {p : Prog} {action : KConfuzzConfigAction} :
    action.inRange (some p) ↔ 0 ≤ action.beforeCall ∧ action.beforeCall ≤ p.calls.length := by
  simp [inRange]

def normalizeKConfuzzConfigActions (p : Option Prog) (actions : List KConfuzzConfigAction) :
    List KConfuzzConfigAction :=
  sliceStable actionLess (actions.filter (·.inRange p))

namespace KConfuzzConfigContext

def empty (ctx : KConfuzzConfigContext) : Bool := ctx.actions.isEmpty && !ctx.configDependent

/-- `CloneForProg` of a context that is not nil. -/
def cloneForProg (ctx : KConfuzzConfigContext) (p : Option Prog) : Option KConfuzzConfigContext :=
  let ret := { ctx with actions := normalizeKConfuzzConfigActions p ctx.actions }
  if ret.actions.isEmpty && !ret.configDependent then none else some ret

end KConfuzzConfigContext

/-! ## Lemmas about normalizing -/

/-- The components `actionLess` compares, most significant first. -/
def KConfuzzConfigAction.key (a : KConfuzzConfigAction) : ℤ ×ₗ ℕ ×ₗ ℕ ×ₗ ℕ :=
  toLex (a.beforeCall, toLex (a.paramID.toNat, toLex (a.valueID.toNat, a.flags.toNat)))

lemma actionLess_compares : Compares actionLess KConfuzzConfigAction.key := by
  intro a b
  simp only [KConfuzzConfigAction.key, Prod.Lex.toLex_lt_toLex, UInt64.toNat_inj]
  unfold actionLess
  split_ifs with hcall hparam hvalue
  · simp [hcall]
  · simp [not_not.mp hcall, hparam, UInt64.lt_iff_toNat_lt]
  · simp [not_not.mp hcall, not_not.mp hparam, hvalue, UInt64.lt_iff_toNat_lt]
  · simp [not_not.mp hcall, not_not.mp hparam, not_not.mp hvalue, UInt64.lt_iff_toNat_lt]

variable {p : Option Prog} {actions : List KConfuzzConfigAction}

@[simp] lemma mem_normalizeKConfuzzConfigActions {a : KConfuzzConfigAction} :
    a ∈ normalizeKConfuzzConfigActions p actions ↔ a ∈ actions ∧ a.inRange p := by
  rw [normalizeKConfuzzConfigActions, mem_sliceStable, List.mem_filter]

lemma sortedBy_normalizeKConfuzzConfigActions (p : Option Prog)
    (actions : List KConfuzzConfigAction) :
    SortedBy KConfuzzConfigAction.key (normalizeKConfuzzConfigActions p actions) :=
  actionLess_compares.sortedBy_sliceStable _

lemma normalizeKConfuzzConfigActions_eq_self (hsorted : SortedBy KConfuzzConfigAction.key actions)
    (hrange : ∀ a ∈ actions, a.inRange p) : normalizeKConfuzzConfigActions p actions = actions := by
  rw [normalizeKConfuzzConfigActions, List.filter_eq_self.mpr hrange,
    actionLess_compares.sliceStable_eq_self hsorted]

namespace KConfuzzConfigContext

/-- A context is dropped for a program when no action is in range and it is not config
dependent. -/
lemma cloneForProg_eq_none_iff {ctx : KConfuzzConfigContext} :
    ctx.cloneForProg p = none ↔
      normalizeKConfuzzConfigActions p ctx.actions = [] ∧ ctx.configDependent = false := by
  simp [cloneForProg]

lemma eq_of_cloneForProg {ctx ctx' : KConfuzzConfigContext} (h : ctx.cloneForProg p = some ctx') :
    ctx' = { ctx with actions := normalizeKConfuzzConfigActions p ctx.actions } := by
  unfold cloneForProg at h
  dsimp only at h
  split at h
  · cases h
  · exact (Option.some.inj h).symm

end KConfuzzConfigContext

lemma normalizeKConfuzzConfigActions_eq_nil_iff :
    normalizeKConfuzzConfigActions p actions = [] ↔ ∀ a ∈ actions, a.inRange p = false := by
  simp [List.eq_nil_iff_forall_not_mem]

@[simp] lemma normalizeKConfuzzConfigActions_idem (p : Option Prog)
    (actions : List KConfuzzConfigAction) :
    normalizeKConfuzzConfigActions p (normalizeKConfuzzConfigActions p actions) =
      normalizeKConfuzzConfigActions p actions :=
  normalizeKConfuzzConfigActions_eq_self (sortedBy_normalizeKConfuzzConfigActions p actions)
    fun _ ha => (mem_normalizeKConfuzzConfigActions.1 ha).2

end KConfuzz
