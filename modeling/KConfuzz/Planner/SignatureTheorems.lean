import KConfuzz.Planner.Env
import Mathlib.Data.Countable.Basic
import Mathlib.Logic.Equiv.List

/-!
# When two contexts are equal (`prog/kconfuzz.go`)

`KConfuzzConfigContextEqual` compares signatures: the encoding of a context with its actions
normalized. A context without actions keeps a nil slice, which is not encoded as an empty one.
-/

namespace KConfuzz

open Lib.StableSort

lemma KConfuzzConfigAction.key_injective : Function.Injective KConfuzzConfigAction.key := by
  intro ⟨call, param, value, flags⟩ ⟨call', param', value', flags'⟩ h
  simpa only [key, toLex_inj, Prod.mk.injEq, UInt64.toNat_inj, KConfuzzConfigAction.mk.injEq] using h

variable {p : Option Prog} {actions l₁ l₂ : List KConfuzzConfigAction}

/-- No two actions have the same place in the order. -/
lemma normalizeKConfuzzConfigActions_eq_iff :
    normalizeKConfuzzConfigActions p l₁ = normalizeKConfuzzConfigActions p l₂ ↔
      (l₁.filter (·.inRange p)).Perm (l₂.filter (·.inRange p)) := by
  constructor
  · intro h
    have hperm := sliceStable_perm actionLess (l₁.filter (·.inRange p))
    rw [← normalizeKConfuzzConfigActions, h] at hperm
    exact hperm.symm.trans (sliceStable_perm _ _)
  · intro h
    have hmap := actionLess_compares.map_sliceStable_eq h (f := id)
      fun _ _ _ _ heq => KConfuzzConfigAction.key_injective heq
    rw [List.map_id, List.map_id] at hmap
    exact hmap

lemma normalizeKConfuzzConfigActions_perm (hrange : ∀ a ∈ actions, a.inRange p) :
    (normalizeKConfuzzConfigActions p actions).Perm actions := by
  rw [normalizeKConfuzzConfigActions, List.filter_eq_self.mpr hrange]
  exact sliceStable_perm _ _

/-- What `json.Marshal` sees of a context. -/
def KConfuzzConfigContext.encoded (ctx : KConfuzzConfigContext) :
    String × String × Bool × Option (List KConfuzzConfigAction) :=
  (ctx.strategy, ctx.source, ctx.configDependent,
    if ctx.actions.isEmpty then none else some (normalizeKConfuzzConfigActions none ctx.actions))

namespace Env

variable (env : Env)

/-- `KConfuzzConfigContextEqual`; a nil context has no signature. -/
def kconfuzzConfigContextEqual (a b : Option KConfuzzConfigContext) : Bool :=
  a.elim [] env.signatureData == b.elim [] env.signatureData

def marshalEncoded (x : String × String × Bool × Option (List KConfuzzConfigAction)) : List UInt8 :=
  env.marshal x.1 x.2.1 x.2.2.1 x.2.2.2

variable {env} {ctx x y : KConfuzzConfigContext}

lemma signatureData_of_not_empty (h : ctx.empty = false) :
    env.signatureData ctx = "kconfuzz:".toUTF8.toList ++ env.marshalEncoded ctx.encoded :=
  if_neg (by simp [h])

lemma signatureData_eq_nil_iff : env.signatureData ctx = [] ↔ ctx.empty = true := by
  cases hempty : ctx.empty with
  | true => simp [signatureData, hempty]
  | false =>
    have hne : "kconfuzz:".toUTF8.toList ≠ [] := by decide +kernel
    rw [signatureData_of_not_empty hempty]
    exact iff_of_false (List.append_ne_nil_of_left_ne_nil hne _) Bool.false_ne_true

lemma signatureData_eq_iff (hinj : Function.Injective env.marshalEncoded) (hx : x.empty = false)
    (hy : y.empty = false) : env.signatureData x = env.signatureData y ↔
      x.strategy = y.strategy ∧ x.source = y.source ∧ x.configDependent = y.configDependent ∧
        (x.actions.filter (0 ≤ ·.beforeCall)).Perm (y.actions.filter (0 ≤ ·.beforeCall)) ∧
        (x.actions = [] ↔ y.actions = []) := by
  have hrange : ∀ l : List KConfuzzConfigAction,
      l.filter (0 ≤ ·.beforeCall) = l.filter (·.inRange none) := by
    simp [KConfuzzConfigAction.inRange]
  rw [signatureData_of_not_empty hx, signatureData_of_not_empty hy, List.append_right_inj,
    hinj.eq_iff]
  simp only [KConfuzzConfigContext.encoded, Prod.mk.injEq, hrange,
    ← normalizeKConfuzzConfigActions_eq_iff]
  cases x.actions <;> cases y.actions <;> simp

lemma signatureData_perm (h : actions.Perm ctx.actions) :
    env.signatureData { ctx with actions } = env.signatureData ctx := by
  have hnormalized := (normalizeKConfuzzConfigActions_eq_iff (p := none)).2 (h.filter _)
  simp only [signatureData, KConfuzzConfigContext.empty, h.isEmpty_eq, hnormalized]
  rfl

/-- Contexts are equal if and only if both are empty, or neither is and they have the same
strategy, source, flag and actions with indices that are not negative, where contexts without any
actions differ from those that have some. -/
theorem kconfuzzConfigContextEqual_spec (hinj : Function.Injective env.marshalEncoded) :
    (∀ a b, env.kconfuzzConfigContextEqual a b = true ↔
      a.all KConfuzzConfigContext.empty = true ∧ b.all KConfuzzConfigContext.empty = true ∨
      ∃ x ∈ a, ∃ y ∈ b, x.empty = false ∧ y.empty = false ∧ x.strategy = y.strategy ∧
        x.source = y.source ∧ x.configDependent = y.configDependent ∧
        (x.actions.filter (0 ≤ ·.beforeCall)).Perm (y.actions.filter (0 ≤ ·.beforeCall)) ∧
        (x.actions = [] ↔ y.actions = [])) ∧
    Equivalence (fun a b => env.kconfuzzConfigContextEqual a b = true) ∧
    (∀ ctx actions, actions.Perm ctx.actions →
      env.kconfuzzConfigContextEqual (some { ctx with actions }) (some ctx) = true) ∧
    (∀ p actions, normalizeKConfuzzConfigActions p (normalizeKConfuzzConfigActions p actions) =
      normalizeKConfuzzConfigActions p actions) ∧
    (∀ p (ctx : KConfuzzConfigContext),
      (ctx.cloneForProg p).bind (·.cloneForProg p) = ctx.cloneForProg p) ∧
    ∀ p (ctx : KConfuzzConfigContext), (∀ a ∈ ctx.actions, a.inRange p) →
      env.kconfuzzConfigContextEqual
        (some { ctx with actions := normalizeKConfuzzConfigActions p ctx.actions }) (some ctx) = true ∧
      env.kconfuzzConfigContextEqual (ctx.cloneForProg p) (some ctx) = true := by
  simp only [kconfuzzConfigContextEqual, beq_iff_eq]
  refine ⟨fun a b => ?_, ?_, fun ctx actions => signatureData_perm,
    normalizeKConfuzzConfigActions_idem, fun p ctx => ?_, fun p ctx hrange => ?_⟩
  · rcases a with - | x <;> rcases b with - | y
    · simp
    · simp [eq_comm (a := []), signatureData_eq_nil_iff]
    · simp [signatureData_eq_nil_iff]
    · cases hx : x.empty <;> cases hy : y.empty
      · simpa [hx, hy] using signatureData_eq_iff hinj hx hy
      · simp [hx, hy, signatureData_eq_nil_iff.2 hy, signatureData_eq_nil_iff]
      · simp [hx, hy, signatureData_eq_nil_iff.2 hx, eq_comm (a := []), signatureData_eq_nil_iff]
      · simp [hx, hy, signatureData_eq_nil_iff.2 hx, signatureData_eq_nil_iff.2 hy]
  · exact ⟨fun _ => rfl, fun h => h.symm, fun h h' => h.trans h'⟩
  · cases hclone : ctx.cloneForProg p with
    | none => rfl
    | some ctx' =>
      obtain rfl := KConfuzzConfigContext.eq_of_cloneForProg hclone
      rw [Option.bind_some, ← hclone]
      simp [KConfuzzConfigContext.cloneForProg]
  · have hperm := normalizeKConfuzzConfigActions_perm hrange
    refine ⟨signatureData_perm hperm, ?_⟩
    cases hclone : ctx.cloneForProg p with
    | none =>
      obtain ⟨hnil, hdep⟩ := KConfuzzConfigContext.cloneForProg_eq_none_iff.1 hclone
      rw [hnil] at hperm
      refine (signatureData_eq_nil_iff.2 ?_).symm
      simp [KConfuzzConfigContext.empty, hperm.nil_eq, hdep]
    | some ctx' =>
      rw [KConfuzzConfigContext.eq_of_cloneForProg hclone]
      exact signatureData_perm hperm

/-- There are encodings of contexts that lose nothing. -/
lemma exists_marshalEncoded_injective : ∃ env : Env, Function.Injective env.marshalEncoded := by
  have hchar : Countable Char :=
    Function.Injective.countable (f := Char.toNat) fun _ _ h => Char.toNat_inj.mp h
  have hstring : Countable String :=
    Function.Injective.countable (f := String.toList) fun _ _ h => String.toList_inj.mp h
  have hword : Countable UInt64 :=
    Function.Injective.countable (f := UInt64.toNat) fun _ _ h => UInt64.toNat_inj.mp h
  have haction : Countable KConfuzzConfigAction :=
    Function.Injective.countable (f := fun a => (a.beforeCall, a.paramID, a.valueID, a.flags))
      fun ⟨_, _, _, _⟩ ⟨_, _, _, _⟩ h => by simpa using h
  obtain ⟨f, hf⟩ :=
    exists_injective_nat (String × String × Bool × Option (List KConfuzzConfigAction))
  refine ⟨⟨⟨[], .nil, .nil⟩, fun _ => "", fun _ => none, fun _ => [], fun strategy source dep
    actions => List.replicate (f (strategy, source, dep, actions)) 0, fun _ _ => ""⟩, fun x y h => ?_⟩
  exact hf (by simpa [marshalEncoded] using congrArg List.length h)

theorem kconfuzzConfigContextEqual_sources : ∃ env : Env, Function.Injective env.marshalEncoded ∧
    env.kconfuzzConfigContextEqual (some ⟨"call", "a", true, []⟩) (some ⟨"call", "b", true, []⟩) =
      false := by
  obtain ⟨env, hinj⟩ := exists_marshalEncoded_injective
  refine ⟨env, hinj, Bool.eq_false_iff.mpr fun h => ?_⟩
  have hcases := ((kconfuzzConfigContextEqual_spec hinj).1 _ _).mp h
  simp [KConfuzzConfigContext.empty] at hcases

/-- A context without actions is not equal to one whose only action is dropped. -/
theorem kconfuzzConfigContextEqual_dropped :
    (∃ env : Env, Function.Injective env.marshalEncoded) ∧
    ∀ env : Env, Function.Injective env.marshalEncoded → env.kconfuzzConfigContextEqual
      (some ⟨"call", "a", true, []⟩) (some ⟨"call", "a", true, [⟨-1, 1, 1, 0⟩]⟩) = false := by
  refine ⟨exists_marshalEncoded_injective, fun env hinj => Bool.eq_false_iff.mpr fun h => ?_⟩
  have heq := (signatureData_eq_iff hinj rfl rfl).1 (beq_iff_eq.mp h)
  simp at heq

end Env

end KConfuzz
