import Mathlib.Data.List.Flatten
import KConfuzz.Prog.Collide

/-!
# Copies of argument trees

A tree with other results, `Arg.mapResults`, is a copy that keeps the identities of the arguments,
so what is below an argument after a change of results is told by the lemmas on copies.
-/

namespace KConfuzz

open List Call

/-! ## Copies of trees -/

variable (fresh : ArgId → ArgId) (f : ResultArg → ResultArg)

lemma Arg.copyList_eq_map (args : List Arg) :
    Arg.copyList fresh f args = args.map (Arg.copy fresh f) := by
  induction args with
  | nil => rfl
  | cons arg args ih => rw [Arg.copyList, ih, map_cons]

lemma Arg.mapResultsList_eq_map (args : List Arg) :
    Arg.mapResultsList f args = args.map (Arg.mapResults f) := by
  induction args with
  | nil => rfl
  | cons arg args ih => rw [Arg.mapResultsList, ih, map_cons]

lemma Arg.children_copy (arg : Arg) :
    (arg.copy fresh f).children = arg.children.map (Arg.copy fresh f) := by
  cases arg with
  | group _ _ _ inner => exact Arg.copyList_eq_map fresh f inner
  | pointer _ _ _ _ _ res => cases res <;> rfl
  | _ => rfl

lemma Arg.subtree_copy (arg : Arg) :
    (arg.copy fresh f).subtree = arg.subtree.map (Arg.copy fresh f) := by
  induction arg using Arg.childInduction with
  | step arg ih =>
    rw [Arg.subtree_eq, Arg.children_copy, Arg.subtree_eq arg, map_cons, map_flatMap, flatMap_map,
      flatMap_congr ih]

lemma mapResults_eq_copy (arg : Arg) : arg.mapResults f = arg.copy id f := by
  induction arg using Arg.childInduction with
  | step arg ih =>
    cases arg with
    | group _ _ _ inner =>
      have hinner : inner.map (Arg.mapResults f) = inner.map (Arg.copy id f) := map_congr_left ih
      rw [Arg.mapResults, Arg.copy, Arg.mapResultsList_eq_map, Arg.copyList_eq_map, hinner, id_eq]
    | pointer _ _ _ _ _ res =>
      cases res with
      | none => rfl
      | some res => simp [Arg.mapResults, Arg.mapResultsOption, Arg.copy, Arg.copyOption,
          ih res mem_cons_self]
    | union _ _ _ option _ => simp [Arg.mapResults, Arg.copy, ih option mem_cons_self]
    | _ => rfl

lemma Arg.copy_copy (fresh fresh' : ArgId → ArgId) (f f' : ResultArg → ResultArg) (arg : Arg) :
    (arg.copy fresh f).copy fresh' f' = arg.copy (fresh' ∘ fresh) (f' ∘ f) := by
  induction arg using Arg.childInduction with
  | step arg ih =>
    cases arg with
    | group _ _ _ inner =>
      have hinner : inner.map (Arg.copy fresh' f' ∘ Arg.copy fresh f) = _ := map_congr_left ih
      simp only [Arg.copy, Arg.copyList_eq_map, map_map, Function.comp_apply, hinner]
    | pointer _ _ _ _ _ res =>
      cases res with
      | none => rfl
      | some res => simp [Arg.copy, Arg.copyOption, ih res mem_cons_self]
    | union _ _ _ option _ => simp [Arg.copy, ih option mem_cons_self]
    | _ => rfl

lemma Arg.id_copy {fresh : ArgId → ArgId} {f : ResultArg → ResultArg} {arg : Arg}
    (hf : ∀ r, arg = .result r → (f r).id = fresh r.id) :
    (arg.copy fresh f).id = fresh arg.id := by
  cases arg with
  | result r => exact hf r rfl
  | _ => rfl

lemma Arg.dir_copy {fresh : ArgId → ArgId} {f : ResultArg → ResultArg} {arg : Arg}
    (hf : ∀ r, arg = .result r → (f r).dir = r.dir) : (arg.copy fresh f).dir = arg.dir := by
  cases arg with
  | result r => exact hf r rfl
  | _ => rfl

/-! ## Copies of calls -/

variable (calls : List Call)

lemma Call.nodes_copy (c : Call) : (c.copy fresh f).nodes = c.nodes.map (Arg.copy fresh f) := by
  have hret : ((c.ret.map f).map Arg.result).toList =
      (c.ret.map Arg.result).toList.map (Arg.copy fresh f) := by
    cases c.ret <;> simp [Arg.copy]
  simp only [nodes, argNodes, retNodes, copy, map_append, hret,
    flatMap_map, map_flatMap, Arg.subtree_copy]

lemma flatMap_nodes_copy : (calls.map (copy fresh f)).flatMap nodes =
      (calls.flatMap nodes).map (Arg.copy fresh f) := by
  simp only [flatMap_map, nodes_copy, map_flatMap]

lemma results_copy : results (calls.map (copy fresh f)) = (results calls).map f := by
  rw [results, flatMap_nodes_copy, results, filterMap_map, map_filterMap]
  congr 1
  funext arg
  cases arg <;> rfl

lemma results_mapResults : results (calls.map (Call.mapResults f)) = (results calls).map f := by
  rw [← results_copy id]
  unfold Call.mapResults
  rw [funext (mapResults_eq_copy f)]
  rfl

end KConfuzz
