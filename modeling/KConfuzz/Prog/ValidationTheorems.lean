import KConfuzz.Prog.LinksTheorems

/-!
# What `validate` accepts

`validate` goes through the program once and looks at what it has seen so far. `validate_eq_ok_iff`
says what it accepts without this order of visits: conditions on each call and on each argument,
no argument twice, and the links between the results.
-/

namespace KConfuzz

open Lib.ExceptFold List Arg
open Lib.LinkGraph

/-! ## Conditions on single arguments and calls -/

/-- The conditions on an argument by itself. -/
def ArgOk (target : Target) : Arg → Prop
  | .result r => ¬ (r.dir = .dirOut ∧ r.val ≠ 0 ∧ r.val ≠ r.typ.default) ∧
    ¬ (r.dir = .dirIn ∧ r.uses ≠ []) ∧ ¬ (r.uses ≠ [] ∧ r.typ.typeSize > 8)
  | arg => validateKind target [] arg = .ok ()

structure CallOk (c : Call) : Prop where
  props : ¬ (c.props.rerun > 0 ∧ c.props.failNth > 0)
  args : ∀ arg ∈ c.args, arg.dir = .dirIn
  ret : ∀ r, c.ret = some r → r.dir = .dirOut ∧ r.res = none ∧ r.val = 0 ∧ r.opDiv = 0 ∧ r.opAdd = 0

/-- The links between the results: a result refers to an earlier one, or to itself, that knows
about it, and is used only by those who refer to it. -/
structure LinksOk (rs : List ResultArg) : Prop where
  earlier : ∀ r ∈ rs, ∀ t, r.res = some t → t = r.id ∨ [t, r.id].Sublist (rs.map ResultArg.id)
  known : ∀ r ∈ rs, ∀ t, r.res = some t → ∃ x ∈ rs, x.id = t ∧ r.id ∈ x.uses
  used : ∀ r ∈ rs, ∀ u ∈ r.uses, ∃ user ∈ rs, user.id = u ∧ user.res = some r.id

/-! ## Visits -/

variable {visited : List Arg}

lemma validateLink_eq_ok_iff {r : ResultArg} :
    validateLink visited r = .ok () ↔
      ∀ t, r.res = some t → ∃ x, findResult visited t = some x ∧ r.id ∈ x.uses := by
  unfold validateLink
  cases r.res with
  | none => simp
  | some t =>
    cases hfind : findResult visited t with
    | none => simp [hfind]
    | some x => simp [hfind, failIf_eq_ok_iff]

variable {target : Target} {arg : Arg}

lemma validateKind_eq_ok_iff :
    validateKind target visited arg = .ok () ↔
      ArgOk target arg ∧ ∀ r, arg = .result r → validateLink visited r = .ok () := by
  cases arg with
  | result r =>
    simp only [validateKind, validateResult, ArgOk, bind_eq_ok_iff, failIf_eq_ok_iff,
      result.injEq, forall_eq']
    constructor
    · rintro ⟨_, hval, _, hlink, _, hin, hsize⟩
      exact ⟨⟨hval, hin, hsize⟩, hlink⟩
    · rintro ⟨⟨hval, hin, hsize⟩, hlink⟩
      exact ⟨(), hval, (), hlink, (), hin, hsize⟩
  | group _ _ typ _ => cases typ <;> simp [ArgOk, validateKind]
  | _ => simp [ArgOk, validateKind]

/-- The conditions on an argument at the end of a visit. -/
def NodeOk (target : Target) (visited : List Arg) (arg : Arg) : Prop :=
  (∀ other ∈ visited, other.id ≠ arg.id) ∧ ArgOk target arg ∧
    ∀ r, arg = .result r → validateLink (visited ++ [arg]) r = .ok ()

variable {v : List Arg}

lemma validateNode_eq_ok_iff :
    validateNode target visited arg = .ok v ↔ NodeOk target visited arg ∧ v = visited ++ [arg] := by
  simp only [validateNode, bind_eq_ok_iff, failIf_eq_ok_iff, NodeOk]
  constructor
  · rintro ⟨_, hfresh, _, hkind, hv⟩
    cases hv
    exact ⟨⟨by simpa using hfresh, validateKind_eq_ok_iff.1 hkind⟩, rfl⟩
  · rintro ⟨⟨hfresh, hkind⟩, rfl⟩
    exact ⟨(), by simpa using hfresh, (), validateKind_eq_ok_iff.2 hkind, rfl⟩

variable {l : List Arg}

/-- Arguments are checked one by one, against those before. -/
lemma foldlM_validateNode_eq_ok_iff :
    l.foldlM (validateNode target) visited = .ok v ↔
      (∀ pre arg post, l = pre ++ arg :: post → NodeOk target (visited ++ pre) arg) ∧
        v = visited ++ l := by
  induction l generalizing visited with
  | nil =>
    simp only [foldlM_nil, append_nil]
    constructor
    · intro h
      cases h
      exact ⟨fun pre arg post h => by simp at h, rfl⟩
    · rintro ⟨-, rfl⟩
      rfl
  | cons arg l ih =>
    simp only [foldlM_cons, bind_eq_ok_iff, validateNode_eq_ok_iff, ih]
    constructor
    · rintro ⟨_, ⟨harg, rfl⟩, hl, rfl⟩
      refine ⟨?_, by simp⟩
      intro pre arg' post heq
      cases pre with
      | nil =>
        obtain ⟨rfl, -⟩ := List.cons.inj heq
        rwa [append_nil]
      | cons first pre =>
        obtain ⟨rfl, hrest⟩ := List.cons.inj heq
        have := hl pre arg' post hrest
        rwa [append_assoc, singleton_append] at this
    · rintro ⟨hall, rfl⟩
      refine ⟨visited ++ [arg], ⟨?_, rfl⟩, ?_, by simp⟩
      · have := hall [] arg l rfl
        rwa [append_nil] at this
      · intro pre arg' post heq
        have := hall (arg :: pre) arg' post (by rw [heq, cons_append])
        rwa [append_assoc, singleton_append]

lemma validateArg_eq_ok_iff {dir : Dir} :
    validateArg target dir visited arg = .ok v ↔
      arg.dir = dir ∧ arg.subtree.foldlM (validateNode target) visited = .ok v := by
  simp only [validateArg, bind_eq_ok_iff, failIf_eq_ok_iff, not_not]
  constructor
  · rintro ⟨_, h⟩
    exact h
  · exact fun h => ⟨(), h⟩

lemma validateRet_eq_ok_iff {c : Call} :
    validateRet target visited c.ret = .ok v ↔
      (∀ r, c.ret = some r →
        r.dir = .dirOut ∧ r.res = none ∧ r.val = 0 ∧ r.opDiv = 0 ∧ r.opAdd = 0) ∧
        c.retNodes.foldlM (validateNode target) visited = .ok v := by
  unfold validateRet Call.retNodes
  cases c.ret with
  | none => simp [pure, Except.pure]
  | some r =>
    simp only [bind_eq_ok_iff, failIf_eq_ok_iff, validateArg_eq_ok_iff, Option.some.injEq,
      forall_eq', not_or, not_not, dir, subtree, Option.map_some, Option.toList_some]
    tauto

/-- Checking a call is checking its parts. -/
lemma validateCall_eq_ok_iff {c : Call} :
    validateCall target visited c = .ok v ↔
      CallOk c ∧ c.nodes.foldlM (validateNode target) visited = .ok v := by
  have hfold : ∀ v', c.args.foldlM (validateArg target .dirIn) visited = .ok v' ↔
      (∀ arg ∈ c.args, arg.dir = .dirIn) ∧
        (c.args.flatMap subtree).foldlM (validateNode target) visited = .ok v' := by
    apply foldlM_flatMap_eq_ok_iff
    intro arg s s'
    exact validateArg_eq_ok_iff
  simp only [validateCall, bind_eq_ok_iff, failIf_eq_ok_iff, validateRet_eq_ok_iff, hfold,
    Call.nodes, Call.argNodes, foldlM_append]
  constructor
  · rintro ⟨_, hprops, v', ⟨hargs, hv'⟩, hret, hv⟩
    exact ⟨⟨hprops, hargs, hret⟩, v', hv', hv⟩
  · rintro ⟨⟨hprops, hargs, hret⟩, v', hv', hv⟩
    exact ⟨(), hprops, v', ⟨hargs, hv'⟩, hret, hv⟩

/-! ## All arguments of a program -/

lemma usesInTree_eq_true_iff : usesInTree l = true ↔
    ∀ r ∈ l.filterMap result?, ∀ u ∈ r.uses,
      ∃ user ∈ l.filterMap result?, user.id = u ∧ user.res = some r.id := by
  simp only [usesInTree, all_eq_true, any_eq_true, Bool.and_eq_true, beq_iff_eq]

lemma nodup_results (h : (l.map Arg.id).Nodup) :
    ((l.filterMap Arg.result?).map ResultArg.id).Nodup := by
  refine h.sublist ?_
  induction l with
  | nil => simp
  | cons arg l ih =>
    have ih' := ih (nodup_cons.mp h).2
    cases arg with
    | result r => exact ih'.cons_cons _
    | _ => exact ih'.cons _

lemma LinksOk.mem_uses_iff {rs : List ResultArg} (h : LinksOk rs)
    (hnodup : (rs.map ResultArg.id).Nodup) {a r : ResultArg} (ha : a ∈ rs) (hr : r ∈ rs) :
    r.id ∈ a.uses ↔ r.res = some a.id := by
  constructor
  · intro hu
    obtain ⟨user, huser, hid, hres⟩ := h.used a ha r.id hu
    rwa [inj_on_of_nodup_map hnodup huser hr hid] at hres
  · intro hres
    obtain ⟨x, hx, hid, hrx⟩ := h.known r hr a.id hres
    rwa [inj_on_of_nodup_map hnodup hx ha hid] at hrx

lemma nodup_iff_forall_split : (l.map Arg.id).Nodup ↔
    ∀ pre arg post, l = pre ++ arg :: post → ∀ other ∈ pre, other.id ≠ arg.id := by
  constructor
  · rintro h pre arg post rfl other hother heq
    rw [map_append, nodup_append] at h
    exact h.2.2 other.id (mem_map_of_mem hother) arg.id (by simp) heq
  · intro h
    induction l using reverseRecOn with
    | nil => simp
    | append_singleton l arg ih =>
      rw [map_append, map_singleton, ← concat_eq_append]
      refine (ih ?_).concat ?_
      · rintro pre arg' post rfl
        exact h pre arg' (post ++ [arg]) (by simp)
      · intro hmem
        obtain ⟨other, hother, heq⟩ := mem_map.mp hmem
        exact h l arg [] rfl other hother heq

lemma find?_append_right {rs rs' : List ResultArg} {r : ResultArg} (hr : r ∈ rs)
    (hnodup : ((rs ++ rs').map ResultArg.id).Nodup) : rs.find? (·.id == r.id) = some r := by
  rw [map_append, nodup_append] at hnodup
  exact find?_id_of_mem hnodup.1 hr

/-- The links of the results, as they are seen when the results are visited one by one. -/
lemma forall_validateLink_iff (hnodup : (l.map Arg.id).Nodup) :
    (∀ pre r post, l = pre ++ .result r :: post →
      validateLink (pre ++ [.result r]) r = .ok ()) ↔
    (∀ r ∈ l.filterMap result?, ∀ t, r.res = some t →
      (t = r.id ∨ [t, r.id].Sublist ((l.filterMap result?).map ResultArg.id)) ∧
        ∃ x ∈ l.filterMap result?, x.id = t ∧ r.id ∈ x.uses) := by
  have hresults := nodup_results hnodup
  constructor
  · intro h r hr t ht
    obtain ⟨pre, post, rfl⟩ := append_of_mem (mem_filterMap_result?.1 hr)
    obtain ⟨x, hfind, hx⟩ := validateLink_eq_ok_iff.1 (h pre r post rfl) t ht
    obtain ⟨hmem, rfl⟩ := findResult_spec hfind
    refine ⟨?_, x, mem_filterMap_result?.2 ?_, rfl, hx⟩
    · rw [mem_append, mem_singleton, result.injEq] at hmem
      rcases hmem with hpre | rfl
      · right
        rw [filterMap_append, map_append]
        refine (singleton_sublist.mpr ?_).append (singleton_sublist.mpr ?_)
        · exact mem_map_of_mem (mem_filterMap_result?.2 hpre)
        · exact mem_map_of_mem (mem_filterMap_result?.2 (by simp))
      · exact .inl rfl
    · rw [mem_append, mem_singleton] at hmem
      simp only [mem_append, mem_cons]
      tauto
  · rintro h pre r post rfl
    rw [validateLink_eq_ok_iff]
    intro t ht
    obtain ⟨hearlier, x, hx, rfl, hrx⟩ := h r (mem_filterMap_result?.2 (by simp)) t ht
    refine ⟨x, ?_, hrx⟩
    have hsplit : (pre ++ result r :: post).filterMap result? =
        (pre ++ [result r]).filterMap result? ++ post.filterMap result? := by
      rw [← filterMap_append, append_assoc, singleton_append]
    rw [hsplit] at hresults hx hearlier
    refine find?_append_right ?_ hresults
    -- a result after `r` would stand in the wrong order
    by_contra hnot
    have hpost : x ∈ post.filterMap result? := by
      rw [mem_append] at hx
      exact hx.resolve_left hnot
    have hlast : r.id ∈ ((pre ++ [result r]).filterMap result?).map ResultArg.id :=
      mem_map_of_mem (mem_filterMap_result?.2 (by simp))
    rw [map_append] at hresults hearlier
    have hswap : [r.id, x.id].Sublist
        (((pre ++ [result r]).filterMap result?).map ResultArg.id ++
          (post.filterMap result?).map ResultArg.id) :=
      (singleton_sublist.mpr hlast).append
        (singleton_sublist.mpr (mem_map_of_mem hpost))
    rcases hearlier with heq | hsub
    · rw [nodup_append] at hresults
      exact hresults.2.2 r.id hlast x.id (mem_map_of_mem hpost) heq.symm
    · exact not_sublist_swap hresults hsub hswap

/-- What `validate` accepts. -/
lemma validate_eq_ok_iff {p : Prog} : p.validate = .ok () ↔
    (∀ c ∈ p.calls, CallOk c) ∧ ((p.calls.flatMap Call.nodes).map Arg.id).Nodup ∧
      (∀ arg ∈ p.calls.flatMap Call.nodes, ArgOk p.target arg) ∧ LinksOk (results p.calls) := by
  have hfold : ∀ v, p.calls.foldlM (validateCall p.target) [] = .ok v ↔
      (∀ c ∈ p.calls, CallOk c) ∧
        (p.calls.flatMap Call.nodes).foldlM (validateNode p.target) [] = .ok v := by
    apply foldlM_flatMap_eq_ok_iff
    intro c s s'
    exact validateCall_eq_ok_iff
  simp only [Prog.validate, bind_eq_ok_iff, failIf_eq_ok_iff, Bool.not_eq_false, hfold,
    foldlM_validateNode_eq_ok_iff, nil_append]
  constructor
  · rintro ⟨_, ⟨hcalls, hall, rfl⟩, huses⟩
    have hnodup := nodup_iff_forall_split.2 fun pre arg post h => (hall pre arg post h).1
    have hlinks := (forall_validateLink_iff hnodup).mp fun pre r post h =>
      (hall pre (.result r) post h).2.2 r rfl
    refine ⟨hcalls, hnodup, fun arg harg => ?_, ?_, ?_, usesInTree_eq_true_iff.1 huses⟩
    · obtain ⟨pre, post, heq⟩ := append_of_mem harg
      exact (hall pre arg post heq).2.1
    · exact fun r hr t ht => (hlinks r hr t ht).1
    · exact fun r hr t ht => (hlinks r hr t ht).2
  · rintro ⟨hcalls, hnodup, hargs, hlinks⟩
    refine ⟨_, ⟨hcalls, fun pre arg post heq => ⟨?_, ?_, ?_⟩, rfl⟩,
      usesInTree_eq_true_iff.2 hlinks.used⟩
    · exact nodup_iff_forall_split.1 hnodup pre arg post heq
    · exact hargs arg (by rw [heq]; simp)
    · rintro r rfl
      exact (forall_validateLink_iff hnodup).mpr
        (fun r hr t ht => ⟨hlinks.earlier r hr t ht, hlinks.known r hr t ht⟩) pre r post heq

end KConfuzz
