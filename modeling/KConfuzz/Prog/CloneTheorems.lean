import Mathlib.Data.List.MinMax
import Mathlib.Order.Nat
import KConfuzz.Prog.ValidationTheorems

/-!
# Copies of calls

What a copy of a call has in common with the call, and when a program with copies of its calls is
valid: the order of the calls matters only for the references, so apart from those the program is
looked at up to a permutation of the calls.
-/

namespace KConfuzz

open Lib.ExceptFold List Call

variable {fresh : ArgId → ArgId} {f : ResultArg → ResultArg} {calls : List Call} {remap : Bool}
  {desc : Call → Prop} {st st' : CloneState} {links : List (ArgId × ArgId)} {p : Prog}
  {r a : ResultArg}

/-- The conditions on single arguments are about the tree and not about identities. -/
lemma ArgOk.copy {target : Target} {arg : Arg} (h : ArgOk target arg)
    (hf : ∀ r, arg = .result r → ArgOk target (.result (f r))) :
    ArgOk target (arg.copy fresh f) := by
  cases arg with
  | result r => exact hf r rfl
  | const => exact h
  | data => exact h
  | union => exact h
  | group _ _ typ inner =>
    cases typ with
    | array => exact h
    | struct t =>
      simp only [ArgOk, validateKind, Arg.copy, Arg.copyList_eq_map, length_map] at h ⊢
      exact h
  | pointer _ _ typ _ _ res =>
    have hres : (Arg.copyOption fresh f res).isSome = res.isSome := by cases res <;> rfl
    simp only [ArgOk, validateKind, Arg.copy, validatePointer, hres] at h ⊢
    exact h

/-! ## Copies of calls -/

lemma map_id_nodes_copy (hf : ∀ r ∈ results calls, (f r).id = fresh r.id) :
    ((calls.map (copy fresh f)).flatMap nodes).map Arg.id =
      ((calls.flatMap nodes).map Arg.id).map fresh := by
  rw [flatMap_nodes_copy, map_map, map_map]
  refine map_congr_left fun arg harg => Arg.id_copy ?_
  rintro r rfl
  exact hf r (mem_filterMap_result?.2 harg)

/-- A copy of a call that is right is right. -/
lemma CallOk.copy {c : Call} (h : CallOk c) (hdir : ∀ r ∈ results [c], (f r).dir = r.dir)
    (hret : ∀ r, c.ret = some r → (f r).val = r.val ∧ (f r).opDiv = r.opDiv ∧
      (f r).opAdd = r.opAdd ∧ (r.res = none → (f r).res = none)) : CallOk (c.copy fresh f) where
  props := h.props
  args arg harg := by
    obtain ⟨arg', harg', rfl⟩ := mem_map.mp harg
    rw [Arg.dir_copy]
    · exact h.args arg' harg'
    · rintro r rfl
      refine hdir r (mem_filterMap_result?.2 ?_)
      simp only [flatMap_cons, flatMap_nil, append_nil, nodes, argNodes, mem_append, mem_flatMap]
      exact .inl ⟨_, harg', Arg.mem_subtree_self _⟩
  ret r hr := by
    obtain ⟨r', hr', rfl⟩ := Option.map_eq_some_iff.mp hr
    obtain ⟨hout, hres, hval, hdiv, hadd⟩ := h.ret r' hr'
    obtain ⟨hval', hdiv', hadd', hres'⟩ := hret r' hr'
    refine ⟨?_, hres' hres, by rw [hval', hval], by rw [hdiv', hdiv], by rw [hadd', hadd]⟩
    rw [hdir r' (mem_filterMap_result?.2 (by simp [nodes, retNodes, hr'])), hout]

/-! ## What the descriptions say about a call -/

/-- A call without the identities of its arguments, its links and its properties. -/
def Call.erase (c : Call) : Call :=
  { c.copy (fun _ => 0) (fun r => { r with id := 0, res := none, uses := [] }) with props := .zero }

/-- A check against the description of a call: nothing that it looks at is erased. -/
def IsDescCheck (desc : Call → Prop) : Prop := ∀ c c' : Call, c.erase = c'.erase → desc c → desc c'

/-- `validate` with the checks against the descriptions of the calls. -/
structure Valid (desc : Call → Prop) (p : Prog) : Prop where
  validate : p.validate = .ok ()
  desc : ∀ c ∈ p.calls, desc c

lemma Call.erase_copy {c : Call} (hf : ∀ r, { f r with id := 0, res := none, uses := [] } =
      ({ r with id := 0, res := none, uses := [] } : ResultArg)) :
    (c.copy fresh f).erase = c.erase := by
  let bare (r : ResultArg) : ResultArg := { r with id := 0, res := none, uses := [] }
  have hcomp : bare ∘ f = bare := funext hf
  have hargs : Arg.copy (fun _ => 0) bare ∘ Arg.copy fresh f = Arg.copy (fun _ => 0) bare := by
    funext arg
    rw [Function.comp, Arg.copy_copy, hcomp]
    rfl
  simp only [erase, copy, map_map, Option.map_map]
  rw [hargs, hcomp]

/-! ## Programs with copies of their calls -/

lemma argOk_of_uses {target : Target} {r' : ResultArg} (h : ArgOk target (.result r))
    (heq : r' = { r with uses := r'.uses }) (huses : r'.uses ≠ [] → r.uses ≠ []) :
    ArgOk target (.result r') := by
  obtain ⟨hval, hin, hsize⟩ := h
  rw [heq]
  exact ⟨hval, fun h' => hin ⟨h'.1, huses h'.2⟩, fun h' => hsize ⟨huses h'.1, h'.2⟩⟩

lemma results_singleton_subset {c : Call} (hc : c ∈ calls) : results [c] ⊆ results calls := by
  intro r hr
  rw [results, filterMap_flatMap, mem_flatMap] at hr ⊢
  obtain ⟨c', hc', hr⟩ := hr
  rw [mem_singleton] at hc'
  exact ⟨c, hc, hc' ▸ hr⟩

/-- `fresh` gives new identities to copies of arguments of the calls. -/
structure IsFresh (fresh : ArgId → ArgId) (calls : List Call) : Prop where
  injective : Function.Injective fresh
  notMem : ∀ id, fresh id ∉ (calls.flatMap Call.nodes).map Arg.id

/-- `p'` has, besides the calls of `p`, copies of some of them, with `f` for the results of `p` and
new identities in the copies. The uses of a result get the copies that refer to it. -/
structure IsCopies (fresh : ArgId → ArgId) (f : ResultArg → ResultArg) (p p' : Prog)
    (dups : List Call) : Prop where
  target : p'.target = p.target
  sublist : dups.Sublist p.calls
  isFresh : IsFresh fresh p.calls
  keeps : ∀ r, f r = { r with uses := (f r).uses }
  uses : ∀ r ∈ results p.calls, ∀ u, u ∈ (f r).uses ↔
    u ∈ r.uses ∨ ∃ a ∈ results dups, a.res = some r.id ∧ u = fresh a.id
  perm : p'.calls.Perm (p.calls.map (copy id f) ++ dups.map (copy fresh (copyResult fresh false)))

namespace IsCopies

variable {p' : Prog} {dups : List Call} (h : IsCopies fresh f p p' dups)

include h

lemma id_eq (r : ResultArg) : (f r).id = r.id := by rw [h.keeps r]

lemma res_eq (r : ResultArg) : (f r).res = r.res := by rw [h.keeps r]

lemma mem_calls {c' : Call} (hc' : c' ∈ p'.calls) : (∃ c ∈ p.calls, c' = c.copy id f) ∨
    ∃ c ∈ dups, c' = c.copy fresh (copyResult fresh false) := by
  have hmem := h.perm.mem_iff.mp hc'
  rw [mem_append, mem_map, mem_map] at hmem
  simpa only [eq_comm] using hmem

lemma nodes_perm : (p'.calls.flatMap nodes).Perm
    ((p.calls.flatMap nodes).map (Arg.copy id f) ++
      (dups.flatMap nodes).map (Arg.copy fresh (copyResult fresh false))) := by
  have hperm := h.perm.flatMap_right nodes
  rwa [flatMap_append, flatMap_nodes_copy, flatMap_nodes_copy] at hperm

lemma mem_results {r' : ResultArg} : r' ∈ results p'.calls ↔
    (∃ r ∈ results p.calls, r' = f r) ∨ ∃ a ∈ results dups, r' = copyResult fresh false a := by
  have hperm : (results p'.calls).Perm
      ((results p.calls).map f ++ (results dups).map (copyResult fresh false)) := by
    have hnodes := (h.perm.flatMap_right nodes).filterMap Arg.result?
    rw [flatMap_append, filterMap_append] at hnodes
    rwa [← results_copy id, ← results_copy fresh]
  rw [hperm.mem_iff, mem_append, mem_map, mem_map]
  simp only [eq_comm]

lemma mem_nodes_of_dups {arg : Arg} (harg : arg ∈ dups.flatMap nodes) :
    arg ∈ p.calls.flatMap nodes := (h.sublist.flatMap nodes).subset harg

lemma mem_results_of_dups (ha : a ∈ results dups) : a ∈ results p.calls :=
  mem_filterMap_result?.2 (h.mem_nodes_of_dups (mem_filterMap_result?.1 ha))

/-- The copies of `p` in the new program are found under their old identities. -/
lemma mem_results_of_old (hr : r ∈ results p.calls) : f r ∈ results p'.calls :=
  h.mem_results.mpr (.inl ⟨r, hr, rfl⟩)

/-- The identities of the copies are new, so all are still different. -/
lemma nodup_ids (hnodup : ((p.calls.flatMap nodes).map Arg.id).Nodup) :
    ((p'.calls.flatMap nodes).map Arg.id).Nodup := by
  rw [(h.nodes_perm.map Arg.id).nodup_iff, map_append, ← flatMap_nodes_copy,
    ← flatMap_nodes_copy, map_id_nodes_copy fun r _ => h.id_eq r,
    map_id_nodes_copy fun r _ => rfl, map_id, nodup_append]
  refine ⟨hnodup, ?_, ?_⟩
  · exact (hnodup.sublist ((h.sublist.flatMap nodes).map Arg.id)).map h.isFresh.injective
  · intro a ha b hb heq
    obtain ⟨b', -, rfl⟩ := mem_map.mp hb
    exact h.isFresh.notMem b' (heq ▸ ha)

lemma callOk (hcalls : ∀ c ∈ p.calls, CallOk c) {c' : Call} (hc' : c' ∈ p'.calls) :
    CallOk c' := by
  rcases h.mem_calls hc' with ⟨c, hc, rfl⟩ | ⟨c, hc, rfl⟩
  · refine (hcalls c hc).copy (fun r _ => by rw [h.keeps r]) fun r _ => ?_
    rw [h.keeps r]
    exact ⟨rfl, rfl, rfl, fun hres => hres⟩
  · refine (hcalls c (h.sublist.subset hc)).copy (fun r _ => rfl) fun r _ => ⟨rfl, rfl, rfl, ?_⟩
    intro hnone
    simp [copyResult, hnone]

lemma desc_of_mem (hdesc : IsDescCheck desc) (hcalls : ∀ c ∈ p.calls, desc c) {c' : Call}
    (hc' : c' ∈ p'.calls) : desc c' := by
  rcases h.mem_calls hc' with ⟨c, hc, rfl⟩ | ⟨c, hc, rfl⟩
  · refine hdesc c _ (erase_copy fun r => ?_).symm (hcalls c hc)
    rw [h.keeps r]
  · refine hdesc c _ (erase_copy fun r => ?_).symm (hcalls c (h.sublist.subset hc))
    rfl

section Links

variable (hnodup : ((results p.calls).map ResultArg.id).Nodup) (hlinks : LinksOk (results p.calls))

include hlinks

include hnodup in
/-- A result that has uses now had some before. -/
lemma uses_ne_nil (hr : r ∈ results p.calls) (hne : (f r).uses ≠ []) : r.uses ≠ [] := by
  intro hnil
  obtain ⟨u, hu⟩ := exists_mem_of_ne_nil _ hne
  rcases (h.uses r hr u).mp hu with hu | ⟨a, ha, hres, -⟩
  · rw [hnil] at hu
    exact not_mem_nil hu
  · have hax := (hlinks.mem_uses_iff hnodup hr (h.mem_results_of_dups ha)).mpr hres
    rw [hnil] at hax
    exact not_mem_nil hax

include hnodup in
lemma argOk (hargs : ∀ arg ∈ p.calls.flatMap nodes, ArgOk p.target arg) {arg : Arg}
    (harg : arg ∈ p'.calls.flatMap nodes) : ArgOk p'.target arg := by
  have hmem := h.nodes_perm.mem_iff.mp harg
  rw [mem_append, mem_map, mem_map] at hmem
  rw [h.target]
  rcases hmem with ⟨arg', harg', rfl⟩ | ⟨arg', harg', rfl⟩
  · refine (hargs arg' harg').copy ?_
    rintro r rfl
    exact argOk_of_uses (hargs _ harg') (h.keeps r)
      (h.uses_ne_nil hnodup hlinks (mem_filterMap_result?.2 harg'))
  · have hold := hargs arg' (h.mem_nodes_of_dups harg')
    refine hold.copy ?_
    rintro r rfl
    exact ⟨hold.1, fun huse => huse.2 rfl, fun huse => huse.1 rfl⟩

/-- The links lead to the results of `p`, of which the order is the same; the copies only refer. -/
lemma linksOk (horder : ((results p.calls).map ResultArg.id).Sublist
      ((results p'.calls).map ResultArg.id)) (hrefs : ∀ a ∈ results dups, ∀ t, a.res = some t →
      [t, fresh a.id].Sublist ((results p'.calls).map ResultArg.id)) :
    LinksOk (results p'.calls) where
  earlier r' hr' t ht := by
    rcases h.mem_results.mp hr' with ⟨r, hr, rfl⟩ | ⟨a, ha, rfl⟩
    · rw [h.res_eq] at ht
      rw [h.id_eq]
      exact (hlinks.earlier r hr t ht).imp_right fun hsub => hsub.trans horder
    · refine .inr (hrefs a ha t ?_)
      simpa [copyResult, cloneRes] using ht
  known r' hr' t ht := by
    rcases h.mem_results.mp hr' with ⟨r, hr, rfl⟩ | ⟨a, ha, rfl⟩
    · rw [h.res_eq] at ht
      obtain ⟨x, hx, rfl, hrx⟩ := hlinks.known r hr t ht
      refine ⟨f x, h.mem_results_of_old hx, h.id_eq x, ?_⟩
      rw [h.id_eq, h.uses x hx]
      exact .inl hrx
    · have hres : a.res = some t := by simpa [copyResult, cloneRes] using ht
      obtain ⟨x, hx, rfl, -⟩ := hlinks.known a (h.mem_results_of_dups ha) t hres
      refine ⟨f x, h.mem_results_of_old hx, h.id_eq x, ?_⟩
      rw [h.uses x hx]
      exact .inr ⟨a, ha, hres, rfl⟩
  used r' hr' u hu := by
    rcases h.mem_results.mp hr' with ⟨r, hr, rfl⟩ | ⟨a, ha, rfl⟩
    · rcases (h.uses r hr u).mp hu with hu | ⟨a, ha, hres, rfl⟩
      · obtain ⟨user, huser, rfl, hres⟩ := hlinks.used r hr u hu
        exact ⟨f user, h.mem_results_of_old huser, h.id_eq user, by rw [h.res_eq, h.id_eq, hres]⟩
      · refine ⟨copyResult fresh false a, h.mem_results.mpr (.inr ⟨a, ha, rfl⟩), rfl, ?_⟩
        rw [h.id_eq]
        simp [copyResult, cloneRes, hres]
    · exact absurd hu not_mem_nil

end Links

/-- The program with the copies is valid if the results that the copies refer to stand before
them. -/
lemma valid (hdesc : IsDescCheck desc) (hvalid : Valid desc p)
    (horder : ((results p.calls).map ResultArg.id).Sublist
      ((results p'.calls).map ResultArg.id)) (hrefs : ∀ a ∈ results dups, ∀ t, a.res = some t →
      [t, fresh a.id].Sublist ((results p'.calls).map ResultArg.id)) : Valid desc p' := by
  obtain ⟨hcalls, hnodup, hargs, hlinks⟩ := validate_eq_ok_iff.1 hvalid.validate
  have hids := nodup_results hnodup
  refine ⟨validate_eq_ok_iff.2 ⟨fun _ => h.callOk hcalls, h.nodup_ids hnodup,
    fun _ => h.argOk hids hlinks hargs, h.linksOk hlinks horder hrefs⟩, fun _ => ?_⟩
  exact h.desc_of_mem hdesc hvalid.desc

end IsCopies

/-! ## Other properties -/

/-- The same calls with other properties. -/
def SameButProps (calls calls' : List Call) : Prop :=
  List.Forall₂ (fun c c' => c' = { c with props := c'.props }) calls calls'

lemma SameButProps.nodes_eq {calls' : List Call} (h : SameButProps calls calls') :
    calls'.flatMap nodes = calls.flatMap nodes := by
  induction h with
  | nil => rfl
  | @cons c c' _ _ heq _ ih =>
    rw [flatMap_cons, flatMap_cons, ih, heq]
    rfl

/-- Apart from one condition, `validate` does not look at the properties. -/
lemma valid_iff_of_props (hdesc : IsDescCheck desc) {p' : Prog} (hvalid : Valid desc p)
    (htarget : p'.target = p.target) (hcalls : SameButProps p.calls p'.calls) :
    Valid desc p' ↔ ∀ c ∈ p'.calls, ¬ (c.props.rerun > 0 ∧ c.props.failNth > 0) := by
  obtain ⟨hcallsOk, hnodup, hargs, hlinks⟩ := validate_eq_ok_iff.1 hvalid.validate
  have hnodes := hcalls.nodes_eq
  constructor
  · intro hvalid' c hc
    exact ((validate_eq_ok_iff.1 hvalid'.validate).1 c hc).props
  · intro hprops
    refine ⟨validate_eq_ok_iff.2 ⟨?_, ?_, ?_, ?_⟩, ?_⟩
    · intro c' hc'
      obtain ⟨c, hc, heq⟩ := exists_mem_of_forall₂ hcalls hc'
      refine ⟨hprops c' hc', ?_, ?_⟩
      · rw [heq]
        exact (hcallsOk c hc).args
      · rw [heq]
        exact (hcallsOk c hc).ret
    · rwa [hnodes]
    · rwa [hnodes, htarget]
    · rwa [results, hnodes]
    · intro c' hc'
      obtain ⟨c, hc, heq⟩ := exists_mem_of_forall₂ hcalls hc'
      refine hdesc c c' ?_ (hvalid.desc c hc)
      rw [heq]
      rfl

/-! ## Clones -/

/-- The entries in sets of uses that the clones of results make. -/
def linksOf (fresh : ArgId → ArgId) (remap : Bool) (rs : List ResultArg) : List (ArgId × ArgId) :=
  rs.flatMap fun a => a.res.toList.map fun res => (cloneRes fresh remap res, fresh a.id)

/-- A result can be linked if what it refers to was cloned before. -/
lemma cloneLink_eq_ok_iff : cloneLink fresh remap st a = .ok st' ↔
      (remap = true → ∀ t, a.res = some t → t ∈ st.newargs) ∧
      st' = { newargs := if remap then st.newargs ++ [a.id] else st.newargs
              links := st.links ++ linksOf fresh remap [a] } := by
  simp only [cloneLink, bind_eq_ok_iff, failIf_eq_ok_iff, linksOf, flatMap_cons,
    flatMap_nil, append_nil]
  constructor
  · rintro ⟨_, hok, hst⟩
    cases hst
    refine ⟨fun hremap t ht => ?_, rfl⟩
    by_contra hnot
    exact hok ⟨hremap, t, ht, hnot⟩
  · rintro ⟨hok, rfl⟩
    refine ⟨(), ?_, rfl⟩
    rintro ⟨hremap, t, ht, hnot⟩
    exact hnot (hok hremap t ht)

/-- All results can be linked if each refers back. -/
lemma foldlM_cloneLink_eq_ok_iff {rs : List ResultArg} :
    rs.foldlM (cloneLink fresh remap) st = .ok st' ↔
      (remap = true → ∀ pre a post, rs = pre ++ a :: post → ∀ t, a.res = some t →
        t ∈ st.newargs ++ pre.map ResultArg.id) ∧
      st' = { newargs := if remap then st.newargs ++ rs.map ResultArg.id else st.newargs
              links := st.links ++ linksOf fresh remap rs } := by
  induction rs generalizing st with
  | nil =>
    simp only [foldlM_nil, map_nil, append_nil, linksOf, flatMap_nil, ite_self]
    constructor
    · intro h
      cases h
      exact ⟨fun _ pre a post h => by simp at h, rfl⟩
    · rintro ⟨-, rfl⟩
      rfl
  | cons a rs ih =>
    have hlinks : linksOf fresh remap (a :: rs) =
        linksOf fresh remap [a] ++ linksOf fresh remap rs := by
      simp [linksOf]
    simp only [foldlM_cons, bind_eq_ok_iff, cloneLink_eq_ok_iff, ih]
    constructor
    · rintro ⟨_, ⟨ha, rfl⟩, hrs, rfl⟩
      refine ⟨fun hremap pre a' post heq t ht => ?_, ?_⟩
      · cases pre with
        | nil =>
          obtain ⟨rfl, -⟩ := List.cons.inj heq
          simpa using ha hremap t ht
        | cons first pre =>
          obtain ⟨rfl, hrest⟩ := List.cons.inj heq
          have := hrs hremap pre a' post hrest t ht
          simpa [hremap] using this
      · cases remap <;> simp [hlinks]
    · rintro ⟨hall, rfl⟩
      refine ⟨_, ⟨fun hremap t ht => ?_, rfl⟩, fun hremap pre a' post heq t ht => ?_, ?_⟩
      · simpa using hall hremap [] a rs rfl t ht
      · have := hall hremap (a :: pre) a' post (by rw [heq, cons_append]) t ht
        simpa [hremap] using this
      · cases remap <;> simp [hlinks]

lemma mem_cloneOrder_iff : r ∈ calls.flatMap cloneOrder ↔ r ∈ results calls := by
  simp only [results, filterMap_flatMap, mem_flatMap, cloneOrder, nodes,
    filterMap_append, mem_append, or_comm]

lemma cloneLinks_eq_ok_iff :
    cloneLinks fresh remap calls = .ok links ↔
      (remap = true → ∀ pre a post, calls.flatMap cloneOrder = pre ++ a :: post →
        ∀ t, a.res = some t → t ∈ pre.map ResultArg.id) ∧
      links = linksOf fresh remap (calls.flatMap cloneOrder) := by
  simp only [cloneLinks, bind_eq_ok_iff, foldlM_cloneLink_eq_ok_iff, nil_append]
  constructor
  · rintro ⟨_, ⟨hall, rfl⟩, h⟩
    cases h
    exact ⟨hall, rfl⟩
  · rintro ⟨hall, rfl⟩
    exact ⟨_, ⟨hall, rfl⟩, rfl⟩

lemma mem_linksOf_cloneOrder {t u : ArgId} :
    (t, u) ∈ linksOf fresh remap (calls.flatMap cloneOrder) ↔
      ∃ a ∈ results calls, ∃ res, a.res = some res ∧ t = cloneRes fresh remap res ∧
        u = fresh a.id := by
  simp only [linksOf, mem_flatMap (b := (t, u)), mem_cloneOrder_iff, mem_map,
    Option.mem_toList, Prod.mk.injEq]
  constructor
  · rintro ⟨a, ha, res, hres, rfl, rfl⟩
    exact ⟨a, ha, res, hres, rfl, rfl⟩
  · rintro ⟨a, ha, res, hres, rfl, rfl⟩
    exact ⟨a, ha, res, hres, rfl, rfl⟩

lemma ResultArg.mem_uses_addUses {u : ArgId} :
    u ∈ (r.addUses links).uses ↔ u ∈ r.uses ∨ (r.id, u) ∈ links := by
  have hfold : ∀ uses : List ArgId,
      u ∈ links.foldl (fun uses link => if link.1 = r.id then uses.insert link.2 else uses) uses ↔
        u ∈ uses ∨ (r.id, u) ∈ links := by
    induction links with
    | nil => simp
    | cons link links ih =>
      intro uses
      rw [foldl_cons, ih]
      obtain ⟨t, v⟩ := link
      by_cases ht : t = r.id
      · simp [ht, mem_insert_iff, or_assoc, or_left_comm]
      · simp [ht, Ne.symm ht]
  exact hfold r.uses

lemma perm_cloneOrder (calls : List Call) : (calls.flatMap cloneOrder).Perm (results calls) := by
  rw [results, filterMap_flatMap]
  refine Perm.flatMap_left calls fun c _ => ?_
  simp only [cloneOrder, nodes, filterMap_append]
  exact perm_append_comm

/-- A result of a valid program that refers to another one is among the arguments of its call, and
the other one stands before it. -/
lemma exists_split_of_res (hvalid : p.validate = .ok ()) (ha : a ∈ results p.calls) {t : ArgId}
    (ht : a.res = some t) (hself : t ≠ a.id) :
    ∃ calls c calls' pre post, p.calls = calls ++ c :: calls' ∧
      c.argNodes.filterMap Arg.result? = pre ++ a :: post ∧
      t ∈ (results calls ++ pre).map ResultArg.id := by
  obtain ⟨hcalls, hnodup, -, hlinks⟩ := validate_eq_ok_iff.1 hvalid
  have hids := nodup_results hnodup
  have hsub := (hlinks.earlier a ha t ht).resolve_left hself
  have hmem := ha
  rw [results, filterMap_flatMap, mem_flatMap] at hmem
  obtain ⟨c, hc, hac⟩ := hmem
  rw [nodes, filterMap_append, mem_append] at hac
  have hargs : a ∈ c.argNodes.filterMap Arg.result? := by
    refine hac.resolve_right fun hret => ?_
    -- a return value refers to nothing
    rw [mem_filterMap_result?, retNodes, Option.mem_toList, Option.map_eq_some_iff] at hret
    obtain ⟨r, hr, heq⟩ := hret
    cases heq
    rw [((hcalls c hc).ret a hr).2.1] at ht
    cases ht
  obtain ⟨calls, calls', hsplit⟩ := append_of_mem hc
  obtain ⟨pre, post, hpre⟩ := append_of_mem hargs
  refine ⟨calls, c, calls', pre, post, hsplit, hpre, ?_⟩
  have hresults : results p.calls = (results calls ++ pre) ++
      a :: (post ++ c.retNodes.filterMap Arg.result? ++ results calls') := by
    rw [hsplit, results_append, ← singleton_append, results_append]
    have hone : results [c] = pre ++ a :: post ++ c.retNodes.filterMap Arg.result? := by
      rw [results, flatMap_singleton, nodes, filterMap_append, hpre]
    rw [hone]
    simp
  change ((results p.calls).map ResultArg.id).Nodup at hids
  rw [hresults, map_append, map_cons] at hids hsub
  exact Lib.LinkGraph.mem_of_sublist_pair hids hsub

/-- Cloning a valid program fails exactly on a result that refers to itself. -/
lemma cloneLinks_isOk_iff (hvalid : p.validate = .ok ()) :
    (∃ links, cloneLinks id true p.calls = .ok links) ↔
      ∀ r ∈ results p.calls, r.res ≠ some r.id := by
  have hnodup : ((p.calls.flatMap cloneOrder).map ResultArg.id).Nodup := by
    rw [((perm_cloneOrder p.calls).map ResultArg.id).nodup_iff]
    exact nodup_results (validate_eq_ok_iff.1 hvalid).2.1
  simp only [cloneLinks_eq_ok_iff, exists_and_left, exists_eq, and_true, forall_const]
  constructor
  · intro hall r hr hself
    obtain ⟨pre, post, heq⟩ := append_of_mem (mem_cloneOrder_iff.2 hr)
    have hmem := hall pre r post heq r.id hself
    rw [heq, map_append, nodup_append] at hnodup
    exact hnodup.2.2 r.id hmem r.id (by simp) rfl
  · intro hself pre a post heq t ht
    have ha : a ∈ results p.calls := by
      rw [← mem_cloneOrder_iff, heq]
      simp
    have hne : t ≠ a.id := fun he => hself a ha (he ▸ ht)
    obtain ⟨calls, c, calls', l, l', hcalls, hargs, hmem⟩ := exists_split_of_res hvalid ha ht hne
    have horder : p.calls.flatMap cloneOrder = (calls.flatMap cloneOrder ++
        c.retNodes.filterMap Arg.result? ++ l) ++
          a :: (l' ++ calls'.flatMap cloneOrder) := by
      rw [hcalls, flatMap_append, flatMap_cons, cloneOrder, filterMap_append, hargs]
      simp
    have hsub : [t, a.id].Sublist ((p.calls.flatMap cloneOrder).map ResultArg.id) := by
      rw [horder, map_append]
      refine (singleton_sublist.mpr ?_).append (singleton_sublist.mpr (by simp))
      simp only [map_append, mem_append] at hmem ⊢
      refine hmem.imp_left fun h => .inl ?_
      exact ((perm_cloneOrder calls).map ResultArg.id).mem_iff.mpr h
    rw [heq, map_append, map_cons] at hnodup hsub
    exact Lib.LinkGraph.mem_of_sublist_pair hnodup hsub

lemma Call.copy_copy (fresh fresh' : ArgId → ArgId) (f f' : ResultArg → ResultArg) (c : Call) :
    (c.copy fresh f).copy fresh' f' = c.copy (fresh' ∘ fresh) (f' ∘ f) := by
  have hargs : Arg.copy fresh' f' ∘ Arg.copy fresh f = Arg.copy (fresh' ∘ fresh) (f' ∘ f) :=
    funext fun arg => Arg.copy_copy fresh fresh' f f' arg
  simp only [copy, map_map, Option.map_map, hargs]

lemma Prog.isFresh (p : Prog) : IsFresh p.fresh p.calls where
  injective _ _ h := Nat.add_left_cancel h
  notMem id h := by
    have hle : p.nextId + id ≤ ((p.calls.flatMap nodes).map Arg.id).foldr max 0 :=
      le_max_of_le h le_rfl
    exact Nat.not_lt.mpr hle (Nat.lt_of_lt_of_le (Nat.lt_succ_self _) (Nat.le_add_right _ _))

lemma clone_isOk_iff (hvalid : p.validate = .ok ()) :
    (∃ p', p.clone = .ok p') ↔ ∀ r ∈ results p.calls, r.res ≠ some r.id := by
  rw [← cloneLinks_isOk_iff hvalid]
  unfold Prog.clone
  cases cloneLinks id true p.calls with
  | error e => simp [bind, Except.bind]
  | ok links => simp [bind, Except.bind, pure, Except.pure]

/-- The clone of a valid program is the same program up to the order of the uses. -/
lemma clone_of_valid (hdesc : IsDescCheck desc) (hvalid : Valid desc p)
    (hself : ∀ r ∈ results p.calls, r.res ≠ some r.id) :
    ∃ p' g, p.clone = .ok p' ∧ p'.calls = p.calls.map (copy id g) ∧
      (∀ r, g r = { r with uses := (g r).uses }) ∧ Valid desc p' := by
  obtain ⟨links, hlinks⟩ := (cloneLinks_isOk_iff hvalid.validate).mpr hself
  have hres : cloneRes id true = id := rfl
  have hcalls : ∀ c ∈ p.calls.map
        (fun c => (c.copy id (copyResult id true)).copy id (ResultArg.addUses links)),
      ∃ c' ∈ p.calls, c'.callMeta = c.callMeta := by
    refine forall_mem_map.mpr fun c' hc' => ?_
    exact ⟨c', hc', rfl⟩
  let g (r : ResultArg) : ResultArg := (copyResult id true r).addUses links
  have hg : ∀ r, g r = { r with uses := (g r).uses } := by
    simp [g, ResultArg.addUses, copyResult, hres]
  refine ⟨p.withCalls _ hcalls, g, ?_, ?_, hg, ?_⟩
  · simp only [Prog.clone, hlinks]
    rfl
  · exact map_congr_left fun c _ => copy_copy ..
  · have hmap : (p.withCalls _ hcalls).calls = p.calls.map (copy id g) :=
      map_congr_left fun c _ => copy_copy ..
    have htarget : (p.withCalls _ hcalls).target = p.target := rfl
    have hcopies : IsCopies p.fresh g p (p.withCalls _ hcalls) [] := by
      refine ⟨htarget, nil_sublist _, p.isFresh, hg, fun r hr u => ?_, by
        rw [hmap, map_nil, append_nil]⟩
      obtain ⟨-, hnodup, -, hlinksOk⟩ := validate_eq_ok_iff.1 hvalid.validate
      rw [ResultArg.mem_uses_addUses, (cloneLinks_eq_ok_iff.1 hlinks).2, mem_linksOf_cloneOrder]
      simp only [copyResult, hres, id_eq, not_mem_nil, false_or, results, flatMap_nil,
        filterMap_nil, false_and, exists_false, or_false]
      constructor
      · rintro ⟨a, ha, res, hares, rfl, rfl⟩
        exact (hlinksOk.mem_uses_iff (nodup_results hnodup) hr ha).mpr hares
      · intro hu
        obtain ⟨user, huser, rfl, hures⟩ := hlinksOk.used r hr u hu
        exact ⟨user, huser, r.id, hures, rfl, rfl⟩
    refine hcopies.valid hdesc hvalid ?_ ?_
    · rw [hmap, results_copy, map_map]
      exact Sublist.refl _
    · intro a ha
      simp [results] at ha

end KConfuzz
