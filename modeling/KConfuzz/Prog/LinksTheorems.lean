import KConfuzz.Lib.LinkGraph
import KConfuzz.Prog.CopyTheorems

/-!
# Integrity of the resource graph

The functions of `Prog.Links` keep the two directions of the links in step. Each of them changes
a few objects at a time, so the proofs say for every object what it looks like afterwards, and
the laws of `Lib.LinkGraph` give consistency from that.
-/

namespace KConfuzz

open Lib.ExceptFold List Arg ResultArg
open Option (map_some bind_some)
open Lib.LinkGraph

/-! ## Consistent heaps -/

def Heap.res (h : Heap) (a : ArgId) : Option ArgId := (h a).bind ResultArg.res

def Heap.uses (h : Heap) (r : ArgId) : Set ArgId := {u | ∃ x, h r = some x ∧ u ∈ x.uses}

/-- The results `ids`, in the order in which they stand in the program, form a consistent graph:
`a.Res = r` exactly when `a` is in `r.uses`, both are in the tree, and `r` is earlier. -/
structure Linked (h : Heap) (ids : List ArgId) : Prop where
  alloc : ∀ id ∈ ids, ∃ r, h id = some r ∧ r.id = id
  graph : Consistent h.res h.uses ids

variable {h : Heap} {a : ArgId} {r : ResultArg}

lemma Heap.res_eq (ha : h a = some r) : h.res a = r.res := by
  rw [Heap.res, ha, bind_some]

lemma Heap.mem_uses_iff {r u : ArgId} {x : ResultArg} (hr : h r = some x) :
    u ∈ h.uses r ↔ u ∈ x.uses := by
  constructor
  · rintro ⟨x', hx', hu⟩
    rw [hr, Option.some.injEq] at hx'
    rwa [hx']
  · intro hu
    exact ⟨x, hr, hu⟩

variable {id : ArgId} {f : ResultArg → ResultArg}

lemma Heap.modify_of_ne {i : ArgId} (hi : i ≠ id) : h.modify id f i = h i := if_neg hi

lemma Heap.modify_self : h.modify id f id = (h id).map f := if_pos rfl

variable {ids : List ArgId}

/-- The links of one list of results, read from the heap. -/
lemma linked_iff : Linked h ids ↔
    ids.Nodup ∧ ∀ id ∈ ids, ∃ r ∈ h id, r.id = id ∧ (∀ t ∈ r.res, [t, id].Sublist ids) ∧
      (∀ u ∈ r.uses, u ∈ ids ∧ h.res u = some id) ∧ ∀ u ∈ ids, h.res u = some id → u ∈ r.uses := by
  constructor
  · intro hlinked
    refine ⟨hlinked.graph.nodup, fun id hid => ?_⟩
    obtain ⟨r, hr, hrid⟩ := hlinked.alloc id hid
    refine ⟨r, hr, hrid, fun t ht => ?_, fun u hu => ?_, fun u hu hres => ?_⟩
    · exact hlinked.graph.earlier id hid t (by rw [Heap.res_eq hr]; exact ht)
    · exact (hlinked.graph.mem_uses id hid u).mp ((Heap.mem_uses_iff hr).mpr hu)
    · exact (Heap.mem_uses_iff hr).mp ((hlinked.graph.mem_uses id hid u).mpr ⟨hu, hres⟩)
  · rintro ⟨hnodup, hall⟩
    refine ⟨fun id hid => ?_, hnodup, fun a ha t ht => ?_, fun id hid u => ?_⟩
    · obtain ⟨r, hr, hrid, -⟩ := hall id hid
      exact ⟨r, hr, hrid⟩
    · obtain ⟨r, hr, -, hearlier, -⟩ := hall a ha
      exact hearlier t (by rw [← Heap.res_eq hr]; exact ht)
    · obtain ⟨r, hr, -, -, huses, husers⟩ := hall id hid
      rw [Heap.mem_uses_iff hr]
      exact ⟨huses u, fun hu => husers u hu.1 hu.2⟩

instance (h : Heap) (ids : List ArgId) : Decidable (Linked h ids) :=
  decidable_of_iff _ linked_iff.symm

/-! ## Removing results -/

/-- The removal of the results `dropped`, seen from another one. -/
def ResultArg.unlinkFrom (dropped : List ArgId) (r : ResultArg) : ResultArg :=
  let uses := r.uses.filter (· ∉ dropped)
  if r.res.any (dropped.contains ·) then { r.defaultArg with uses } else { r with uses }

namespace ResultArg

/-- A result that loses its value and keeps its uses. -/
def toDefault (r : ResultArg) : ResultArg := { r.defaultArg with uses := r.uses }

@[simp] lemma id_unlinkFrom (dropped : List ArgId) (r : ResultArg) :
    (r.unlinkFrom dropped).id = r.id := by
  unfold unlinkFrom defaultArg
  split <;> rfl

@[simp] lemma uses_unlinkFrom (dropped : List ArgId) (r : ResultArg) :
    (r.unlinkFrom dropped).uses = r.uses.filter (· ∉ dropped) := by
  unfold unlinkFrom
  split <;> rfl

lemma res_unlinkFrom (dropped : List ArgId) (r : ResultArg) :
    (r.unlinkFrom dropped).res = r.res.filter (· ∉ dropped) := by
  unfold unlinkFrom defaultArg
  cases r.res with
  | none => simp
  | some t => by_cases ht : t ∈ dropped <;> simp [ht, Option.filter]

@[simp] lemma unlinkFrom_nil (r : ResultArg) : r.unlinkFrom [] = r := by
  simp [unlinkFrom]

lemma unlinkFrom_congr {dropped dropped' : List ArgId} (h : ∀ id, id ∈ dropped ↔ id ∈ dropped')
    (r : ResultArg) : r.unlinkFrom dropped = r.unlinkFrom dropped' := by
  have hcontains : ∀ t, dropped.contains t = dropped'.contains t := by
    simp [h]
  simp only [unlinkFrom, h, hcontains]

lemma filter_notMem_concat (l dropped : List ArgId) (a : ArgId) :
    l.filter (· ∉ dropped ++ [a]) = (l.filter (· ∉ dropped)).filter (· ≠ a) := by
  rw [filter_filter]
  congr 1
  funext u
  simp [and_comm]

lemma unlinkFrom_concat_of_ne {dropped : List ArgId} (hr : r.res ≠ some a) :
    r.unlinkFrom (dropped ++ [a]) =
      { r.unlinkFrom dropped with uses := (r.unlinkFrom dropped).uses.filter (· ≠ a) } := by
  have hany : r.res.any ((dropped ++ [a]).contains ·) = r.res.any (dropped.contains ·) := by
    cases hres : r.res with
    | none => rfl
    | some t =>
      have hta : t ≠ a := fun hta => hr (by rw [hres, hta])
      simp [hta]
  simp only [unlinkFrom, hany, filter_notMem_concat]
  split <;> rfl

lemma unlinkFrom_concat_of_eq {dropped : List ArgId} (hr : r.res = some a) (ha : a ∉ dropped) :
    r.unlinkFrom (dropped ++ [a]) =
      toDefault { r.unlinkFrom dropped with
        uses := (r.unlinkFrom dropped).uses.filter (· ≠ a) } := by
  have hany : r.res.any ((dropped ++ [a]).contains ·) = true := by simp [hr]
  have hany' : r.res.any (dropped.contains ·) = false := by simp [hr, ha]
  simp only [unlinkFrom, hany, hany', filter_notMem_concat]
  rfl

end ResultArg

/-- Every result in the list that is not dropped is the one of `h0`, unlinked. -/
def Unlinks (h0 : Heap) (ids dropped : List ArgId) (h : Heap) : Prop :=
  ∀ id ∈ ids, id ∉ dropped → h id = (h0 id).map (ResultArg.unlinkFrom dropped)

lemma unlinks_nil (h : Heap) (ids : List ArgId) : Unlinks h ids [] h := by
  intro id _ _
  cases h id with
  | none => rfl
  | some r => rw [map_some, unlinkFrom_nil]

/-- Only the result that is replaced changes. -/
lemma replaceByDefault_apply {u : ArgId} (hres : ∀ t, h.res u = some t → t = a) (hid : id ≠ a) :
    replaceByDefault h u id = if id = u then (h id).map toDefault else h id := by
  unfold replaceByDefault
  cases hu : h u with
  | none =>
    by_cases h' : id = u
    · simp [h', hu]
    · simp [h']
  | some x =>
    have hdrop : ∀ i, i ≠ a → h.dropLink u i = h i := by
      intro i hi
      rw [Heap.dropLink, ← Heap.res]
      cases ht : h.res u with
      | none => rfl
      | some t =>
        rw [hres t ht]
        exact Heap.modify_of_ne hi
    show (h.dropLink u).modify u _ id = _
    by_cases h' : id = u
    · subst h'
      rw [if_pos rfl, Heap.modify_self, hdrop id hid, hu]
      rfl
    · rw [if_neg h', Heap.modify_of_ne h', hdrop id hid]

/-- The loop over the users of `a`. -/
lemma foldl_replaceByDefault {us : List ArgId} (ha : a ∉ us)
    (hres : ∀ u ∈ us, ∀ t, h.res u = some t → t = a) (hid : id ≠ a) :
    us.foldl replaceByDefault h id =
      if id ∈ us then (h id).map toDefault else h id := by
  induction us generalizing h with
  | nil => simp
  | cons u us ih =>
    have hstep : ∀ i, i ≠ a → replaceByDefault h u i = if i = u then (h i).map toDefault else h i :=
      fun i hi => replaceByDefault_apply (hres u (by simp)) hi
    -- a user that became a default refers to nothing
    have hrest : ∀ u' ∈ us, ∀ t, (replaceByDefault h u).res u' = some t → t = a := by
      intro u' hu' t ht
      have hu'a : u' ≠ a := fun he => ha (by simp [← he, hu'])
      rw [Heap.res, hstep u' hu'a] at ht
      by_cases he : u' = u
      · rw [if_pos he] at ht
        cases hx : h u' with
        | none => simp [hx] at ht
        | some x => simp [hx, toDefault, defaultArg] at ht
      · rw [if_neg he] at ht
        exact hres u' (by simp [hu']) t ht
    rw [foldl_cons, ih (fun h' => ha (by simp [h'])) hrest, hstep id hid]
    by_cases he : id = u
    · subst he
      cases h id with
      | none => simp
      | some x => simp [toDefault, defaultArg]
    · simp [he]

variable {dropped : List ArgId} {h0 : Heap} {pre l post : List ArgId} {p : Prog}

/-- `delete(a.Res.uses, a)` finds the link. -/
lemma unlinkRes_spec {x0 : ResultArg} (hlinked : Linked h0 ids) (hun : Unlinks h0 ids dropped h)
    (ha : a ∈ ids) (had : a ∉ dropped) (hx0 : h0 a = some x0) :
    let x := x0.unlinkFrom dropped
    ∃ h1, unlinkRes h x = .ok h1 ∧ h1 a = some x ∧
      ∀ id ∈ ids, id ∉ dropped → id ≠ a → h1 id = (h0 id).map fun r =>
        { r.unlinkFrom dropped with uses := (r.unlinkFrom dropped).uses.filter (· ≠ a) } := by
  intro x
  have hxa : h a = some x := by rw [hun a ha had, hx0, map_some]
  have hid : x0.id = a := by
    obtain ⟨x, hx, hid⟩ := hlinked.alloc a ha
    rw [hx0, Option.some.injEq] at hx
    rw [hx, hid]
  -- results that `a` does not refer to do not have it among their uses
  have hkeep : ∀ id ∈ ids, id ∉ dropped → h0.res a ≠ some id → h id = (h0 id).map fun r =>
        { r.unlinkFrom dropped with uses := (r.unlinkFrom dropped).uses.filter (· ≠ a) } := by
    intro id hmem hnd hne
    obtain ⟨r, hr, -⟩ := hlinked.alloc id hmem
    have hau : a ∉ r.uses := by
      rw [← Heap.mem_uses_iff hr, hlinked.graph.mem_uses id hmem]
      exact fun hu => hne hu.2
    have hfilter : (r.unlinkFrom dropped).uses.filter (· ≠ a) = (r.unlinkFrom dropped).uses := by
      rw [filter_eq_self, uses_unlinkFrom]
      intro u hu
      have hu' := (mem_filter.mp hu).1
      simp only [ne_eq, decide_eq_true_eq]
      rintro rfl
      exact hau hu'
    rw [hun id hmem hnd, hr, map_some, map_some, hfilter]
  unfold unlinkRes
  cases hres : x.res with
  | none =>
    refine ⟨h, rfl, hxa, fun id hmem hnd hne => ?_⟩
    rcases eq_or_ne (h0.res a) (some id) with he | he
    · rw [res_unlinkFrom, ← Heap.res_eq hx0, he] at hres
      simp [hnd] at hres
    · exact hkeep id hmem hnd he
  | some t =>
    rw [res_unlinkFrom, ← Heap.res_eq hx0, Option.filter_eq_some_iff] at hres
    have htd : t ∉ dropped := by simpa using hres.2
    have ht := (hlinked.graph.earlier _ ha t hres.1).subset mem_cons_self
    have hta := hlinked.graph.ne_of_res ha hres.1
    obtain ⟨y, hy, -⟩ := hlinked.alloc t ht
    have hyt : h t = some (y.unlinkFrom dropped) := by rw [hun t ht htd, hy, map_some]
    have hay : a ∈ y.uses :=
      (Heap.mem_uses_iff hy).mp ((hlinked.graph.mem_uses t ht a).mpr ⟨ha, hres.1⟩)
    have hfail : failIf (¬ ((h t).any fun r => r.uses.contains x.id)) "broken tree" = .ok () := by
      rw [failIf_eq_ok_iff, not_not, hyt]
      simp [x, hid, hay, had]
    refine ⟨h.deleteUse t a, ?_, ?_, fun id hmem hnd hne => ?_⟩
    · simp only [hfail]
      rw [id_unlinkFrom, hid]
      rfl
    · rw [Heap.deleteUse, Heap.modify_of_ne hta.symm, hxa]
    · rw [Heap.deleteUse]
      rcases eq_or_ne id t with rfl | hidt
      · rw [Heap.modify_self, hyt, hy]
        rfl
      · rw [Heap.modify_of_ne hidt]
        refine hkeep id hmem hnd fun he => hidt ?_
        rw [hres.1, Option.some.injEq] at he
        exact he.symm

/-- `removeArg` at one result. -/
lemma removeResult_spec (hlinked : Linked h0 ids) (hun : Unlinks h0 ids dropped h) (ha : a ∈ ids)
    (had : a ∉ dropped) :
    ∃ h', removeResult h a = .ok h' ∧ Unlinks h0 ids (dropped ++ [a]) h' := by
  obtain ⟨x0, hx0, -⟩ := hlinked.alloc a ha
  have hxa : h a = some (x0.unlinkFrom dropped) := by rw [hun a ha had, hx0, map_some]
  obtain ⟨h1, hok, h1a, h1id⟩ := unlinkRes_spec hlinked hun ha had hx0
  have hmem_us : ∀ u, u ∈ (x0.unlinkFrom dropped).uses ↔
      (u ∈ ids ∧ h0.res u = some a) ∧ u ∉ dropped := by
    intro u
    rw [uses_unlinkFrom, mem_filter, ← Heap.mem_uses_iff hx0,
      hlinked.graph.mem_uses a ha, decide_eq_true_eq]
  have hself : a ∉ (x0.unlinkFrom dropped).uses := by
    rw [hmem_us]
    exact fun hu => hlinked.graph.ne_of_res ha hu.1.2 rfl
  have husers : ∀ u ∈ (x0.unlinkFrom dropped).uses, ∀ t, h1.res u = some t → t = a := by
    intro u hu t ht
    obtain ⟨⟨humem, hur⟩, hud⟩ := (hmem_us u).mp hu
    obtain ⟨r, hr, -⟩ := hlinked.alloc u humem
    have hua : u ≠ a := fun he => hself (he ▸ hu)
    rw [Heap.res, h1id u humem hud hua, hr, map_some, bind_some,
      res_unlinkFrom, ← Heap.res_eq hr, hur, Option.filter_eq_some_iff] at ht
    exact (Option.some.inj ht.1).symm
  refine ⟨((h1 a).elim [] uses).foldl replaceByDefault h1, ?_, ?_⟩
  · simp only [removeResult, hxa, hok]
    rfl
  · intro id hmem hnd
    obtain ⟨hnd, hne⟩ : id ∉ dropped ∧ id ≠ a := by simpa using hnd
    obtain ⟨r, hr, -⟩ := hlinked.alloc id hmem
    rw [h1a, Option.elim_some, foldl_replaceByDefault hself husers hne, h1id id hmem hnd hne, hr]
    by_cases hu : id ∈ (x0.unlinkFrom dropped).uses
    · have hra : r.res = some a := by
        rw [← Heap.res_eq hr]
        exact ((hmem_us id).mp hu).1.2
      rw [if_pos hu, map_some, map_some, map_some, unlinkFrom_concat_of_eq hra had]
    · have hra : r.res ≠ some a := by
        rw [← Heap.res_eq hr]
        exact fun he => hu ((hmem_us id).mpr ⟨⟨hmem, he⟩, hnd⟩)
      rw [if_neg hu, map_some, map_some, unlinkFrom_concat_of_ne hra]

/-- The results `l` are removed one after the other. -/
lemma foldlM_removeResult {h0 : Heap} {ids : List ArgId} (hlinked : Linked h0 ids) :
    ∀ {l dropped : List ArgId} {h : Heap}, Unlinks h0 ids dropped h → l ⊆ ids →
      (dropped ++ l).Nodup →
      ∃ h', l.foldlM removeResult h = .ok h' ∧ Unlinks h0 ids (dropped ++ l) h'
  | [], dropped, h, hun, _, _ => ⟨h, rfl, by rwa [append_nil]⟩
  | a :: l, dropped, h, hun, hsub, hnodup => by
    have had : a ∉ dropped := by
      intro hmem
      exact (nodup_append.mp hnodup).2.2 a hmem a (by simp) rfl
    obtain ⟨h1, hok, hun1⟩ := removeResult_spec hlinked hun (hsub (by simp)) had
    rw [append_cons] at hnodup
    obtain ⟨h', hok', hun'⟩ := foldlM_removeResult hlinked hun1
      (fun b hb => hsub (by simp [hb])) hnodup
    refine ⟨h', ?_, ?_⟩
    · rw [foldlM_cons, hok]
      exact hok'
    · rw [append_cons]
      exact hun'

/-- What is left after a removal is linked. -/
lemma Linked.remove (hlinked : Linked h0 ids) (hun : Unlinks h0 ids dropped h) :
    Linked h (ids.filter (· ∉ dropped)) := by
  constructor
  · intro id hid
    rw [mem_filter, decide_eq_true_eq] at hid
    obtain ⟨r, hr, rfl⟩ := hlinked.alloc id hid.1
    exact ⟨r.unlinkFrom dropped, by rw [hun _ hid.1 hid.2, hr, map_some], by simp⟩
  · apply hlinked.graph.remove (· ∈ dropped)
    · intro a ha hnd
      obtain ⟨r, hr, -⟩ := hlinked.alloc a ha
      rw [Heap.res, hun a ha hnd, hr, map_some, bind_some, Heap.res_eq hr, res_unlinkFrom]
    · intro a ha hnd u
      obtain ⟨r, hr, -⟩ := hlinked.alloc a ha
      have h' : h a = some (r.unlinkFrom dropped) := by rw [hun a ha hnd, hr, map_some]
      rw [Heap.mem_uses_iff h', Heap.mem_uses_iff hr, uses_unlinkFrom, mem_filter,
        decide_eq_true_eq]

lemma filter_notMem_middle {α : Type*} {f : α → ArgId} {pre l post : List α}
    (h : ((pre ++ l ++ post).map f).Nodup) :
    (pre ++ l ++ post).filter (f · ∉ l.map f) = pre ++ post := by
  have hout : ∀ l' : List α, (∀ a ∈ l', f a ∉ l.map f) → l'.filter (f · ∉ l.map f) = l' := by
    simp
  have hl : l.filter (f · ∉ l.map f) = [] := by
    simpa using fun a ha => ⟨a, ha, rfl⟩
  rw [append_assoc, map_append, map_append, nodup_append, nodup_append] at h
  obtain ⟨-, ⟨-, -, hpost⟩, hpre⟩ := h
  rw [filter_append, filter_append, hl, append_nil, hout pre, hout post]
  · intro a ha hal
    exact hpost _ hal _ (mem_map_of_mem ha) rfl
  · intro a ha hal
    exact hpre _ (mem_map_of_mem ha) _ (mem_append_left _ hal) rfl

/-- Removing the results `l`, in any order, from the middle of a program. -/
lemma linked_removeResults {l' : List ArgId} (hlinked : Linked h (pre ++ l ++ post))
    (hperm : l'.Perm l) :
    ∃ h', l'.foldlM removeResult h = .ok h' ∧ Linked h' (pre ++ post) ∧
      ∀ id ∈ pre ++ post, h' id = (h id).map (unlinkFrom l) := by
  have hnodup := hlinked.graph.nodup
  have hl : l.Nodup := by
    rw [append_assoc, nodup_append, nodup_append] at hnodup
    exact hnodup.2.1.1
  obtain ⟨h', hok, hun⟩ := @foldlM_removeResult h _ hlinked l' [] h (unlinks_nil h _)
    (by intro a ha; simp [hperm.subset ha]) (by simpa using hperm.nodup_iff.mpr hl)
  rw [nil_append] at hun
  have hun' : Unlinks h (pre ++ l ++ post) l h' := by
    intro id hid hnd
    rw [hun id hid (by rwa [hperm.mem_iff])]
    congr 1
    funext r
    exact r.unlinkFrom_congr fun id => hperm.mem_iff
  have hfilter := @filter_notMem_middle _ (fun a => a) pre l post (by rwa [map_id'])
  rw [map_id'] at hfilter
  have hleft := hlinked.remove hun'
  rw [hfilter] at hleft
  refine ⟨h', hok, hleft, fun id hid => ?_⟩
  rw [← hfilter, mem_filter, decide_eq_true_eq] at hid
  exact hun' id hid.1 hid.2

/-! ## The results of trees and programs -/

@[simp] lemma Arg.resultIds_group (id : ArgId) (dir : Dir) (typ : GroupType) (inner : List Arg) :
    (group id dir typ inner).resultIds = inner.flatMap resultIds := by
  simp only [resultIds, subtree, filterMap_cons, result?,
    subtrees_eq_flatMap, filterMap_flatMap, map_flatMap]
  rfl

lemma Arg.mapResults_congr {f g : ResultArg → ResultArg} {arg : Arg}
    (h : ∀ r ∈ arg.subtree.filterMap result?, f r = g r) : arg.mapResults f = arg.mapResults g := by
  induction arg using childInduction with
  | step arg ih =>
    have hchild : ∀ child ∈ arg.children, child.mapResults f = child.mapResults g := by
      refine fun child hc => ih child hc fun r hr => h r ?_
      obtain ⟨arg', harg', hr⟩ := mem_filterMap.mp hr
      rw [subtree_eq]
      exact mem_filterMap.mpr ⟨arg', mem_cons_of_mem _ (mem_flatMap.mpr ⟨child, hc, harg'⟩), hr⟩
    cases arg with
    | group _ _ _ inner =>
      have hinner : inner.map (mapResults f) = inner.map (mapResults g) := map_congr_left hchild
      rw [mapResults, mapResults, mapResultsList_eq_map, mapResultsList_eq_map, hinner]
    | pointer _ _ _ _ _ res =>
      cases res with
      | none => rfl
      | some res => simp [mapResults, mapResultsOption, hchild res mem_cons_self]
    | union _ _ _ option _ => simp [mapResults, hchild option mem_cons_self]
    | result r => simpa [mapResults, subtree, result?] using h
    | _ => rfl

lemma Call.mapResults_congr {f g : ResultArg → ResultArg} {c : Call}
    (h : ∀ r ∈ c.nodes.filterMap Arg.result?, f r = g r) : c.mapResults f = c.mapResults g := by
  have hargs : c.args.map (Arg.mapResults f) = c.args.map (Arg.mapResults g) := by
    refine map_congr_left fun arg harg => Arg.mapResults_congr fun r hr => h r ?_
    simp only [Call.nodes, Call.argNodes, filterMap_append, filterMap_flatMap]
    exact mem_append_left _ (mem_flatMap.mpr ⟨arg, harg, hr⟩)
  have hret : c.ret.map f = c.ret.map g := by
    cases hc : c.ret with
    | none => rfl
    | some r =>
      rw [map_some, map_some, h r]
      simp [Call.nodes, Call.retNodes, hc, Arg.result?]
  rw [Call.mapResults, Call.mapResults, hargs, hret]

lemma results_append (calls calls' : List Call) :
    results (calls ++ calls') = results calls ++ results calls' := by
  simp [results]

lemma map_id_results (calls : List Call) :
    (results calls).map ResultArg.id = calls.flatMap Call.resultIds := by
  simp only [results, filterMap_flatMap, map_flatMap]
  rfl

lemma Call.resultIds_eq (c : Call) : c.resultIds =
    c.args.flatMap Arg.resultIds ++ (c.ret.map Arg.result).toList.flatMap Arg.resultIds := by
  have hret : (c.ret.map Arg.result).toList.flatMap Arg.resultIds =
      ((c.ret.map Arg.result).toList.filterMap Arg.result?).map ResultArg.id := by
    cases c.ret <;> simp [Arg.resultIds, Arg.subtree, Arg.result?]
  rw [hret]
  simp only [Call.resultIds, Call.nodes, Call.argNodes, Call.retNodes, filterMap_append,
    map_append, filterMap_flatMap, map_flatMap]
  rfl

lemma find?_id_of_mem {rs : List ResultArg} (hnodup : (rs.map ResultArg.id).Nodup) (hr : r ∈ rs) :
    rs.find? (·.id == r.id) = some r := by
  induction rs with
  | nil => cases hr
  | cons x rs ih =>
    rw [map_cons, nodup_cons] at hnodup
    rcases mem_cons.mp hr with rfl | hr
    · simp
    · have hne : x.id ≠ r.id := by
        intro he
        exact hnodup.1 (he ▸ mem_map_of_mem hr)
      rw [find?_cons_of_neg (by simpa using hne)]
      exact ih hnodup.2 hr

/-- It does not matter from which end a link is looked at. -/
lemma ResultArg.unlink_eq_unlinkFrom {removed : List ResultArg}
    (hends : ∀ a ∈ removed, (r.id ∈ a.uses ↔ r.res = some a.id) ∧
      (a.id ∈ r.uses ↔ a.res = some r.id)) :
    r.unlink removed = r.unlinkFrom (removed.map ResultArg.id) := by
  have hany : removed.any (·.uses.contains r.id) =
      r.res.any ((removed.map ResultArg.id).contains ·) := by
    rw [Bool.eq_iff_iff, any_eq_true, Option.any_eq_true]
    simp only [contains_iff_mem, mem_map]
    constructor
    · rintro ⟨a, ha, hua⟩
      exact ⟨a.id, (hends a ha).1.mp hua, a, ha, rfl⟩
    · rintro ⟨t, ht, a, ha, rfl⟩
      exact ⟨a, ha, (hends a ha).1.mpr ht⟩
  have huses : (r.uses.filter fun u => !removed.any fun a => a.id == u && a.res == some r.id) =
      r.uses.filter (· ∉ removed.map ResultArg.id) := by
    refine filter_congr fun u hu => ?_
    rw [decide_not, Bool.not_eq_eq_eq_not, Bool.not_not, Bool.eq_iff_iff, any_eq_true,
      decide_eq_true_eq, mem_map]
    simp only [Bool.and_eq_true, beq_iff_eq]
    constructor
    · rintro ⟨a, ha, hau, -⟩
      exact ⟨a, ha, hau⟩
    · rintro ⟨a, ha, rfl⟩
      exact ⟨a, ha, rfl, (hends a ha).2.mp hu⟩
  simp only [unlink, unlinkFrom, hany, huses]
  rfl

variable (hlinked : Linked p.heap p.resultIds)

include hlinked

lemma Prog.heap_of_mem (hr : r ∈ results p.calls) : p.heap r.id = some r := by
  apply find?_id_of_mem _ hr
  show ((results p.calls).map ResultArg.id).Nodup
  rw [map_id_results]
  exact hlinked.graph.nodup

omit hlinked in
lemma Linked.congr {h' : Heap} (hlinked : Linked h ids) (heq : ∀ id ∈ ids, h' id = h id) :
    Linked h' ids where
  alloc id hid := by rw [heq id hid]; exact hlinked.alloc id hid
  graph := hlinked.graph.congr (fun a ha => by rw [Heap.res, Heap.res, heq a ha])
    fun r hr u => by simp only [Heap.uses, Set.mem_ofPred_eq, heq r hr]

/-! ## Removing a call -/

omit hlinked in
lemma foldlM_removeArg (args : List Arg) (h : Heap) :
    args.foldlM removeArg h = (args.flatMap resultIds).foldlM removeResult h := by
  induction args generalizing h with
  | nil => rfl
  | cons arg args ih =>
    rw [foldlM_cons, flatMap_cons, foldlM_append]
    show removeArg h arg >>= _ = removeArg h arg >>= _
    congr 1
    funext h'
    exact ih h'

/-- `RemoveCall` unlinks the results of the call from those of the other calls. -/
lemma removeCallLinks_spec {idx : ℕ} {c : Call} (hc : p.calls[idx]? = some c) :
    ∃ p', p.removeCallLinks idx = .ok p' ∧ Linked p'.heap p'.resultIds ∧
      p'.target = p.target ∧
      p'.calls = (p.calls.eraseIdx idx).map
        (Call.mapResults (ResultArg.unlinkFrom c.resultIds)) := by
  obtain ⟨pre, c', post, hcalls, rfl⟩ := exists_split (List.getElem?_eq_some_iff.mp hc).1
  obtain rfl : c = c' := by simpa [hcalls] using hc.symm
  have hids : p.resultIds =
      pre.flatMap Call.resultIds ++ c.resultIds ++ post.flatMap Call.resultIds := by
    rw [Prog.resultIds, hcalls, flatMap_append, flatMap_cons, append_assoc]
  have hleftIds : (p.calls.eraseIdx pre.length).flatMap Call.resultIds =
      pre.flatMap Call.resultIds ++ post.flatMap Call.resultIds := by
    rw [hcalls, eraseIdx_append_of_length_le le_rfl, Nat.sub_self, eraseIdx_cons_zero,
      flatMap_append]
  set others := p.calls.eraseIdx pre.length
  rw [hids] at hlinked
  obtain ⟨h', hok, hleft, hfinal⟩ := linked_removeResults hlinked (Perm.refl _)
  rw [← hids] at hlinked
  rw [← hleftIds] at hleft hfinal
  -- a result of another call, before and after
  have hread : ∀ r ∈ results others,
      h'.read r = r.unlinkFrom c.resultIds ∧ h' r.id = some (r.unlinkFrom c.resultIds) := by
    intro r hr
    have hmem : r ∈ results p.calls := by
      rw [results, mem_filterMap] at hr ⊢
      obtain ⟨arg, harg, hres⟩ := hr
      obtain ⟨c', hc', harg⟩ := mem_flatMap.mp harg
      exact ⟨arg, mem_flatMap.mpr ⟨c', mem_of_mem_eraseIdx hc', harg⟩, hres⟩
    have hid : r.id ∈ others.flatMap Call.resultIds := by
      rw [← map_id_results]
      exact mem_map_of_mem hr
    have hr' : h' r.id = some (r.unlinkFrom c.resultIds) := by
      rw [hfinal r.id hid, Prog.heap_of_mem hlinked hmem, map_some]
    exact ⟨by rw [Heap.read, hr', Option.getD_some], hr'⟩
  let calls' := others.map (Call.mapResults h'.read)
  have hmap : calls' = others.map (Call.mapResults (ResultArg.unlinkFrom c.resultIds)) := by
    refine map_congr_left fun c' hc' => Call.mapResults_congr fun r hr => (hread r ?_).1
    rw [results, filterMap_flatMap]
    exact mem_flatMap.mpr ⟨c', hc', hr⟩
  have hmem : ∀ c' ∈ calls', c'.callMeta ∈ p.target.syscalls := by
    refine forall_mem_map.mpr fun c'' hc'' => ?_
    exact p.callMeta_mem c'' (mem_of_mem_eraseIdx hc'')
  refine ⟨⟨p.target, calls', hmem⟩, ?_, ?_, rfl, hmap⟩
  · rw [Call.resultIds_eq, foldlM_append, ← foldlM_removeArg, bind_eq_ok_iff] at hok
    obtain ⟨h1, hargs, hret⟩ := hok
    rw [← foldlM_removeArg] at hret
    simp only [Prog.removeCallLinks, hc, hargs]
    show (foldlM removeArg h1 (c.ret.map result).toList >>= _) = _
    rw [hret]
    rfl
  · have hresults : results calls' = (results others).map (ResultArg.unlinkFrom c.resultIds) := by
      rw [hmap, results_mapResults]
    have hids' : calls'.flatMap Call.resultIds = others.flatMap Call.resultIds := by
      rw [← map_id_results, ← map_id_results, hresults, map_map]
      exact map_congr_left fun r _ => by simp
    rw [Prog.resultIds, hids']
    refine hleft.congr fun id hid => ?_
    rw [← map_id_results] at hid
    obtain ⟨r, hr, rfl⟩ := mem_map.mp hid
    rw [(hread r hr).2]
    show (results calls').find? _ = _
    rw [← r.id_unlinkFrom c.resultIds]
    apply find?_id_of_mem
    · rw [map_id_results, hids']
      exact hleft.graph.nodup
    · rw [hresults]
      exact mem_map_of_mem hr

lemma mem_uses_iff_of_linked {a : ResultArg} (ha : a ∈ results p.calls) (hr : r ∈ results p.calls) :
    r.id ∈ a.uses ↔ r.res = some a.id := by
  have hin : ∀ x ∈ results p.calls, x.id ∈ p.resultIds := by
    intro x hx
    rw [Prog.resultIds, ← map_id_results]
    exact mem_map_of_mem hx
  rw [← Heap.mem_uses_iff (Prog.heap_of_mem hlinked ha), hlinked.graph.mem_uses a.id (hin a ha),
    Heap.res_eq (Prog.heap_of_mem hlinked hr)]
  exact and_iff_right (hin r hr)

/-- `RemoveCall` does at every link what `Prog.removeCall` says at once. -/
lemma removeCallLinks_eq_removeCall {idx : ℕ}
    (hidx : idx < p.calls.length) : p.removeCallLinks idx = .ok (p.removeCall idx) := by
  have hc : p.calls[idx]? = some p.calls[idx] := getElem?_eq_getElem hidx
  obtain ⟨p', hok, -, htarget, hcalls⟩ := removeCallLinks_spec hlinked hc
  rw [hok]
  have hcalls' : p'.calls = (p.removeCall idx).calls := by
    rw [hcalls]
    simp only [Prog.removeCall, hc, Option.elim_some]
    refine map_congr_left fun c' hc' => ?_
    show c'.mapResults _ = c'.mapResults _
    refine Call.mapResults_congr fun r hr => ?_
    have hmem : ∀ {c a}, c ∈ p.calls → a ∈ c.nodes.filterMap result? → a ∈ results p.calls := by
      intro c a hc ha
      rw [results, filterMap_flatMap]
      exact mem_flatMap.mpr ⟨c, hc, ha⟩
    have hr := hmem (mem_of_mem_eraseIdx hc') hr
    refine (unlink_eq_unlinkFrom fun a ha => ?_).symm
    have ha := hmem (getElem_mem hidx) ha
    exact ⟨mem_uses_iff_of_linked hlinked ha hr, mem_uses_iff_of_linked hlinked hr ha⟩
  cases p'
  subst htarget hcalls'
  rfl

/-- Calls that are removed one after the other leave a consistent program, the one that the
minimizer and the mutator go on with. -/
theorem foldlM_removeCallLinks {idxs : List ℕ}
    (hidxs : ∀ k (hk : k < idxs.length), idxs[k] + k < p.calls.length) :
    ∃ p', idxs.foldlM Prog.removeCallLinks p = .ok p' ∧ p' = idxs.foldl Prog.removeCall p ∧
      Linked p'.heap p'.resultIds := by
  induction idxs generalizing p with
  | nil => exact ⟨p, rfl, rfl, hlinked⟩
  | cons idx idxs ih =>
    have hidx : idx < p.calls.length := hidxs 0 (Nat.succ_pos _)
    obtain ⟨p', hok, hlinked', -, hcalls⟩ :=
      removeCallLinks_spec hlinked (getElem?_eq_getElem hidx)
    obtain rfl : p' = p.removeCall idx :=
      Except.ok.inj (hok.symm.trans (removeCallLinks_eq_removeCall hlinked hidx))
    rw [foldlM_cons, hok]
    refine ih hlinked' fun k hk => ?_
    have : idxs[k] + (k + 1) < p.calls.length := hidxs (k + 1) (Nat.succ_lt_succ hk)
    rw [hcalls, length_map, length_eraseIdx_of_lt hidx]
    omega

end KConfuzz
